/-
  RuleTree.Proofs.Renaming — names have no part in what is made.

  Two runs draw their numbers from different starts, and the numbers are named by `f` in the
  one and by `g` in the other. As long as the names drawn next are the same in both, the runs
  go on alike (`Run.Agree`): they draw as many numbers, record the same problems and make
  nodes that are the same under these names (`Node.Alike`).
  - `Item.Alike`: rule groups are made and found by their paths, so that children placed
    alike are placed alike (`agree_reconcile`).
  - `agree_ruleStep`, `agree_valueStep`: no step of a conversion looks at a number.
  - `agreeParts`: so conversions agree from any two starts, also when the second one may nest
    deeper.
  Names by the distance from the start tell that two runs make one tree (`importFrom_eq`);
  names that are all the same, that they make trees of one shape.

  Proved of imports from any two starts: `names_have_no_part`.
-/

import RuleTree.Ids
import RuleTree.Proofs.Backing
import RuleTree.Proofs.Sameness

namespace RuleTree

/-! ## Related options -/

section Rel

variable {α β γ δ : Type} {r : α → β → Prop} {x : Option α} {y : Option β}

theorem rel_map {q : γ → δ → Prop} {F : α → γ} {G : β → δ} (h : ∀ a b, r a b → q (F a) (G b))
    (hxy : Option.Rel r x y) : Option.Rel q (x.map F) (y.map G) := by
  cases hxy with
  | some hab => exact .some (h _ _ hab)
  | none => exact .none

theorem map_eq_map_of_rel {F : α → γ} {G : β → γ} (h : ∀ a b, r a b → F a = G b) (hxy : Option.Rel r x y) :
    x.map F = y.map G := by
  cases hxy with
  | some hab => exact congrArg some (h _ _ hab)
  | none => rfl

end Rel

/-! ## Runs under names -/

namespace Run

variable {α β γ δ κ : Type} {f g : Nat → κ}

/-- Started where the names to come are the same, the second run ends where the first one
does, with a related value and the same problems, and draws as many numbers. -/
def Agree (f g : Nat → κ) (r : α → β → Prop) (x : Run α) (y : Run β) : Prop :=
  ∀ n n', (∀ i, f (n + i) = g (n' + i)) → ∀ d, x n = some d →
    ∃ d' drawn, y n' = some d' ∧ r d.value d'.value ∧ d'.problems = d.problems ∧
      d.next = n + drawn ∧ d'.next = n' + drawn

section Agree

variable {r : α → β → Prop} {q : γ → δ → Prop}

theorem agree_stuck (y : Run β) : Agree f g r stuck y := by
  intro n n' _ d hd
  cases hd

theorem agree_pure {a : α} {b : β} (h : r a b) : Agree f g r (Run.pure a) (Run.pure b) := by
  intro n n' _ d hd
  cases hd
  exact ⟨_, 0, rfl, h, rfl, rfl, rfl⟩

/-- The names to come are the same again after as many draws. -/
theorem names_after {n n' : Nat} (h : ∀ i, f (n + i) = g (n' + i)) (drawn : Nat) :
    ∀ i, f (n + drawn + i) = g (n' + drawn + i) := by
  intro i
  rw [Nat.add_assoc, Nat.add_assoc]
  exact h (drawn + i)

theorem agree_bind {x : Run α} {y : Run β} {F : α → Run γ} {G : β → Run δ} (hx : Agree f g r x y)
    (hF : ∀ a b, r a b → Agree f g q (F a) (G b)) : Agree f g q (x.bind F) (y.bind G) := by
  intro n n' hnames e he
  obtain ⟨d, e', hd, he', rfl⟩ := bind_eq_some.mp he
  obtain ⟨d₂, drawn, hd₂, hr, hp, hnext, hnext'⟩ := hx n n' hnames d hd
  have hlater : ∀ i, f (d.next + i) = g (d₂.next + i) := by
    rw [hnext, hnext']
    exact names_after hnames drawn
  obtain ⟨e₂, drawn', he₂, hq, hp', hlast, hlast'⟩ := hF _ _ hr _ _ hlater e' he'
  refine ⟨⟨e₂.value, e₂.next, d₂.problems ++ e₂.problems⟩, drawn + drawn', ?_, hq, by rw [hp, hp'], ?_, ?_⟩
  · exact bind_eq_some.mpr ⟨d₂, e₂, hd₂, he₂, rfl⟩
  · show e'.next = n + (drawn + drawn')
    omega
  · show e₂.next = n' + (drawn + drawn')
    omega

theorem agree_andThen {x : Run (Option α)} {y : Run (Option β)} {F : α → Run (Option γ)}
    {G : β → Run (Option δ)} (hx : Agree f g (Option.Rel r) x y)
    (hF : ∀ a b, r a b → Agree f g (Option.Rel q) (F a) (G b)) :
    Agree f g (Option.Rel q) (x.andThen F) (y.andThen G) := by
  refine agree_bind hx fun a? b? hab => ?_
  cases hab with
  | some hab => exact hF _ _ hab
  | none => exact agree_pure .none

theorem agree_draw : Agree f g (fun i j => f i = g j) draw draw := by
  intro n n' hnames d hd
  cases hd
  exact ⟨_, 1, rfl, hnames 0, rfl, rfl, rfl⟩

theorem agree_drawing {F : Nat → α × Nat} {G : Nat → β × Nat}
    (h : ∀ n n', (∀ i, f (n + i) = g (n' + i)) →
      r (F n).1 (G n').1 ∧ ∃ drawn, (F n).2 = n + drawn ∧ (G n').2 = n' + drawn) :
    Agree f g r (drawing F) (drawing G) := by
  intro n n' hnames d hd
  cases hd
  obtain ⟨hr, drawn, hnext, hnext'⟩ := h n n' hnames
  exact ⟨_, drawn, rfl, hr, rfl, hnext, hnext'⟩

theorem agree_fail (p : Problem) : Agree f g (Option.Rel r) (fail p) (fail p) := by
  intro n n' _ d hd
  cases hd
  exact ⟨_, 0, rfl, .none, rfl, rfl, rfl⟩

theorem agree_ofExcept {r : α → α → Prop} {x : Except Problem α} (h : ∀ a, x = .ok a → r a a) :
    Agree f g (Option.Rel r) (ofExcept x) (ofExcept x) := by
  cases x with
  | ok a => exact agree_pure (.some (h a rfl))
  | error p => exact agree_fail p

theorem agree_filterMap {F : γ → Run (Option α)} {G : γ → Run (Option β)}
    (h : ∀ c, Agree f g (Option.Rel r) (F c) (G c)) (cs : List γ) :
    Agree f g (List.Forall₂ r) (filterMap F cs) (filterMap G cs) := by
  induction cs with
  | nil => exact agree_pure .nil
  | cons c rest ih =>
    refine agree_bind (h c) fun a? b? hab => ?_
    refine agree_bind ih fun as bs hrest => agree_pure ?_
    cases hab with
    | some hab => exact .cons hab hrest
    | none => exact hrest

theorem agree_collect {F : γ → Run (Option α)} {G : γ → Run (Option β)}
    (h : ∀ c, Agree f g (Option.Rel r) (F c) (G c)) (cs : List γ) :
    Agree f g (Option.Rel (List.Forall₂ r)) (collect F cs) (collect G cs) := by
  induction cs with
  | nil => exact agree_pure (.some .nil)
  | cons c rest ih =>
    refine agree_andThen (h c) fun a b hab => ?_
    exact agree_andThen ih fun as bs hrest => agree_pure (.some (.cons hab hrest))

end Agree

end Run

/-! ## Nodes under names -/

namespace Node

variable {ι κ : Type}

mutual

theorem sameShape_rename {ι' κ' : Type} (f : ι → ι') (g : κ → κ') :
    ∀ (n : Node ι) (m : Node κ), (n.rename f).sameShape (m.rename g) = n.sameShape m
  | group i p cs, m => by
    cases m with
    | group j q ds => simp [rename, sameShape, sameShapes_renameAll f g cs ds]
    | rule => rfl
    | ruleGroup => rfl
  | rule i p, m => by cases m <;> rfl
  | ruleGroup i p cs, m => by
    cases m with
    | group => rfl
    | rule => rfl
    | ruleGroup j q ds => simp [rename, sameShape, sameShapes_renameAll f g cs ds]

theorem sameShapes_renameAll {ι' κ' : Type} (f : ι → ι') (g : κ → κ') :
    ∀ (ns : List (Node ι)) (ms : List (Node κ)), sameShapes (renameAll f ns) (renameAll g ms) = sameShapes ns ms
  | [], [] => rfl
  | [], _ :: _ => rfl
  | _ :: _, [] => rfl
  | n :: ns, m :: ms => by
    simp [renameAll, sameShapes, sameShape_rename f g n m, sameShapes_renameAll f g ns ms]

end

/-- The same node under the names `f` and `g`, and of the same shape. -/
structure Alike (f g : Nat → κ) (n m : Node Nat) : Prop where
  rename_eq : n.rename f = m.rename g
  shape : n.sameShape m = true

section Alike

variable {f g : Nat → κ} {i j : Nat} {cs ds : List (Node Nat)} {n m : Node Nat}

theorem forall₂_alike_iff :
    List.Forall₂ (Alike f g) cs ds ↔ renameAll f cs = renameAll g ds ∧ sameShapes cs ds = true := by
  induction cs generalizing ds with
  | nil => cases ds <;> simp [renameAll, sameShapes]
  | cons n rest ih =>
    cases ds with
    | nil => simp [renameAll]
    | cons m ms =>
      rw [List.forall₂_cons, ih, renameAll, renameAll, sameShapes, Bool.and_eq_true, List.cons.injEq]
      constructor
      · rintro ⟨⟨hn, hs⟩, hrest, hshapes⟩
        exact ⟨⟨hn, hrest⟩, hs, hshapes⟩
      · rintro ⟨⟨hn, hrest⟩, hs, hshapes⟩
        exact ⟨⟨hn, hs⟩, hrest, hshapes⟩

theorem alike_group (p : GroupProps) (hi : f i = g j) (h : List.Forall₂ (Alike f g) cs ds) :
    Alike f g (group i p cs) (group j p ds) := by
  obtain ⟨hnames, hshapes⟩ := forall₂_alike_iff.mp h
  exact ⟨by rw [rename, rename, hi, hnames], by simp [sameShape, hshapes]⟩

theorem alike_rule {p : RuleProps} (hi : f i = g j) (hp : sameOperands p.args p.args = true) :
    Alike f g (rule i p) (rule j p) :=
  ⟨by rw [rename, rename, hi], by rw [sameShape, RuleProps.same_refl hp]⟩

theorem alike_ruleGroup {p : RuleGroupProps} (hi : f i = g j) (hp : sameOperands p.args p.args = true)
    (h : List.Forall₂ (Alike f g) cs ds) : Alike f g (ruleGroup i p cs) (ruleGroup j p ds) := by
  obtain ⟨hnames, hshapes⟩ := forall₂_alike_iff.mp h
  exact ⟨by rw [rename, rename, hi, hnames], by rw [sameShape, RuleGroupProps.same_refl hp, hshapes, Bool.and_self]⟩

theorem exists_group_of_alike {p : GroupProps} (h : Alike f g (group i p cs) m) :
    ∃ j ds, m = group j p ds ∧ f i = g j ∧ List.Forall₂ (Alike f g) cs ds := by
  obtain ⟨hnames, hshape⟩ := h
  cases m with
  | group j q ds =>
    simp only [rename, group.injEq] at hnames
    simp only [sameShape, Bool.and_eq_true] at hshape
    obtain ⟨hi, rfl, hcs⟩ := hnames
    exact ⟨j, ds, rfl, hi, forall₂_alike_iff.mpr ⟨hcs, hshape.2⟩⟩
  | rule => cases hshape
  | ruleGroup => cases hshape

theorem exists_rule_of_alike {p : RuleProps} (h : Alike f g (rule i p) m) : ∃ j, m = rule j p := by
  obtain ⟨hnames, hshape⟩ := h
  cases m with
  | group => cases hshape
  | rule j q =>
    simp only [rename, rule.injEq] at hnames
    exact ⟨j, by rw [hnames.2]⟩
  | ruleGroup => cases hshape

theorem exists_ruleGroup_of_alike {p : RuleGroupProps} (h : Alike f g (ruleGroup i p cs) m) :
    ∃ j ds, m = ruleGroup j p ds ∧ f i = g j ∧ sameOperands p.args p.args = true ∧
      List.Forall₂ (Alike f g) cs ds := by
  obtain ⟨hnames, hshape⟩ := h
  cases m with
  | group => cases hshape
  | rule => cases hshape
  | ruleGroup j q ds =>
    simp only [rename, ruleGroup.injEq] at hnames
    obtain ⟨hi, rfl, hcs⟩ := hnames
    simp only [sameShape, RuleGroupProps.same, Bool.and_eq_true] at hshape
    exact ⟨j, ds, rfl, hi, hshape.1.2, forall₂_alike_iff.mpr ⟨hcs, hshape.2⟩⟩

theorem field?_of_alike (h : Alike f g n m) : n.field? = m.field? := by
  rw [← field?_rename f, h.rename_eq, field?_rename]

end Alike

end Node

/-! ## Children and rule groups under names -/

namespace Item

variable {κ : Type} (f g : Nat → κ)

mutual

/-- Children are alike, and rule groups made for one path hold what is alike. -/
def Alike : Item → Item → Prop
  | child n, child m => n.Alike f g m
  | made i p xs, made j q ys => f i = g j ∧ p = q ∧ AlikeAll xs ys
  | _, _ => False

def AlikeAll : List Item → List Item → Prop
  | [], [] => True
  | x :: xs, y :: ys => Alike x y ∧ AlikeAll xs ys
  | _, _ => False

end

variable {f g}

theorem alikeAll_append {xs ys xs' ys' : List Item} (h : AlikeAll f g xs ys) (h' : AlikeAll f g xs' ys') :
    AlikeAll f g (xs ++ xs') (ys ++ ys') := by
  induction xs generalizing ys with
  | nil =>
    cases ys with
    | nil => exact h'
    | cons y ys => cases h
  | cons x rest ih =>
    cases ys with
    | nil => cases h
    | cons y ys => exact ⟨h.1, ih h.2⟩

mutual

theorem paths_of_alike : ∀ x y : Item, Alike f g x y → x.paths = y.paths
  | child n, child m, _ => rfl
  | made i p xs, made j q ys, h => by rw [paths, paths, h.2.1, pathsAll_of_alike xs ys h.2.2]
  | child n, made j q ys, h => by cases h
  | made i p xs, child m, h => by cases h

theorem pathsAll_of_alike : ∀ xs ys : List Item, AlikeAll f g xs ys → pathsAll xs = pathsAll ys
  | [], [], _ => rfl
  | x :: xs, y :: ys, h => by rw [pathsAll, pathsAll, paths_of_alike x y h.1, pathsAll_of_alike xs ys h.2]
  | [], _ :: _, h => by cases h
  | _ :: _, [], h => by cases h

end

mutual

theorem alike_pushUnder (path : String) {a b : Item} (hab : Alike f g a b) :
    ∀ x y : Item, Alike f g x y → Alike f g (pushUnder path a x) (pushUnder path b y)
  | child n, child m, h => h
  | made i p xs, made j q ys, h => by
    obtain ⟨hi, rfl, hxs⟩ := h
    have hinside := alike_pushUnderAll path hab xs ys hxs
    rw [pushUnder, pushUnder]
    by_cases hp : p = path
    · rw [if_pos hp, if_pos hp]
      exact ⟨hi, rfl, alikeAll_append hinside ⟨hab, trivial⟩⟩
    · rw [if_neg hp, if_neg hp]
      exact ⟨hi, rfl, hinside⟩
  | child n, made j q ys, h => by cases h
  | made i p xs, child m, h => by cases h

theorem alike_pushUnderAll (path : String) {a b : Item} (hab : Alike f g a b) :
    ∀ xs ys : List Item, AlikeAll f g xs ys → AlikeAll f g (pushUnderAll path a xs) (pushUnderAll path b ys)
  | [], [], _ => trivial
  | x :: xs, y :: ys, h => ⟨alike_pushUnder path hab x y h.1, alike_pushUnderAll path hab xs ys h.2⟩
  | [], _ :: _, h => by cases h
  | _ :: _, [], h => by cases h

end

theorem alike_push (container : Option String) {a b : Item} {xs ys : List Item} (hab : Alike f g a b)
    (h : AlikeAll f g xs ys) : AlikeAll f g (push container a xs) (push container b ys) := by
  cases container with
  | some path => exact alike_pushUnderAll path hab xs ys h
  | none => exact alikeAll_append h ⟨hab, trivial⟩

section Nodes

variable {conjunction : String} {modeOf : String → Option GroupMode}

mutual

theorem alike_toNode : ∀ x y : Item, Alike f g x y →
    (x.toNode conjunction modeOf).Alike f g (y.toNode conjunction modeOf)
  | child n, child m, h => h
  | made i p xs, made j q ys, h => by
    obtain ⟨hi, rfl, hxs⟩ := h
    exact Node.alike_ruleGroup hi rfl (alike_toNodes xs ys hxs)
  | child n, made j q ys, h => by cases h
  | made i p xs, child m, h => by cases h

theorem alike_toNodes : ∀ xs ys : List Item, AlikeAll f g xs ys →
    List.Forall₂ (Node.Alike f g) (toNodes conjunction modeOf xs) (toNodes conjunction modeOf ys)
  | [], [], _ => .nil
  | x :: xs, y :: ys, h => .cons (alike_toNode x y h.1) (alike_toNodes xs ys h.2)
  | [], _ :: _, h => by cases h
  | _ :: _, [], h => by cases h

end

end Nodes

end Item

theorem Tree.rename_eq_of_alike {ι : Type} {f g : Nat → ι} {t u : Tree Nat} (h : t.root.Alike f g u.root) :
    t.rename f = u.rename g := by
  have hroot := h.rename_eq
  simp only [Tree.root, Node.rename, Node.group.injEq] at hroot
  simp only [Tree.rename, hroot]

/-! ## Operands -/

namespace Operand

/-- Equal, and the same. -/
structure Alike (o o' : Operand) : Prop where
  eq : o = o'
  same : o.same o = true

theorem eq_of_forall₂_alike {os os' : List Operand} (h : List.Forall₂ Alike os os') :
    os = os' ∧ sameOperands os os = true := by
  induction h with
  | nil => exact ⟨rfl, rfl⟩
  | cons ho _ ih =>
    obtain ⟨rfl, hsame⟩ := ho
    obtain ⟨rfl, hrest⟩ := ih
    exact ⟨rfl, by rw [sameOperands, hsame, hrest, Bool.and_self]⟩

end Operand

namespace Converter

open Item

variable {c : Converter} {κ : Type} {f g : Nat → κ}

/-! ## Conjunctions -/

section Reconcile

variable {used : List String} {root : Option String} {n m : Node Nat} {ns ms : List (Node Nat)}

theorem collection?_of_alike (h : n.Alike f g m) : c.collection? n = c.collection? m := by
  unfold collection?
  rw [Node.field?_of_alike h]

theorem homeOf?_of_alike (h : n.Alike f g m) : c.homeOf? used n = c.homeOf? used m := by
  cases n with
  | group i p cs =>
    obtain ⟨j, ds, rfl, -⟩ := Node.exists_group_of_alike h
    rfl
  | rule i p =>
    obtain ⟨j, rfl⟩ := Node.exists_rule_of_alike h
    rfl
  | ruleGroup i p cs =>
    obtain ⟨j, ds, rfl, -⟩ := Node.exists_ruleGroup_of_alike h
    rfl

/-- What alike nodes have in common, lists of them have. -/
theorem map_of_alike {α : Type} {F : Node Nat → α} (hF : ∀ {n m}, n.Alike f g m → F n = F m)
    (h : List.Forall₂ (Node.Alike f g) ns ms) : ns.map F = ms.map F := by
  induction h with
  | nil => rfl
  | cons hnm _ ih => rw [List.map_cons, List.map_cons, hF hnm, ih]

theorem usedGroups_of_alike (h : List.Forall₂ (Node.Alike f g) ns ms) : c.usedGroups ns = c.usedGroups ms := by
  have hmap := map_of_alike (F := c.collection?) collection?_of_alike h
  have hfilter : ∀ ns : List (Node Nat), ns.filterMap c.collection? = (ns.map c.collection?).filterMap id := by
    intro ns
    rw [List.filterMap_map]
    rfl
  rw [usedGroups, usedGroups, hfilter, hfilter, hmap]

theorem singleRoot?_of_alike (h : List.Forall₂ (Node.Alike f g) ns ms) :
    c.singleRoot? ns = c.singleRoot? ms := by
  have hmap := map_of_alike (F := c.collection?) collection?_of_alike h
  have hall : ∀ ns : List (Node Nat),
      (ns.all fun n => (c.collection? n).isSome) = (ns.map c.collection?).all Option.isSome := by
    intro ns
    rw [List.all_map]
    rfl
  rw [singleRoot?, singleRoot?, usedGroups_of_alike h, hall, hall, hmap]

theorem meetsRoot_of_alike (h : List.Forall₂ (Node.Alike f g) ns ms) :
    c.meetsRoot used root ns = c.meetsRoot used root ms := by
  have hmap := map_of_alike (F := c.homeOf? used) homeOf?_of_alike h
  have hany : ∀ ns : List (Node Nat), c.meetsRoot used root ns =
      (ns.map (c.homeOf? used)).any fun home? => home?.any fun home => (c.pathsTo home).any (c.isAbove root) := by
    intro ns
    rw [List.any_map, meetsRoot]
    congr 1
    funext n
    rw [Function.comp_apply]
    cases c.homeOf? used n <;> rfl
  rw [hany, hany, hmap]

/-- The items placed so far are alike, and the rule groups to come will be named alike. -/
structure AlikePlacing (f g : Nat → κ) (st st' : Placing) : Prop where
  items : AlikeAll f g st.items st'.items
  names : ∀ i, f (st.next + i) = g (st'.next + i)

variable {st st' : Placing}

/-- Opening a chain makes as many rule groups, and ends at the same path. -/
theorem alike_openChain (chain : List String) (container : Option String) (h : AlikePlacing f g st st') :
    AlikePlacing f g (openChain st container chain).1 (openChain st' container chain).1 ∧
      (openChain st container chain).2 = (openChain st' container chain).2 ∧
      ∃ drawn, (openChain st container chain).1.next = st.next + drawn ∧
        (openChain st' container chain).1.next = st'.next + drawn := by
  induction chain generalizing st st' container with
  | nil => exact ⟨h, rfl, 0, rfl, rfl⟩
  | cons p ps ih =>
    rw [openChain, openChain, ← pathsAll_of_alike st.items st'.items h.items]
    by_cases hp : p ∈ pathsAll st.items
    · rw [if_pos hp, if_pos hp]
      exact ih (some p) h
    · rw [if_neg hp, if_neg hp]
      have hmade : Alike f g (.made st.next p []) (.made st'.next p []) := ⟨h.names 0, rfl, trivial⟩
      have hnext : AlikePlacing f g ⟨push container (.made st.next p []) st.items, st.next + 1⟩
          ⟨push container (.made st'.next p []) st'.items, st'.next + 1⟩ :=
        ⟨alike_push container hmade h.items, Run.names_after h.names 1⟩
      obtain ⟨hopen, hend, drawn, hdrawn, hdrawn'⟩ := ih (some p) hnext
      refine ⟨hopen, hend, 1 + drawn, ?_, ?_⟩
      · rw [hdrawn]
        show st.next + 1 + drawn = st.next + (1 + drawn)
        omega
      · rw [hdrawn']
        show st'.next + 1 + drawn = st'.next + (1 + drawn)
        omega

theorem alike_place (used : List String) (root : Option String) (h : AlikePlacing f g st st')
    (hnm : n.Alike f g m) :
    AlikePlacing f g (c.place used root st n) (c.place used root st' m) ∧
      ∃ drawn, (c.place used root st n).next = st.next + drawn ∧
        (c.place used root st' m).next = st'.next + drawn := by
  unfold place
  rw [← homeOf?_of_alike hnm]
  cases c.homeOf? used n with
  | none => exact ⟨⟨alikeAll_append h.items ⟨hnm, trivial⟩, h.names⟩, 0, rfl, rfl⟩
  | some home =>
    obtain ⟨hopen, hend, hdrawn⟩ := alike_openChain (c.chain root home) none h
    simp only
    rw [← hend]
    exact ⟨⟨alike_push _ hnm hopen.items, hopen.names⟩, hdrawn⟩

theorem alike_foldl_place (used : List String) (root : Option String)
    (h : List.Forall₂ (Node.Alike f g) ns ms) (hst : AlikePlacing f g st st') :
    AlikePlacing f g (ns.foldl (c.place used root) st) (ms.foldl (c.place used root) st') ∧
      ∃ drawn, (ns.foldl (c.place used root) st).next = st.next + drawn ∧
        (ms.foldl (c.place used root) st').next = st'.next + drawn := by
  induction h generalizing st st' with
  | nil => exact ⟨hst, 0, rfl, rfl⟩
  | @cons n m ns ms hnm _ ih =>
    obtain ⟨hplace, drawn, hdrawn, hdrawn'⟩ := alike_place (c := c) used root hst hnm
    obtain ⟨hrest, later, hlater, hlater'⟩ := ih hplace
    refine ⟨hrest, drawn + later, ?_, ?_⟩
    · rw [List.foldl_cons, hlater, hdrawn, Nat.add_assoc]
    · rw [List.foldl_cons, hlater', hdrawn', Nat.add_assoc]

/-- Conjunctions over alike children are alike, and make as many rule groups. -/
theorem agree_reconcile (conjunction : String) (negated : Bool) (h : List.Forall₂ (Node.Alike f g) ns ms) :
    Run.Agree f g (Node.Alike f g) (c.reconcile conjunction negated ns) (c.reconcile conjunction negated ms) := by
  refine Run.agree_drawing fun k k' hnames => ?_
  have hstart : AlikePlacing f g ⟨[], k + 1⟩ ⟨[], k' + 1⟩ := ⟨trivial, Run.names_after hnames 1⟩
  obtain ⟨hplaced, drawn, hdrawn, hdrawn'⟩ :=
    alike_foldl_place (c := c) (c.usedGroups ns) (c.singleRoot? ns) h hstart
  have hnodes : List.Forall₂ (Node.Alike f g)
      (Item.toNodes conjunction c.modeOf
        (ns.foldl (c.place (c.usedGroups ns) (c.singleRoot? ns)) ⟨[], k + 1⟩).items)
      (Item.toNodes conjunction c.modeOf
        (ms.foldl (c.place (c.usedGroups ns) (c.singleRoot? ns)) ⟨[], k' + 1⟩).items) :=
    alike_toNodes _ _ hplaced.items
  unfold reconcileFrom
  rw [← usedGroups_of_alike h, ← singleRoot?_of_alike h]
  simp only [← meetsRoot_of_alike h]
  have hcount : ∀ {l l' : Nat}, l = k + 1 + drawn → l' = k' + 1 + drawn →
      ∃ drawn, l = k + drawn ∧ l' = k' + drawn := by
    intro l l' hl hl'
    exact ⟨1 + drawn, by omega, by omega⟩
  split
  · split
    · exact ⟨Node.alike_ruleGroup (hnames 0) rfl hnodes, hcount hdrawn hdrawn'⟩
    · exact ⟨Node.alike_group _ (hnames 0) hnodes, hcount hdrawn hdrawn'⟩
  · exact ⟨Node.alike_group _ (hnames 0) hnodes, hcount hdrawn hdrawn'⟩

end Reconcile

/-! ## Wrapping and having clauses -/

section Having

variable {path : String} {field : Field} {n m : Node Nat}

theorem agree_wrap (negated : Bool) (h : n.Alike f g m) :
    Run.Agree f g (fun t u => t.root.Alike f g u.root) (c.wrap negated n) (c.wrap negated m) := by
  refine Run.agree_bind Run.agree_draw fun i j hij => Run.agree_pure ?_
  exact Node.alike_group _ hij (.cons h .nil)

theorem agree_wrapOn (conjunction : Option String) (h : n.Alike f g m) :
    Run.Agree f g (fun a b => a.toNode.Alike f g b.toNode) (c.wrapOn path field conjunction n)
      (c.wrapOn path field conjunction m) := by
  refine Run.agree_bind Run.agree_draw fun i j hij => Run.agree_pure ?_
  exact Node.alike_ruleGroup hij rfl (.cons h .nil)

theorem alike_dissolve (conjunction : String) (h : n.Alike f g m) :
    List.Forall₂ (Node.Alike f g) (dissolve path conjunction n) (dissolve path conjunction m) := by
  cases n with
  | group i p cs =>
    obtain ⟨j, ds, rfl, -⟩ := Node.exists_group_of_alike h
    exact .cons h .nil
  | rule i p =>
    obtain ⟨j, rfl⟩ := Node.exists_rule_of_alike h
    exact .cons h .nil
  | ruleGroup i p cs =>
    obtain ⟨j, ds, rfl, -, -, hcs⟩ := Node.exists_ruleGroup_of_alike h
    unfold dissolve
    simp only
    split
    · exact hcs
    · exact .cons h .nil

theorem alike_flatMap_dissolve (conjunction : String) {ns ms : List (Node Nat)}
    (h : List.Forall₂ (Node.Alike f g) ns ms) :
    List.Forall₂ (Node.Alike f g) (ns.flatMap (dissolve path conjunction))
      (ms.flatMap (dissolve path conjunction)) := by
  induction h with
  | nil => exact .nil
  | cons hnm _ ih =>
    rw [List.flatMap_cons, List.flatMap_cons]
    exact List.rel_append (alike_dissolve conjunction hnm) ih

theorem agree_rehome (h : n.Alike f g m) :
    Run.Agree f g (fun a b => a.toNode.Alike f g b.toNode) (c.rehome path field n) (c.rehome path field m) := by
  cases n with
  | group i p cs =>
    obtain ⟨j, ds, rfl, hij, hcs⟩ := Node.exists_group_of_alike h
    exact Run.agree_pure (Node.alike_ruleGroup hij rfl (alike_flatMap_dissolve p.conjunction hcs))
  | rule i p =>
    obtain ⟨j, rfl⟩ := Node.exists_rule_of_alike h
    exact agree_wrapOn none h
  | ruleGroup i p cs =>
    obtain ⟨j, ds, rfl, -⟩ := Node.exists_ruleGroup_of_alike h
    unfold rehome
    simp only
    split
    · exact Run.agree_pure h
    · exact agree_wrapOn none h

end Having

/-! ## Values -/

/-- The conversions of the parts agree under the names. -/
structure AgreeParts (f g : Nat → κ) (sub sub' : SubRuns) : Prop where
  rule : ∀ e negated parent,
    Run.Agree f g (Option.Rel (Node.Alike f g)) (sub.rule e negated parent) (sub'.rule e negated parent)
  value : ∀ e t parent, Run.Agree f g (Option.Rel Operand.Alike) (sub.value e t parent) (sub'.value e t parent)

variable {sub sub' : SubRuns} {parent : Option String}

theorem alike_of_fieldValue? {e : Json} {o : Operand} (h : c.fieldValue? e parent = some (.ok o)) :
    o.Alike o := by
  unfold fieldValue? at h
  split at h
  · split at h
    · simp only at h
      split at h
      · cases h
        exact ⟨rfl, Operand.same_field _ _⟩
      · cases h
    · cases h
  · cases h

theorem alike_of_literalValue {e : Json} {t : Target} {o : Operand} (h : c.literalValue e t = .ok o) :
    o.Alike o := by
  rcases literal_or_date_of_literalValue h with ⟨v, type, async, rfl⟩ | ⟨i, type, async, rfl⟩
  · exact ⟨rfl, Operand.same_literal v type async⟩
  · exact ⟨rfl, Operand.same_date i type async⟩

theorem agree_givenArg (h : AgreeParts f g sub sub') (a : FuncArg) (given : Option Json) :
    Run.Agree f g (Option.Rel Operand.Alike) (givenArg sub a parent given) (givenArg sub' a parent given) := by
  cases given with
  | none => exact Run.agree_pure .none
  | some v => exact h.value v _ parent

/-- What is not given is the default, which is the same as itself. -/
theorem alike_or_default (a : FuncArg) {o? o?' : Option Operand} (h : Option.Rel Operand.Alike o? o?') :
    Option.Rel Operand.Alike (o?.or (a.default.map fun v => .literal v a.type))
      (o?'.or (a.default.map fun v => .literal v a.type)) := by
  cases h with
  | some ho => exact .some ho
  | none =>
    cases a.default with
    | none => exact .none
    | some v => exact .some ⟨rfl, Operand.same_literal v _ _⟩

/-- The arguments of a call are the declared ones. -/
theorem agree_callArgs (h : AgreeParts f g sub sub') (func : String) (args : Table FuncArg) (given : List Json) :
    Run.Agree f g
      (Option.Rel fun os os' => os = os' ∧ os.map Prod.fst = args.keys ∧ ∀ p ∈ os, p.2.same p.2 = true)
      (callArgs sub func parent args given) (callArgs sub' func parent args given) := by
  induction args generalizing given with
  | nil => exact Run.agree_pure (.some ⟨rfl, rfl, by simp⟩)
  | cons p rest ih =>
    obtain ⟨key, a⟩ := p
    refine Run.agree_bind (agree_givenArg h a given.head?) fun o? o?' ho => ?_
    have hor := alike_or_default a ho
    generalize o?.or (a.default.map fun v => .literal v a.type) = x at hor ⊢
    generalize o?'.or (a.default.map fun v => .literal v a.type) = x' at hor ⊢
    cases hor with
    | none => exact Run.agree_fail _
    | @some o o' hoo =>
      obtain ⟨rfl, hsame⟩ := hoo
      refine Run.agree_andThen (ih given.tail) fun os os' hos => Run.agree_pure (.some ?_)
      obtain ⟨rfl, hkeys, hall⟩ := hos
      refine ⟨rfl, by rw [List.map_cons, hkeys]; rfl, fun q hq => ?_⟩
      rcases List.mem_cons.mp hq with rfl | hq
      · exact hsame
      · exact hall q hq

theorem agree_valueStep (hd : c.schema.DistinctArgs) (h : AgreeParts f g sub sub') (e : Json) (t : Target)
    (parent : Option String) :
    Run.Agree f g (Option.Rel Operand.Alike) (c.valueStep sub e t parent) (c.valueStep sub' e t parent) := by
  unfold valueStep
  split
  · exact h.value _ _ _
  split
  · rename_i field hfield
    refine Run.agree_ofExcept fun o ho => ?_
    rw [ho] at hfield
    exact alike_of_fieldValue? hfield
  split
  · rename_i call hcall
    unfold convertCall
    split
    · exact Run.agree_fail _
    · refine Run.agree_andThen (agree_callArgs h _ _ _) fun os os' hos => Run.agree_pure (.some ?_)
      obtain ⟨rfl, hkeys, hall⟩ := hos
      have hnodup : (os.map Prod.fst).Nodup := by
        rw [hkeys]
        exact hd _ _ (mem_funcs_of_call? hcall)
      exact ⟨rfl, Operand.same_call _ hnodup hall⟩
  · exact Run.agree_ofExcept fun o ho => alike_of_literalValue ho

/-! ## Rules -/

theorem agree_convertConjunction (h : AgreeParts f g sub sub') (conjunction : String) (args : List Json)
    (negated : Bool) :
    Run.Agree f g (Option.Rel (Node.Alike f g)) (c.convertConjunction sub conjunction args negated parent)
      (c.convertConjunction sub' conjunction args negated parent) := by
  refine Run.agree_bind (Run.agree_filterMap (fun a => h.rule a false parent) args) fun ns ms hnm => ?_
  exact Run.agree_bind (agree_reconcile conjunction negated hnm) fun n m hn => Run.agree_pure (.some hn)

theorem agree_convertHaving (h : AgreeParts f g sub sub') (having : Json) (path : String) (field : Field) :
    Run.Agree f g (Option.Rel fun a b => a.toNode.Alike f g b.toNode) (c.convertHaving sub having path field)
      (c.convertHaving sub' having path field) := by
  have hgive : ∀ {n m : Node Nat}, n.Alike f g m →
      Run.Agree f g (Option.Rel fun a b => a.toNode.Alike f g b.toNode)
        ((c.rehome path field n).bind fun g => Run.pure (some g))
        ((c.rehome path field m).bind fun g => Run.pure (some g)) := by
    intro n m hnm
    exact Run.agree_bind (agree_rehome hnm) fun a b hab => Run.agree_pure (.some hab)
  unfold convertHaving
  split
  · refine Run.agree_bind (Run.agree_filterMap (fun a => h.rule a false (some path)) _) fun ns ms hnm => ?_
    exact Run.agree_bind (agree_reconcile _ false hnm) fun n m hn => hgive hn
  · refine Run.agree_andThen (h.rule having false (some path)) fun n m hn => ?_
    exact Run.agree_bind (agree_wrapOn _ hn) fun a b hab => hgive hab

theorem agree_groupBody (h : AgreeParts f g sub sub') (r : ParsedRule) :
    Run.Agree f g (Option.Rel fun a b => a.toNode.Alike f g b.toNode) (c.groupBody sub r) (c.groupBody sub' r) := by
  unfold groupBody
  split
  · exact agree_convertHaving h _ _ _
  · refine Run.agree_bind Run.agree_draw fun i j hij => Run.agree_pure (.some ?_)
    exact Node.alike_ruleGroup hij rfl .nil

theorem agree_ruleNode (h : AgreeParts f g sub sub') (r : ParsedRule) (op : String) (negated : Bool)
    {operands : List Operand} (ho : sameOperands operands operands = true) :
    Run.Agree f g (Option.Rel (Node.Alike f g)) (c.ruleNode sub r op negated operands)
      (c.ruleNode sub' r op negated operands) := by
  unfold ruleNode
  split
  · refine Run.agree_andThen (agree_groupBody h r) fun a b hab => Run.agree_pure (.some ?_)
    obtain ⟨j, ds, he, hij, hargs, hchildren⟩ := Node.exists_ruleGroup_of_alike hab
    cases b with
    | mk id props children =>
      cases he
      refine Node.alike_ruleGroup hij ?_ hchildren
      by_cases hmode : r.field.mode = some .array
      · simpa [hmode] using ho
      · simpa [hmode] using hargs
  · refine Run.agree_bind Run.agree_draw fun i j hij => Run.agree_pure (.some ?_)
    exact Node.alike_rule hij ho

theorem agree_finishRule (h : AgreeParts f g sub sub') (r : ParsedRule) (negated : Bool)
    (parent : Option String) :
    Run.Agree f g (Option.Rel (Node.Alike f g)) (c.finishRule sub r negated parent)
      (c.finishRule sub' r negated parent) := by
  refine Run.agree_andThen (Run.agree_collect (fun a => h.value a _ parent) _) fun os os' hos => ?_
  obtain ⟨rfl, hsame⟩ := Operand.eq_of_forall₂_alike hos
  refine Run.agree_andThen (agree_ruleNode h _ _ _ hsame) fun n m hn => ?_
  split
  · exact Run.agree_bind (agree_wrap true hn) fun t u ht => Run.agree_pure (.some ht)
  · exact Run.agree_pure (.some hn)

theorem agree_ruleStep (h : AgreeParts f g sub sub') (e : Json) (negated : Bool) (parent : Option String) :
    Run.Agree f g (Option.Rel (Node.Alike f g)) (c.ruleStep sub e negated parent)
      (c.ruleStep sub' e negated parent) := by
  unfold ruleStep
  split
  · exact Run.agree_fail _
  split
  · exact h.rule _ _ _
  split
  · exact agree_convertConjunction h _ _ _
  · unfold convertOp
    split
    · exact Run.agree_fail _
    · rw [assembleRule_eq, assembleRule_eq]
      exact agree_finishRule h _ _ _

/-- Conversions agree, and go on to do so when more nesting is allowed. -/
theorem agreeParts (hd : c.schema.DistinctArgs) (f g : Nat → κ) (limit more : Nat) :
    AgreeParts f g ⟨c.ruleN limit, c.valueN limit⟩ ⟨c.ruleN (limit + more), c.valueN (limit + more)⟩ := by
  induction limit with
  | zero => exact ⟨fun _ _ _ => Run.agree_stuck _, fun _ _ _ => Run.agree_stuck _⟩
  | succ limit ih =>
    rw [Nat.succ_add]
    exact ⟨agree_ruleStep ih, agree_valueStep hd ih⟩

/-! ## Imports -/

theorem agree_treeN (hd : c.schema.DistinctArgs) (f g : Nat → κ) (limit : Nat) (e : Json) :
    Run.Agree f g (Option.Rel fun t u => t.root.Alike f g u.root) (c.treeN limit e) (c.treeN limit e) := by
  unfold treeN
  split
  · refine Run.agree_andThen ((agreeParts hd f g limit 0).rule e false none) fun n m hn => ?_
    refine Run.agree_bind (r := fun t u => t.root.Alike f g u.root) ?_ fun t u ht => Run.agree_pure (.some ht)
    cases n with
    | group i p cs =>
      obtain ⟨j, ds, rfl, -⟩ := Node.exists_group_of_alike hn
      exact Run.agree_pure hn
    | rule i p =>
      obtain ⟨j, rfl⟩ := Node.exists_rule_of_alike hn
      exact agree_wrap false hn
    | ruleGroup i p cs =>
      obtain ⟨j, ds, rfl, -⟩ := Node.exists_ruleGroup_of_alike hn
      exact agree_wrap false hn
  · exact Run.agree_pure .none

variable {ι : Type}

/-- An import that draws its numbers from `start` on, each node named by its own number. -/
def importFrom (c : Converter) (ids : Nat → ι) (start : Nat) (e : Json) : Option (Outcome ι) :=
  (c.treeN (c.limit e) e start).map fun d => ⟨d.value.map (Tree.rename ids), d.problems, d.next - start⟩

/-- Numbers that are counted on from `start` and numbers that start there name one tree. -/
theorem importFrom_eq (hd : c.schema.DistinctArgs) (ids : Nat → ι) (start : Nat) (e : Json) :
    c.importFrom ids start e = c.importTree ids start e := by
  have hnames : ∀ i, ids (start + (0 + i)) = ids (start + i) := by
    intro i
    rw [Nat.zero_add]
  have hto := agree_treeN hd (fun n => ids (start + n)) ids (c.limit e) e 0 start hnames
  have hfrom := agree_treeN hd ids (fun n => ids (start + n)) (c.limit e) e start 0 fun i => (hnames i).symm
  have hmap : c.importTree ids start e = (c.treeN (c.limit e) e 0).map fun d =>
      ⟨d.value.map (Tree.rename fun n => ids (start + n)), d.problems, d.next⟩ := by
    rw [importTree, importN, Option.map_map]
    rfl
  rw [importFrom, hmap]
  cases hzero : c.treeN (c.limit e) e 0 with
  | none =>
    cases hstart : c.treeN (c.limit e) e start with
    | none => rfl
    | some d =>
      obtain ⟨d', -, hd', -⟩ := hfrom d hstart
      rw [hzero] at hd'
      cases hd'
  | some d =>
    obtain ⟨d', drawn, hd', htrees, hproblems, hnext, hnext'⟩ := hto d hzero
    have hvalue : d.value.map (Tree.rename fun n => ids (start + n)) = d'.value.map (Tree.rename ids) :=
      map_eq_map_of_rel (fun _ _ => Tree.rename_eq_of_alike) htrees
    have hdrawn : d'.next - start = d.next := by omega
    rw [hd', Option.map_some, Option.map_some, ← hvalue, hproblems, hdrawn]

/-- Whatever number an import starts from, after whatever other imports, and whatever the names
are: it records the same problems, draws as many numbers and makes a tree of the same shape. -/
theorem names_have_no_part (c : Converter) (hd : c.schema.DistinctArgs) (ids : Nat → ι) (ids' : Nat → κ)
    (start start' : Nat) (e : Json) {o : Outcome ι} (ho : c.importFrom ids start e = some o) :
    c.importTree ids start e = some o ∧
      ∃ o', c.importFrom ids' start' e = some o' ∧ c.importTree ids' start' e = some o' ∧
        o'.problems = o.problems ∧ o'.drawn = o.drawn ∧
        Option.Rel (fun t u => t.sameShape u = true) o.tree o'.tree := by
  refine ⟨importFrom_eq hd ids start e ▸ ho, ?_⟩
  obtain ⟨d, hrun, rfl⟩ := Option.map_eq_some_iff.mp ho
  obtain ⟨d', drawn, hrun', htrees, hproblems, hnext, hnext'⟩ :=
    agree_treeN hd (fun _ => ()) (fun _ => ()) (c.limit e) e start start' (fun _ => rfl) d hrun
  have hfrom : c.importFrom ids' start' e =
      some ⟨d'.value.map (Tree.rename ids'), d'.problems, d'.next - start'⟩ := by
    rw [importFrom, hrun', Option.map_some]
  refine ⟨_, hfrom, importFrom_eq hd ids' start' e ▸ hfrom, hproblems, ?_, ?_⟩
  · show d'.next - start' = d.next - start
    omega
  · exact rel_map (fun t u htu => (Node.sameShape_rename ids ids' t.root u.root).trans htu.shape) htrees

/-- The schema of cars with a function of two arguments, the second of which may be left out. -/
def joining : Converter :=
  .ofSchema { Cars.schema with
    funcs := [("join", {
      name := some "join", returnType := "text"
      args := [("left", { type := "text" }), ("right", { type := "text", default := some (.str "!") })] })] } []

theorem joining_distinctArgs : joining.schema.DistinctArgs := by
  intro key func hm
  simp only [joining, ofSchema, List.mem_singleton, Prod.mk.injEq] at hm
  rw [hm.2]
  decide

/-- A clause with a call, one that fails and one about cars: the first time, and late in a session. -/
theorem names_have_no_part_in_a_session :
    let e := Cars.call "and" [Cars.equals "cars.vendor" "vw", Cars.equals "colour" "red",
      Cars.call "==" [Cars.read "color", Cars.call "join" [.str "red"]]]
    joining.schema.DistinctArgs ∧ ∃ o o', joining.importFrom (Ids.sequential "n") 0 e = some o ∧
      o.tree.isSome = true ∧ o.problems.length = 1 ∧ joining.importFrom (fun n => n) 40 e = some o' ∧
      o'.problems = o.problems ∧ o'.drawn = o.drawn ∧
      Option.Rel (fun t u => t.sameShape u = true) o.tree o'.tree := by
  intro e
  have hends : (joining.importFrom (Ids.sequential "n") 0 e).any
      (fun o => o.tree.isSome && o.problems.length == 1) = true := by
    decide +kernel
  obtain ⟨o, ho, hsome⟩ := (Option.any_eq_true _ _).mp hends
  obtain ⟨htree, hone⟩ := (Bool.and_eq_true _ _).mp hsome
  obtain ⟨-, o', ho', -, halike⟩ :=
    names_have_no_part joining joining_distinctArgs (Ids.sequential "n") (fun n => n) 0 40 e ho
  exact ⟨joining_distinctArgs, o, o', ho, htree, by simpa using hone, ho', halike⟩

end Converter
end RuleTree
