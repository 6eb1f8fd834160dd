/-
  RuleTree.Proofs.Housing — the rule groups a rule of a conjunction comes to stand in.

  `Node.housing` names the collections of the rule groups on the way down to an address, from
  the outside in. A rule is moved by its path alone, among the collections its conjunction
  uses: those a child lies in directly (`Converter.Uses`).
  - `homeOf?_eq_some_iff`: a rule belongs to the longest of them it lies in.
  - `getLast?_chain`: the chain of a rule ends at the used collection it belongs to, unless the
    conjunction itself stands for that one.
  - `getLast?_housing`: so the innermost rule group that holds the rule is on that collection.
  - `pathed`: paths of converted nodes spell names, and no rule is on a collection, whatever
    the parent they are converted under.

  Proved of conversions: `rules_housed`. A collection that no child lies in directly is not
  used, so a rule on a struct in a collection finds its rule group only beside another rule:
  `struct_in_a_collection_is_not_housed`.
-/

import RuleTree.Proofs.Addresses
import RuleTree.Proofs.Rooting

namespace RuleTree

open Path

/-! ## Rule groups on the way to a node -/

namespace Node

variable {ι : Type}

/-- The collection of a rule group. -/
def home? : Node ι → Option String
  | ruleGroup _ p _ => some p.field
  | _ => none

/-- The collections of the rule groups that hold the node at an address, from the outside in. -/
def housing : Node ι → List Nat → List String
  | _, [] => []
  | n, k :: rest =>
    match n.children[k]? with
    | some m => n.home?.toList ++ m.housing rest
    | none => []

end Node

namespace Item

variable {conjunction : String} {modeOf : String → Option GroupMode} {m : Node Nat}

theorem mem_entriesAll {home : Option String} {e : Option String × Entry} {items : List Item} :
    e ∈ entriesAll home items ↔ ∃ x ∈ items, e ∈ x.entries home := by
  induction items with
  | nil => simp [entriesAll]
  | cons x rest ih => simp [entriesAll, ih]

/-- A child stands in the innermost of the rule groups on the way to it. -/
theorem mem_entries_of_entryAt? (home : Option String) {a : List Nat} {x : Item}
    (h : x.entryAt? a = some (.child m)) :
    ((home.toList ++ (x.toNode conjunction modeOf).housing a).getLast?, Entry.child m) ∈ x.entries home := by
  induction a generalizing x home with
  | nil =>
    cases x with
    | child n =>
      cases h
      cases home <;> simp [Node.housing, entries]
    | made id p items => simp [entryAt?, entry] at h
  | cons k rest ih =>
    obtain ⟨y, hy, hm⟩ := Option.bind_eq_some_iff.mp h
    cases x with
    | child n => simp [inner] at hy
    | made id p items =>
      have hinside := ih (some p) hm
      have hhousing : (toNode conjunction modeOf (.made id p items)).housing (k :: rest) =
          p :: (y.toNode conjunction modeOf).housing rest := by
        rw [inner] at hy
        simp [toNode, Node.housing, Node.children, Node.home?, getElem?_toNodes, hy]
      have hlast : (home.toList ++ p :: (y.toNode conjunction modeOf).housing rest).getLast? =
          (p :: (y.toNode conjunction modeOf).housing rest).getLast? :=
        List.getLast?_append_of_ne_nil _ (by simp)
      rw [hhousing, hlast, entries]
      exact List.mem_cons_of_mem _ (mem_entriesAll.mpr ⟨y, List.mem_of_getElem? hy, hinside⟩)

/-- Among the children of a node, a child stands in the innermost of the rule groups that hold
it, but for the node itself. -/
theorem exists_mem_entriesAll {items : List Item} {n : Node Nat} {a : List Nat}
    (hcs : n.children = toNodes conjunction modeOf items) (h : entryAmong? items a = some (.child m)) :
    ∃ homes, n.housing a = n.home?.toList ++ homes ∧ (homes.getLast?, Entry.child m) ∈ entriesAll none items := by
  cases a with
  | nil => cases h
  | cons k rest =>
    obtain ⟨y, hy, hm⟩ := Option.bind_eq_some_iff.mp h
    refine ⟨(y.toNode conjunction modeOf).housing rest, ?_, ?_⟩
    · simp [Node.housing, hcs, getElem?_toNodes, hy]
    · exact mem_entriesAll.mpr ⟨y, List.mem_of_getElem? hy, mem_entries_of_entryAt? none hm⟩

end Item

namespace Converter

variable {c : Converter} {s : Char} {children : List (Node Nat)}

/-! ## The collections in use -/

/-- The path leads to a collection. -/
def IsCollection (c : Converter) (g : String) : Prop := (c.fields.resolve g).any Field.isGroup = true

/-- Some child lies directly in the collection. -/
def Uses (c : Converter) (children : List (Node Nat)) (g : String) : Prop :=
  c.IsCollection g ∧ ∃ m ∈ children, ∃ q, m.field? = some q ∧ parent? c.separator q = some g

theorem collection?_eq_some_iff {n : Node Nat} {g : String} :
    c.collection? n = some g ↔ c.IsCollection g ∧ ∃ q, n.field? = some q ∧ parent? c.separator q = some g := by
  rw [← Option.bind_eq_some_iff]
  unfold collection? IsCollection
  cases n.field?.bind (parent? c.separator) with
  | none => simp
  | some p =>
    simp only [Option.some.injEq]
    split
    · rename_i hp
      constructor
      · intro h
        cases h
        exact ⟨hp, rfl⟩
      · intro h
        rw [h.2]
    · rename_i hp
      constructor
      · intro h
        cases h
      · intro h
        exact absurd (h.2 ▸ h.1) hp

theorem mem_usedGroups_iff {g : String} : g ∈ c.usedGroups children ↔ c.Uses children g := by
  rw [mem_usedGroups, Uses]
  simp only [collection?_eq_some_iff]
  constructor
  · rintro ⟨m, hm, hg, hq⟩
    exact ⟨hg, m, hm, hq⟩
  · rintro ⟨hg, m, hm, hq⟩
    exact ⟨m, hm, hg, hq⟩

theorem longest?_eq_none {ps : List String} (h : longest? ps = none) : ps = [] := by
  cases ps with
  | nil => rfl
  | cons p rest =>
    unfold longest? at h
    split at h
    · split at h <;> cases h
    · cases h

theorem size_le_of_longest? {ps : List String} {p : String} (h : longest? ps = some p) :
    ∀ q ∈ ps, q.utf8ByteSize ≤ p.utf8ByteSize := by
  induction ps generalizing p with
  | nil => cases h
  | cons r rest ih =>
    unfold longest? at h
    split at h
    · rename_i t ht
      have hrest := ih ht
      split at h
      · rename_i hle
        cases h
        simpa using ⟨hle, hrest⟩
      · rename_i hlt
        cases h
        refine List.forall_mem_cons.mpr ⟨Nat.le_refl _, fun q hq => ?_⟩
        have hq := hrest q hq
        omega
    · rename_i hnone
      cases h
      rw [longest?_eq_none hnone]
      simp

/-- Of two paths one under the other, the one that is not longer is the one above. -/
theorem eq_of_under_of_size_le {p q : String} (h : Under s p q) (hsize : p.utf8ByteSize ≤ q.utf8ByteSize) :
    p = q := by
  by_contra hne
  have hlt := size_lt_of_isUnder h hne
  omega

section HomeOf

variable {used : List String} {id : Nat} {p : RuleProps} {home : String}

/-- A rule belongs to no collection when it lies in none of those in use. -/
theorem homeOf?_eq_none_iff (hs : c.schema.settings.separator = String.singleton s) :
    c.homeOf? used (.rule id p) = none ↔ ∀ g ∈ used, ¬ Under s p.field g := by
  have hnil : c.homeOf? used (.rule id p) = none ↔ used.filter (fun g => isUnder c.separator p.field g) = [] := by
    constructor
    · exact longest?_eq_none
    · intro h
      rw [homeOf?, h]
      rfl
  rw [hnil, List.filter_eq_nil_iff, separator, hs]
  rfl

theorem under_of_homeOf? (hs : c.schema.settings.separator = String.singleton s)
    (h : c.homeOf? used (.rule id p) = some home) {g : String} (hg : g ∈ used) (hu : Under s p.field g) :
    Under s home g := by
  have hmem : ∀ {q}, q ∈ used.filter (fun g => isUnder c.separator p.field g) ↔ q ∈ used ∧ Under s p.field q := by
    intro q
    rw [List.mem_filter, separator, hs]
    rfl
  have hunder : Under s p.field home := (hmem.mp (mem_of_longest? h)).2
  have hsize := size_le_of_longest? h g (hmem.mpr ⟨hg, hu⟩)
  rcases under_or_under hunder hu with hle | hle
  · exact hle
  · rw [eq_of_under_of_size_le hle hsize]
    exact under_refl s home

/-- Otherwise it belongs to the longest of them. -/
theorem homeOf?_eq_some_iff (hp : c.PlainFields s) :
    c.homeOf? used (.rule id p) = some home ↔
      home ∈ used ∧ Under s p.field home ∧ ∀ g ∈ used, Under s p.field g → Under s home g := by
  have hs := hp.paths.separator
  constructor
  · intro h
    obtain ⟨id', p', he, hused, hunder⟩ := homeOf?_spec hp h
    cases he
    exact ⟨hused, hunder, fun g hg hu => under_of_homeOf? hs h hg hu⟩
  · rintro ⟨hused, hunder, hlongest⟩
    cases hhome : c.homeOf? used (.rule id p) with
    | none => exact absurd hunder ((homeOf?_eq_none_iff hs).mp hhome home hused)
    | some home' =>
      obtain ⟨id', p', he, hused', hunder'⟩ := homeOf?_spec hp hhome
      cases he
      rw [under_antisymm (hlongest home' hused' hunder') (under_of_homeOf? hs hhome hused hunder)]

end HomeOf

/-! ## The end of a chain -/

/-- The last of paths that lie ever deeper is the deepest. -/
theorem getLast?_of_pairwise {ps : List String} {home : String} (hpair : ps.Pairwise fun a b => Under s b a)
    (hmem : home ∈ ps) (hall : ∀ q ∈ ps, Under s home q) : ps.getLast? = some home := by
  rcases List.eq_nil_or_concat ps with rfl | ⟨before, last, rfl⟩
  · cases hmem
  · rw [List.concat_eq_append] at *
    rw [List.getLast?_concat]
    have hlast : Under s home last := hall last (by simp)
    rcases List.mem_append.mp hmem with hbefore | hend
    · have hunder : Under s last home := (List.pairwise_append.mp hpair).2.2 home hbefore last (by simp)
      rw [under_antisymm hlast hunder]
    · rw [List.mem_singleton.mp hend]

theorem mem_pathsTo (hp : c.PlainFields s) {home : String} {xs : List (List Char)} (hx : Spells s xs home) :
    home ∈ c.pathsTo home := by
  rw [pathsTo_eq hp.fields hp.paths.separator hx]
  exact mem_ancestors hx hx List.prefix_rfl

/-- A chain goes down to the collection, unless the root is at or below it. -/
theorem getLast?_chain (hp : c.PlainFields s) {home : String} {xs : List (List Char)} (hx : Spells s xs home)
    {root : Option String} (habove : c.isAbove root home = false) :
    (c.chain root home).getLast? = some home := by
  obtain ⟨hall, hpair⟩ := pathsTo_spec hp hx
  refine getLast?_of_pairwise (hpair.filter _) ?_ fun q hq => (hall q (List.mem_filter.mp hq).1).2
  exact List.mem_filter.mpr ⟨mem_pathsTo hp hx, by rw [habove]; rfl⟩

/-- There is no chain to the root. -/
theorem chain_root (hp : c.PlainFields s) {home : String} {xs : List (List Char)} (hx : Spells s xs home) :
    c.chain (some home) home = [] := by
  obtain ⟨hall, -⟩ := pathsTo_spec hp hx
  refine List.filter_eq_nil_iff.mpr fun q hq => ?_
  have habove : c.isAbove (some home) q = true := by
    rw [isAbove, separator, hp.paths.separator]
    exact (hall q hq).2
  simp [habove]

/-! ## The node of a conjunction -/

/-- What the paths of a node are like once it is converted. -/
structure Pathed (c : Converter) (s : Char) (n : Node Nat) : Prop where
  spells : ∀ p ∈ n.field?, ∃ xs, Spells s xs p
  plain : ∀ id p, n = .rule id p → ¬ c.IsCollection p.field

section Reconcile

theorem children_reconcileFrom (key : String) (negated : Bool) (children : List (Node Nat)) (next : Nat) :
    (c.reconcileFrom key negated children next).1.children =
      Item.toNodes key c.modeOf (c.placedItems children (next + 1)) := by
  unfold reconcileFrom
  simp only
  split
  · split <;> rfl
  · rfl

variable {key : String} {negated : Bool} {next : Nat}

/-- The node of a conjunction stands for a collection when there is a root and a rule belongs
to some collection. -/
theorem home?_reconcileFrom (hp : c.PlainFields s) (hch : ∀ m ∈ children, c.Pathed s m) {m : Node Nat}
    (hm : m ∈ children) {home : String} (hhome : c.homeOf? (c.usedGroups children) m = some home)
    (habove : c.isAbove (c.singleRoot? children) home = true) :
    c.singleRoot? children = some home ∧ (c.reconcileFrom key negated children next).1.home? = some home := by
  obtain ⟨id, p, rfl, hused, -⟩ := homeOf?_spec hp hhome
  have hspells := fun n hn => (hch n hn).spells
  obtain ⟨xs, hx⟩ := spells_of_mem_usedGroups hp hspells home hused
  cases hroot : c.singleRoot? children with
  | none =>
    rw [hroot] at habove
    cases habove
  | some r =>
    rw [hroot] at habove
    have habove : Under s r home := by
      rw [isAbove, separator, hp.paths.separator] at habove
      exact habove
    have hr : r = home := under_antisymm habove ((singleRoot?_spec hp hspells hroot).2.1 home hused)
    subst hr
    have hmeets : c.meetsRoot (c.usedGroups children) (some r) children = true := by
      refine List.any_eq_true.mpr ⟨_, hm, ?_⟩
      simp only [hhome]
      refine List.any_eq_true.mpr ⟨r, mem_pathsTo hp hx, ?_⟩
      rw [isAbove, separator, hp.paths.separator]
      exact under_refl s r
    refine ⟨rfl, ?_⟩
    unfold reconcileFrom
    simp only [hroot, hmeets, if_true]
    rfl

/-- Where a rule belongs to no collection the node of the conjunction is a plain group. -/
theorem home?_eq_none (hp : c.PlainFields s) (hch : ∀ m ∈ children, c.Pathed s m) {id : Nat} {p : RuleProps}
    (hm : .rule id p ∈ children) (hhome : c.homeOf? (c.usedGroups children) (.rule id p) = none) :
    (c.reconcileFrom key negated children next).1.home? = none := by
  have hroot : c.singleRoot? children = none := by
    cases hroot : c.singleRoot? children with
    | none => rfl
    | some r =>
      -- the rule would lie in a collection of its own
      obtain ⟨g, hg⟩ := (outermost_of_singleRoot? hroot).2 _ hm
      obtain ⟨q, xs, hq, hu, -⟩ := collection_spec hp (hch _ hm).spells hg
      cases hq
      exact absurd hu ((homeOf?_eq_none_iff hp.paths.separator).mp hhome g (mem_usedGroups.mpr ⟨_, hm, hg⟩))
  unfold reconcileFrom
  simp only [hroot]
  rfl

/-- The innermost rule group that holds a rule is on the collection it belongs to. -/
theorem getLast?_housing (hp : c.PlainFields s) (hch : ∀ m ∈ children, c.Pathed s m) {id : Nat} {p : RuleProps}
    (hm : .rule id p ∈ children) {a : List Nat}
    (ha : Item.entryAmong? (c.placedItems children (next + 1)) a = some (.child (.rule id p))) :
    ((c.reconcileFrom key negated children next).1.housing a).getLast? =
      c.homeOf? (c.usedGroups children) (.rule id p) := by
  have hplaced := placed_foldl c (c.usedGroups children) (c.singleRoot? children) children (next + 1)
  have hchildren := children_reconcileFrom (c := c) key negated children next
  obtain ⟨homes, hhousing, hentry⟩ := Item.exists_mem_entriesAll hchildren ha
  have hlast : homes.getLast? = (c.chainOf (c.usedGroups children) (c.singleRoot? children) (.rule id p)).getLast? :=
    hplaced.child_home hentry
  have hown : (c.reconcileFrom key negated children next).1.home?.toList.getLast? =
      (c.reconcileFrom key negated children next).1.home? := by
    cases (c.reconcileFrom key negated children next).1.home? <;> rfl
  rw [hhousing, List.getLast?_append, hlast, hown, chainOf]
  cases hhome : c.homeOf? (c.usedGroups children) (.rule id p) with
  | none => exact home?_eq_none hp hch hm hhome
  | some home =>
    obtain ⟨-, -, -, hused, -⟩ := homeOf?_spec hp hhome
    obtain ⟨xs, hx⟩ := spells_of_mem_usedGroups hp (fun n hn => (hch n hn).spells) home hused
    simp only
    by_cases habove : c.isAbove (c.singleRoot? children) home = true
    · have hplace : c.singleRoot? children = some home ∧
          (c.reconcileFrom key negated children next).1.home? = some home :=
        home?_reconcileFrom hp hch hm hhome habove
      rw [hplace.1, chain_root hp hx, hplace.2]
      rfl
    · rw [getLast?_chain hp hx (Bool.eq_false_iff.mpr habove)]
      rfl

/-- A rule of a conjunction with the collections of the rule groups that hold it. -/
structure Housed (c : Converter) (children : List (Node Nat)) (p : String) (homes : List String) : Prop where
  /-- The rule is on no collection itself, so those it lies in are above it. -/
  plain : ¬ c.IsCollection p
  /-- The innermost one is the longest used collection it lies in. -/
  innermost : ∀ home, homes.getLast? = some home ↔
    c.Uses children home ∧ isUnder c.separator p home = true ∧
      ∀ g, c.Uses children g → isUnder c.separator p g = true → isUnder c.separator home g = true
  outside : homes = [] ↔ ∀ g, c.Uses children g → isUnder c.separator p g = false
  /-- Directly in a collection it is in the collection's rule group, whatever is beside it. -/
  direct : ∀ g, parent? c.separator p = some g → c.IsCollection g → homes.getLast? = some g
  /-- In no collection at all it is in no rule group, whatever is beside it. -/
  apart : (∀ g, g ≠ p → isUnder c.separator p g = true → ¬ c.IsCollection g) → homes = []

/-- The longest used collection a rule lies in is the one it lies in directly, if it is used. -/
theorem homeOf?_of_parent (hp : c.PlainFields s) (hch : ∀ m ∈ children, c.Pathed s m) {id : Nat} {p : RuleProps}
    (hm : .rule id p ∈ children) {g : String} (hparent : parent? c.separator p.field = some g)
    (hg : c.IsCollection g) : c.homeOf? (c.usedGroups children) (.rule id p) = some g := by
  have hused : g ∈ c.usedGroups children := mem_usedGroups_iff.mpr ⟨hg, _, hm, p.field, rfl, hparent⟩
  rw [separator, hp.paths.separator] at hparent
  have hunder : Under s p.field g := under_of_parent? hparent
  refine (homeOf?_eq_some_iff hp).mpr ⟨hused, hunder, fun home hhome hin => ?_⟩
  obtain ⟨xs, hx⟩ := (hch _ hm).spells p.field rfl
  obtain ⟨ys, x, rfl, hy⟩ := parent?_spells hx hparent
  obtain ⟨zs, hz⟩ := spells_of_mem_usedGroups hp (fun n hn => (hch n hn).spells) home hhome
  -- the names of a collection are the first ones of the rule's, and not all of them
  rcases List.prefix_concat_iff.mp ((under_iff_names hx hz).mp hin) with rfl | hpre
  · have hsame : home = p.field := hz.path_eq hx
    exact absurd (hsame ▸ (mem_usedGroups_iff.mp hhome).1) ((hch _ hm).plain id p rfl)
  · exact (under_iff_names hy hz).mpr hpre

theorem housed_of_getLast? (hp : c.PlainFields s) (hch : ∀ m ∈ children, c.Pathed s m) {id : Nat} {p : RuleProps}
    (hm : .rule id p ∈ children) {homes : List String}
    (h : homes.getLast? = c.homeOf? (c.usedGroups children) (.rule id p)) : c.Housed children p.field homes := by
  have hplain := (hch _ hm).plain id p rfl
  have hunder : ∀ q g, isUnder c.separator q g = true ↔ Under s q g := by
    intro q g
    rw [separator, hp.paths.separator]
    rfl
  have hnil : homes = [] ↔ ∀ g ∈ c.usedGroups children, ¬ Under s p.field g := by
    rw [← List.getLast?_eq_none_iff, h, homeOf?_eq_none_iff hp.paths.separator]
  refine ⟨hplain, fun home => ?_, ?_, fun g hparent hg => ?_, fun hout => ?_⟩
  · simp only [hunder, ← mem_usedGroups_iff]
    rw [h, homeOf?_eq_some_iff hp]
  · rw [hnil]
    simp only [← mem_usedGroups_iff, ← hunder, Bool.not_eq_true]
  · rw [h]
    exact homeOf?_of_parent hp hch hm hparent hg
  · rw [hnil]
    intro g hg hin
    have hcol := (mem_usedGroups_iff.mp hg).1
    by_cases he : g = p.field
    · exact hplain (he ▸ hcol)
    · exact hout g he ((hunder _ _).mpr hin) hcol

end Reconcile

/-! ## Conversions -/

/-- The conversions of the parts give nodes with such paths. -/
def ConvertsPathed (c : Converter) (s : Char) (sub : SubRuns) : Prop :=
  ∀ e negated parent, Run.Always (∀ n ∈ ·, c.Pathed s n) (sub.rule e negated parent)

variable {sub : SubRuns} {parent : Option String}

theorem pathed_group (id : Nat) (p : GroupProps) (cs : List (Node Nat)) : c.Pathed s (.group id p cs) :=
  ⟨nofun, nofun⟩

theorem pathed_ruleGroup {id : Nat} {p : RuleGroupProps} {cs : List (Node Nat)} (h : ∃ xs, Spells s xs p.field) :
    c.Pathed s (.ruleGroup id p cs) := by
  refine ⟨fun q hq => ?_, nofun⟩
  cases hq
  exact h

theorem pathed_reconcileFrom (hp : c.PlainFields s) (hch : ∀ m ∈ children, c.Pathed s m) (key : String)
    (negated : Bool) (next : Nat) : c.Pathed s (c.reconcileFrom key negated children next).1 := by
  unfold reconcileFrom
  simp only
  split
  · rename_i r hroot
    split
    · exact pathed_ruleGroup (spells_of_mem_usedGroups hp (fun n hn => (hch n hn).spells) r (mem_of_singleRoot? hroot))
    · exact pathed_group _ _ _
  · exact pathed_group _ _ _

theorem pathed_convertConjunction (hp : c.PlainFields s) (h : c.ConvertsPathed s sub) (key : String)
    (args : List Json) (negated : Bool) :
    Run.Always (∀ n ∈ ·, c.Pathed s n) (c.convertConjunction sub key args negated parent) := by
  refine Run.always_bind (Run.always_filterMap fun a _ => h a false parent) fun children hch => ?_
  refine Run.always_bind (P := c.Pathed s) (Run.always_drawing fun n => pathed_reconcileFrom hp hch key negated n) ?_
  exact fun n hn => Run.always_pure (by simpa using hn)

theorem pathed_ruleNode {r : ParsedRule} (hres : c.fields.resolve r.path = some r.field)
    (hpath : ∃ xs, Spells s xs r.path) (op : String) (negated : Bool) (operands : List Operand) :
    Run.Always (∀ n ∈ ·, c.Pathed s n) (c.ruleNode sub r op negated operands) := by
  unfold ruleNode
  split
  · refine Run.always_andThen (P := fun _ => True) (fun _ _ _ _ _ => trivial) (by simp) fun g _ => Run.always_pure ?_
    rintro n hn
    cases hn
    exact pathed_ruleGroup hpath
  · rename_i hgroup
    refine Run.always_bind Run.always_draw fun id _ => Run.always_pure ?_
    rintro n hn
    cases hn
    refine ⟨fun q hq => ?_, fun id' p he => ?_⟩
    · cases hq
      exact hpath
    · cases he
      intro hcol
      rw [IsCollection, hres] at hcol
      exact hgroup hcol

theorem pathed_finishRule {r : ParsedRule} (hres : c.fields.resolve r.path = some r.field)
    (hpath : ∃ xs, Spells s xs r.path) (negated : Bool) :
    Run.Always (∀ n ∈ ·, c.Pathed s n) (c.finishRule sub r negated parent) := by
  refine Run.always_andThen (P := fun _ => True) (fun _ _ _ _ _ => trivial) (by simp) fun operands _ => ?_
  refine Run.always_andThen (pathed_ruleNode hres hpath _ _ _) (by simp) fun n hn => ?_
  split
  · refine Run.always_bind (P := fun _ => True) (fun _ _ _ => trivial) fun t _ => Run.always_pure ?_
    rintro n hn
    cases hn
    exact pathed_group _ _ _
  · exact Run.always_pure (by simpa using hn)

theorem pathed_ruleStep (hp : c.PlainFields s) (h : c.ConvertsPathed s sub) (e : Json) (negated : Bool)
    (parent : Option String) : Run.Always (∀ n ∈ ·, c.Pathed s n) (c.ruleStep sub e negated parent) := by
  unfold ruleStep
  split
  · exact Run.always_fail (by simp)
  split
  · exact h _ _ _
  split
  · exact pathed_convertConjunction hp h _ _ _
  · unfold convertOp
    split
    · exact Run.always_fail (by simp)
    · rename_i r hr
      have hres := resolve_of_parseRule hr
      have hpath := spells_path hp hr
      rw [assembleRule_eq, foldHaving_eq]
      refine pathed_finishRule ?_ ?_ _
      · exact hres
      · exact hpath

/-- Paths of converted nodes spell names, and rules are on no collections. -/
theorem pathed (hp : c.PlainFields s) (limit : Nat) : c.ConvertsPathed s ⟨c.ruleN limit, c.valueN limit⟩ := by
  induction limit with
  | zero => exact fun _ _ _ => Run.always_stuck
  | succ limit ih => exact pathed_ruleStep hp ih

/-- In the node of a conjunction each rule among the children is held by the rule group of the
longest collection it lies in among those in use, and by none where there is no such one. -/
theorem rules_housed (c : Converter) (hp : c.PlainFields s) {limit start : Nat} {key : String} {args : List Json}
    {negated : Bool} {d : Done (Option (Node Nat))}
    (h : c.convertConjunction ⟨c.ruleN limit, c.valueN limit⟩ key args negated parent start = some d) :
    ∃ n children next places, d.value = some n ∧
      Run.filterMap (fun a => c.ruleN limit a false parent) args start = some ⟨children, next, d.problems⟩ ∧
      Gathers key negated children n places ∧
      List.Forall₂ (fun m a => ∀ id p, m = .rule id p → c.Housed children p.field (n.housing a)) children places := by
  obtain ⟨⟨children, next, problems⟩, hchildren, rfl⟩ := convertConjunction_eq_some.mp h
  have hch : ∀ m ∈ children, c.Pathed s m :=
    Run.always_filterMap (fun a _ => pathed hp limit a false parent) start _ hchildren
  obtain ⟨places, hfiled⟩ : ∃ places, Filed children (c.placedItems children (next + 1)) places :=
    filed_foldl c (c.usedGroups children) (c.singleRoot? children) (next + 1)
  refine ⟨_, children, next, places, rfl, hchildren, gathers_reconcileFrom c key negated hfiled, ?_⟩
  refine (List.forall₂_iff_zip.mpr ⟨hfiled.child_at.length_eq, fun {m a} hma => ?_⟩)
  rintro id p rfl
  have hm : .rule id p ∈ children := (List.of_mem_zip hma).1
  have ha := (List.forall₂_iff_zip.mp hfiled.child_at).2 hma
  exact housed_of_getLast? hp hch hm (getLast?_housing hp hch hm ha.1)

/-! ## A struct in a collection -/

/-- Cars with a vendor and an engine, which has a power of its own. -/
def garage : Converter :=
  .ofSchema { Cars.schema with
    fields := [
      ("color", { type := "text" }),
      ("cars", { Cars.cars with subfields := [
        ("vendor", { type := "text" }),
        ("engine", { type := "!struct", subfields := [("power", { type := "text" })] })] })] } []

theorem garage_plainFields : garage.PlainFields '.' := by
  refine ⟨rfl, rfl, fun name hname => ?_⟩
  simp only [garage, ofSchema, Table.keys, List.map_cons, List.map_nil, List.mem_cons, List.not_mem_nil,
    or_false] at hname
  rcases hname with rfl | rfl <;> exact ⟨by decide, by decide, by decide⟩

/-- A red thing and cars of a vendor: the vendor is in the rule group on cars, the colour in none. -/
theorem vendor_housed :
    ∃ d n children next places,
      garage.convertConjunction ⟨garage.ruleN 10, garage.valueN 10⟩ "AND"
          [Cars.equals "color" "red", Cars.equals "cars.engine.power" "9", Cars.equals "cars.vendor" "vw"]
          false none 0 = some d ∧
        d.value = some n ∧
        Run.filterMap (fun a => garage.ruleN 10 a false none)
          [Cars.equals "color" "red", Cars.equals "cars.engine.power" "9", Cars.equals "cars.vendor" "vw"] 0 =
            some ⟨children, next, d.problems⟩ ∧
        Gathers "AND" false children n places ∧
        List.Forall₂ (fun m a => ∀ id p, m = .rule id p → garage.Housed children p.field (n.housing a))
          children places := by
  have hends : (garage.convertConjunction ⟨garage.ruleN 10, garage.valueN 10⟩ "AND"
      [Cars.equals "color" "red", Cars.equals "cars.engine.power" "9", Cars.equals "cars.vendor" "vw"]
      false none 0).isSome = true := by
    decide +kernel
  obtain ⟨d, hd⟩ := Option.isSome_iff_exists.mp hends
  obtain ⟨n, children, next, places, hrest⟩ := rules_housed garage garage_plainFields hd
  exact ⟨d, n, children, next, places, hd, hrest⟩

/-- A rule on a field stands at an address of a converted expression, in rule groups on these
collections. -/
def StandsIn (c : Converter) (e : Json) (a : List Nat) (p : String) (homes : List String) : Prop :=
  ∃ limit d n id props, c.ruleN limit e false none 0 = some d ∧ d.value = some n ∧
    n.at? a = some (.rule id props) ∧ props.field = p ∧ n.housing a = homes

theorem standsIn_of_any {e : Json} {a : List Nat} {p : String} {homes : List String} (limit : Nat)
    (h : (c.ruleN limit e false none 0).any (fun d => d.value.any fun n =>
      (n.at? a).any (fun m => m.kind == .rule && m.field? == some p) && n.housing a == homes) = true) :
    c.StandsIn e a p homes := by
  obtain ⟨d, hd, h⟩ := (Option.any_eq_true _ _).mp h
  obtain ⟨n, hn, h⟩ := (Option.any_eq_true _ _).mp h
  obtain ⟨hat, hhomes⟩ := (Bool.and_eq_true _ _).mp h
  obtain ⟨m, hm, hrule⟩ := (Option.any_eq_true _ _).mp hat
  obtain ⟨hkind, hfield⟩ := (Bool.and_eq_true _ _).mp hrule
  cases m with
  | rule id props =>
    have hpath : props.field = p := by simpa [Node.field?] using hfield
    exact ⟨limit, d, n, id, props, hd, hn, hm, hpath, by simpa using hhomes⟩
  | group => cases hkind
  | ruleGroup => cases hkind

/-- The power of a car's engine lies in the collection of cars, but in no rule group beside a
colour; beside the vendor of a car it is in the rule group on cars. -/
theorem struct_in_a_collection_is_not_housed :
    garage.PlainFields '.' ∧ garage.IsCollection "cars" ∧ isUnder garage.separator "cars.engine.power" "cars" = true ∧
      garage.StandsIn (Cars.call "and" [Cars.equals "color" "red", Cars.equals "cars.engine.power" "9"]) [1]
        "cars.engine.power" [] ∧
      garage.StandsIn (Cars.call "and" [Cars.equals "color" "red", Cars.equals "cars.engine.power" "9",
        Cars.equals "cars.vendor" "vw"]) [1, 0] "cars.engine.power" ["cars"] := by
  refine ⟨garage_plainFields, ?_, by decide +kernel, ?_, ?_⟩
  · show (garage.fields.resolve "cars").any Field.isGroup = true
    decide +kernel
  · exact standsIn_of_any 10 (by decide +kernel)
  · exact standsIn_of_any 10 (by decide +kernel)

end Converter
end RuleTree
