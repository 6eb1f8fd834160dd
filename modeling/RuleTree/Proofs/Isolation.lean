/-
  RuleTree.Proofs.Isolation — an operand that fails does not touch the others.

  The arguments of a conjunction are converted one after the other, from the number the one
  before stopped at. Conversions go the same way from any number (`Run.Agree` under names that
  tell nothing apart), so each argument ends as it does when it is converted alone:
  - `filterMap_alone`: the problems of a list of runs are those of each run alone, in order.
  - `filterMap_filter`: leaving out what gives nothing leaves the values.
  - `Converts`: what a conversion ends with, once it may nest deep enough; more nesting makes
    no difference (`converts_alike`).

  Proved of conjunctions: `failing_operands_isolated`. A conjunction of the name `!` is none to
  the converter, which reads a negation of the first argument and looks at no other:
  `failing_operand_of_negation_stands_for_all`.
-/

import RuleTree.Proofs.Renaming

namespace RuleTree

namespace Run

variable {α γ : Type} {r : α → α → Prop}

/-- Names that tell no two numbers apart. -/
def nameless : Nat → Unit := fun _ => ()

/-- A run that agrees with itself ends wherever it starts, as it does elsewhere. -/
theorem ends_anywhere {x : Run α} (hx : Agree nameless nameless r x x) {n : Nat} {d : Done α}
    (h : x n = some d) (n' : Nat) :
    ∃ d', x n' = some d' ∧ r d.value d'.value ∧ d'.problems = d.problems := by
  obtain ⟨d', -, hd', hr, hp, -⟩ := hx n n' (fun _ => rfl) d h
  exact ⟨d', hd', hr, hp⟩

variable {F : γ → Run (Option α)}

theorem filterMap_cons_eq_some {a : γ} {as : List γ} {n : Nat} {d : Done (List α)} :
    filterMap F (a :: as) n = some d ↔ ∃ o os, F a n = some o ∧ filterMap F as o.next = some os ∧
      d = ⟨o.value.toList ++ os.value, os.next, o.problems ++ os.problems⟩ := by
  rw [filterMap, bind_eq_some]
  constructor
  · rintro ⟨o, e, ho, he, rfl⟩
    obtain ⟨os, e', hos, he', rfl⟩ := bind_eq_some.mp he
    cases he'
    exact ⟨o, os, ho, hos, by simp⟩
  · rintro ⟨o, os, ho, hos, rfl⟩
    refine ⟨o, ⟨o.value.toList ++ os.value, os.next, os.problems⟩, ho, ?_, rfl⟩
    exact bind_eq_some.mpr ⟨os, _, hos, rfl, by simp⟩

/-- The problems of runs one after the other are those of each alone, in order. -/
theorem filterMap_alone (hF : ∀ a, Agree nameless nameless (Option.Rel r) (F a) (F a)) {as : List γ} {n : Nat}
    {d : Done (List α)} (h : filterMap F as n = some d) :
    ∃ ends, List.Forall₂ (fun a o => F a 0 = some o) as ends ∧ d.problems = ends.flatMap Done.problems := by
  induction as generalizing n d with
  | nil =>
    cases h
    exact ⟨[], .nil, rfl⟩
  | cons a rest ih =>
    obtain ⟨o, os, ho, hos, rfl⟩ := filterMap_cons_eq_some.mp h
    obtain ⟨o', ho', -, hproblems⟩ := ends_anywhere (hF a) ho 0
    obtain ⟨ends, halone, hrest⟩ := ih hos
    refine ⟨o' :: ends, .cons ho' halone, ?_⟩
    rw [List.flatMap_cons, hproblems, hrest]

/-- Runs that give nothing may be left out. -/
theorem filterMap_filter (hF : ∀ a, Agree nameless nameless (Option.Rel r) (F a) (F a)) {keep : γ → Bool}
    {as : List γ} (hkeep : ∀ a ∈ as, ∀ n o, F a n = some o → (keep a = true ↔ o.value.isSome = true)) {n : Nat}
    {d : Done (List α)} (h : filterMap F as n = some d) (n' : Nat) :
    ∃ d', filterMap F (as.filter keep) n' = some d' ∧ List.Forall₂ r d.value d'.value := by
  induction as generalizing n n' d with
  | nil =>
    cases h
    exact ⟨_, rfl, .nil⟩
  | cons a rest ih =>
    obtain ⟨o, os, ho, hos, rfl⟩ := filterMap_cons_eq_some.mp h
    have hrest := fun n' => ih (fun b hb => hkeep b (List.mem_cons_of_mem a hb)) hos n'
    have hgives := hkeep a List.mem_cons_self n o ho
    by_cases hk : keep a = true
    · -- the run is kept, and the rest goes on from where it ends this time
      obtain ⟨o', ho', hvalue, -⟩ := ends_anywhere (hF a) ho n'
      obtain ⟨os', hos', hvalues⟩ := hrest o'.next
      rw [List.filter_cons_of_pos hk]
      refine ⟨_, filterMap_cons_eq_some.mpr ⟨o', os', ho', hos', rfl⟩, ?_⟩
      revert hvalue
      show Option.Rel r o.value o'.value → List.Forall₂ r (o.value.toList ++ os.value) (o'.value.toList ++ os'.value)
      generalize o.value = v
      generalize o'.value = v'
      intro hvalue
      cases hvalue with
      | some hr => exact .cons hr hvalues
      | none => exact hvalues
    · have hnone : o.value = none := by
        cases hv : o.value with
        | none => rfl
        | some b => exact absurd (hgives.mpr (by rw [hv]; rfl)) hk
      obtain ⟨os', hos', hvalues⟩ := hrest n'
      rw [List.filter_cons_of_neg hk]
      exact ⟨os', hos', by rw [hnone]; exact hvalues⟩

end Run

namespace Converter

variable {c : Converter} {e : Json} {negated : Bool} {parent : Option String}

/-! ## What a conversion ends with -/

/-- Started at a number, the conversion of an expression in rule position ends so, when it may
nest deep enough. -/
def Converts (c : Converter) (e : Json) (negated : Bool) (parent : Option String) (start : Nat)
    (d : Done (Option (Node Nat))) : Prop :=
  ∃ limit, c.ruleN limit e negated parent start = some d

/-- Deeper nesting and other numbers make no difference. -/
theorem converts_alike (hd : c.schema.DistinctArgs) {n n' : Nat} {d d' : Done (Option (Node Nat))}
    (h : c.Converts e negated parent n d) (h' : c.Converts e negated parent n' d') :
    d.value.isSome = d'.value.isSome := by
  have hrun : ∀ {limit more n n' d d'}, c.ruleN limit e negated parent n = some d →
      c.ruleN (limit + more) e negated parent n' = some d' → d.value.isSome = d'.value.isSome := by
    intro limit more n n' d d' h h'
    obtain ⟨d₂, -, hd₂, hvalue, -⟩ :=
      (agreeParts hd Run.nameless Run.nameless limit more).rule e negated parent n n' (fun _ => rfl) d h
    have he : d₂ = d' := Option.some.inj (hd₂.symm.trans h')
    subst he
    have hmap := map_eq_map_of_rel (F := fun _ => ()) (G := fun _ => ()) (fun _ _ _ => rfl) hvalue
    rw [← Option.isSome_map (f := fun _ => ()), hmap, Option.isSome_map]
  obtain ⟨limit, h⟩ := h
  obtain ⟨limit', h'⟩ := h'
  rcases Nat.le_total limit limit' with hle | hle
  · obtain ⟨more, rfl⟩ := Nat.exists_eq_add_of_le hle
    exact hrun h h'
  · obtain ⟨more, rfl⟩ := Nat.exists_eq_add_of_le hle
    exact (hrun h' h).symm

/-! ## Conjunctions -/

section Conjunction

variable {limit : Nat} {key : String} {args : List Json} {n : Nat} {d : Done (Option (Node Nat))}

theorem nameless_agree (hd : c.schema.DistinctArgs) (limit : Nat) (a : Json) :
    Run.Agree Run.nameless Run.nameless (Option.Rel (Node.Alike Run.nameless Run.nameless))
      (c.ruleN limit a false parent) (c.ruleN limit a false parent) :=
  (agreeParts hd Run.nameless Run.nameless limit 0).rule a false parent

/-- The problems of a conjunction are those of its arguments. -/
theorem problems_alone (hd : c.schema.DistinctArgs)
    (h : c.convertConjunction ⟨c.ruleN limit, c.valueN limit⟩ key args negated parent n = some d) :
    ∃ ends, List.Forall₂ (c.Converts · false parent 0) args ends ∧ d.problems = ends.flatMap Done.problems := by
  obtain ⟨children, hchildren, rfl⟩ := convertConjunction_eq_some.mp h
  obtain ⟨ends, halone, hproblems⟩ := Run.filterMap_alone (nameless_agree hd limit) hchildren
  exact ⟨ends, halone.imp fun a o ho => ⟨limit, ho⟩, hproblems⟩

/-- The arguments that become no node may be left out. -/
theorem sameShape_without_failing (hd : c.schema.DistinctArgs)
    (h : c.convertConjunction ⟨c.ruleN limit, c.valueN limit⟩ key args negated parent n = some d)
    {keep : Json → Bool}
    (hkeep : ∀ a ∈ args, keep a = true ↔ ∃ o, c.Converts a false parent 0 o ∧ o.value.isSome = true) :
    ∃ x d' y, d.value = some x ∧
      c.convertConjunction ⟨c.ruleN limit, c.valueN limit⟩ key (args.filter keep) negated parent 0 = some d' ∧
      d'.value = some y ∧ x.sameShape y = true := by
  obtain ⟨children, hchildren, rfl⟩ := convertConjunction_eq_some.mp h
  have hgives : ∀ a ∈ args, ∀ n o, c.ruleN limit a false parent n = some o →
      (keep a = true ↔ o.value.isSome = true) := by
    intro a ha n o ho
    rw [hkeep a ha]
    constructor
    · rintro ⟨o', ho', hsome⟩
      rw [converts_alike hd ⟨limit, ho⟩ ho']
      exact hsome
    · intro hsome
      obtain ⟨o', ho', -⟩ := Run.ends_anywhere (nameless_agree hd limit a) ho 0
      have ho' : c.Converts a false parent 0 o' := ⟨limit, ho'⟩
      exact ⟨o', ho', converts_alike hd ⟨limit, ho⟩ ho' ▸ hsome⟩
  obtain ⟨kept, hkept, halike⟩ := Run.filterMap_filter (nameless_agree hd limit) hgives hchildren 0
  obtain ⟨d', -, hd', hnode, -⟩ :=
    agree_reconcile (c := c) key negated halike children.next kept.next (fun _ => rfl) _ rfl
  cases hd'
  exact ⟨_, _, _, rfl, convertConjunction_eq_some.mpr ⟨kept, hkept, rfl⟩, rfl, hnode.shape⟩

end Conjunction

/-- What is no negation is none when arguments are left out. -/
theorem negated?_filter {op : Operation} (h : c.negated? op = none) (keep : Json → Bool) :
    c.negated? ⟨op.name, op.args.filter keep⟩ = none := by
  obtain ⟨name, args⟩ := op
  by_cases hname : name = "!"
  · subst hname
    match args with
    | [] => exact h
    | [a] =>
      by_cases hk : keep a = true
      · simpa [hk] using h
      · simp [negated?, hk]
    | a :: b :: rest => simp [negated?, isEmptinessTest] at h
  · exact negated?_of_ne hname

/-- A conjunction that is not read as a negation records what each of its arguments records
alone, in order, and has the node of those arguments which become nodes alone. -/
theorem failing_operands_isolated (c : Converter) (hd : c.schema.DistinctArgs) {op : Operation} {key : String}
    (he : e.operation? = some op) (hn : c.negated? op = none) (hk : c.index.conjunction? op.name = some key)
    {start : Nat} {d : Done (Option (Node Nat))} (h : c.Converts e negated parent start d) :
    (∃ ends, List.Forall₂ (c.Converts · false parent 0) op.args ends ∧ d.problems = ends.flatMap Done.problems) ∧
      ∀ keep : Json → Bool,
        (∀ a ∈ op.args, keep a = true ↔ ∃ o, c.Converts a false parent 0 o ∧ o.value.isSome = true) →
        ∃ n d' m, d.value = some n ∧
          c.Converts (.obj [(op.name, .arr (op.args.filter keep))]) negated parent 0 d' ∧ d'.value = some m ∧
          n.sameShape m = true := by
  obtain ⟨limit, h⟩ := h
  cases limit with
  | zero => cases h
  | succ limit =>
    have hstep : c.convertConjunction ⟨c.ruleN limit, c.valueN limit⟩ key op.args negated parent start = some d := by
      rw [← ruleStep_conjunction he hn hk]
      exact h
    refine ⟨problems_alone hd hstep, fun keep hkeep => ?_⟩
    obtain ⟨n, d', m, hvalue, hd', hvalue', hshape⟩ := sameShape_without_failing hd hstep hkeep
    refine ⟨n, d', m, hvalue, ⟨limit + 1, ?_⟩, hvalue', hshape⟩
    show c.ruleStep _ _ _ _ _ = _
    have hop : Json.operation? (.obj [(op.name, .arr (op.args.filter keep))]) = some ⟨op.name, op.args.filter keep⟩ :=
      rfl
    rw [ruleStep_conjunction hop (negated?_filter hn keep) hk]
    exact hd'

theorem exists_converts {n : Nat} (limit : Nat) (p : Option (Node Nat) → Bool)
    (h : (c.ruleN limit e negated parent n).any (fun d => p d.value) = true) :
    ∃ d, c.Converts e negated parent n d ∧ p d.value = true := by
  obtain ⟨d, hd, hp⟩ := (Option.any_eq_true _ _).mp h
  exact ⟨d, ⟨limit, hd⟩, hp⟩

/-- Cars of a vendor and a colour, where the colour is misspelt. -/
theorem misspelt_operand_isolated :
    let bad := Cars.equals "colour" "red"
    let args := [Cars.equals "cars.vendor" "vw", bad, Cars.equals "color" "red"]
    let keep : Json → Bool := fun a => !a.same bad
    Cars.converter.schema.DistinctArgs ∧ Cars.converter.index.conjunction? "and" = some "AND" ∧
      ∃ d, Cars.converter.Converts (Cars.call "and" args) true none 3 d ∧
      (∃ ends, List.Forall₂ (Cars.converter.Converts · false none 0) args ends ∧
        d.problems = ends.flatMap Done.problems) ∧
      ∃ n d' m, d.value = some n ∧ Cars.converter.Converts (Cars.call "and" (args.filter keep)) true none 0 d' ∧
        d'.value = some m ∧ n.sameShape m = true := by
  intro bad args keep
  have hdistinct : Cars.converter.schema.DistinctArgs := fun _ _ h => absurd h List.not_mem_nil
  have hkey : Cars.converter.index.conjunction? "and" = some "AND" := by decide +kernel
  have hends : ∃ d, Cars.converter.Converts (Cars.call "and" args) true none 3 d ∧ d.value.isSome = true :=
    exists_converts 10 Option.isSome (by decide +kernel)
  obtain ⟨d, hd, -⟩ := hends
  have hgood : ∀ a ∈ [Cars.equals "cars.vendor" "vw", Cars.equals "color" "red"], keep a = true ∧
      ∃ o, Cars.converter.Converts a false none 0 o ∧ o.value.isSome = true := by
    intro a ha
    simp only [List.mem_cons, List.not_mem_nil, or_false] at ha
    rcases ha with rfl | rfl
    · exact ⟨by decide +kernel, exists_converts 10 Option.isSome (by decide +kernel)⟩
    · exact ⟨by decide +kernel, exists_converts 10 Option.isSome (by decide +kernel)⟩
  have hbad : keep bad = false ∧ ∃ o, Cars.converter.Converts bad false none 0 o ∧ o.value.isNone = true :=
    ⟨by decide +kernel, exists_converts 10 Option.isNone (by decide +kernel)⟩
  have hkeep : ∀ a ∈ args, keep a = true ↔ ∃ o, Cars.converter.Converts a false none 0 o ∧ o.value.isSome = true := by
    intro a ha
    simp only [args, List.mem_cons, List.not_mem_nil, or_false] at ha
    rcases ha with rfl | rfl | rfl
    · exact iff_of_true (hgood _ (by simp)).1 (hgood _ (by simp)).2
    · obtain ⟨hno, o, ho, hnone⟩ := hbad
      refine iff_of_false (by simp [hno]) ?_
      rintro ⟨o', ho', hsome⟩
      rw [← converts_alike hdistinct ho ho'] at hsome
      simp [Option.isNone_iff_eq_none.mp hnone] at hsome
    · exact iff_of_true (hgood _ (by simp)).1 (hgood _ (by simp)).2
  have hop : (Cars.call "and" args).operation? = some ⟨"and", args⟩ := rfl
  obtain ⟨hproblems, hshape⟩ := failing_operands_isolated Cars.converter hdistinct hop
    (negated?_of_ne (by decide)) hkey hd
  exact ⟨hdistinct, hkey, d, hd, hproblems, hshape keep hkeep⟩

/-- The schema of cars with a conjunction of the name `!`. -/
def negating : Converter :=
  .ofSchema { Cars.schema with conjunctions := [("AND", {}), ("OR", {}), ("!", {})] } []

/-- Under `!` the first argument stands for all: where it fails there is no node, although
there is one of the arguments that do not fail. -/
theorem failing_operand_of_negation_stands_for_all :
    let bad := Cars.equals "colour" "red"
    let good := Cars.equals "color" "red"
    negating.index.conjunction? "!" = some "!" ∧
      (∃ o, negating.Converts bad false none 0 o ∧ o.value.isNone = true) ∧
      (∃ o, negating.Converts good false none 0 o ∧ o.value.isSome = true) ∧
      (∃ d, negating.Converts (Cars.call "!" [bad, good]) false none 0 d ∧ d.value.isNone = true) ∧
      ∃ d', negating.Converts (Cars.call "!" [good]) false none 0 d' ∧ d'.value.isSome = true := by
  intro bad good
  refine ⟨by decide +kernel, ?_, ?_, ?_, ?_⟩
  · exact exists_converts 10 Option.isNone (by decide +kernel)
  · exact exists_converts 10 Option.isSome (by decide +kernel)
  · exact exists_converts 10 Option.isNone (by decide +kernel)
  · exact exists_converts 10 Option.isSome (by decide +kernel)

end Converter
end RuleTree
