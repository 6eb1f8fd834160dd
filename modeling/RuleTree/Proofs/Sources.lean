/-
  RuleTree.Proofs.Sources — what kind of value an operation becomes.

  In value position a negation is passed over: what it negates is converted in its place
  (`valueN_underNegations`). So the kind of a value is that of what stands under all the
  negations (`underNegations`).
  - `operation_becomes_no_literal`: when that is an operation, the value is a field or a
    call, or there is none and a problem says so.
  - `valueN_of_literal`: when it is a literal, the value is the literal's, whatever number
    of negations is in front. `negated_literal_becomes_literal` is one such value.
-/

import RuleTree.Proofs.Ending

namespace RuleTree
namespace Converter

variable {c : Converter} {e : Json} {t : Target} {parent : Option String}

/-! ## Negations passed over -/

/-- What is negated by all the negations at the head of an expression that are folded. -/
def underNegations (c : Converter) (e : Json) : Json :=
  match _ : e.operation?.bind c.negated? with
  | some inner => c.underNegations inner
  | none => e
termination_by e.size
decreasing_by
  rename_i h
  exact (inside_of_negated? h).size_lt

theorem underNegations_of_negation {inner : Json} (h : e.operation?.bind c.negated? = some inner) :
    c.underNegations e = c.underNegations inner := by
  rw [underNegations]
  split
  · rename_i x hx
    cases hx.symm.trans h
    rfl
  · rename_i hx
    cases hx.symm.trans h

theorem underNegations_of_none (h : e.operation?.bind c.negated? = none) : c.underNegations e = e := by
  rw [underNegations]
  split
  · rename_i x hx
    cases hx.symm.trans h
  · rfl

/-- An operation of another name is negated by none. -/
theorem underNegations_of_ne (h : e.opName? ≠ some "!") : c.underNegations e = e := by
  refine underNegations_of_none ?_
  cases he : e.operation? with
  | none => rfl
  | some op =>
    rw [Option.bind_some]
    refine negated?_of_ne fun hop => h ?_
    rw [Json.opName?, he, Option.map_some, hop]

theorem negated_underNegations (c : Converter) (e : Json) :
    (c.underNegations e).operation?.bind c.negated? = none := by
  induction hs : e.size using Nat.strong_induction_on generalizing e with
  | _ s ih =>
    cases h : e.operation?.bind c.negated? with
    | none => rwa [underNegations_of_none h]
    | some inner =>
      have hlt := (inside_of_negated? h).size_lt
      rw [underNegations_of_negation h]
      exact ih inner.size (hs ▸ hlt) inner rfl

/-- A conversion in value position ends as that of what stands under the negations, which
takes no more nesting. -/
theorem valueN_underNegations {limit n : Nat} {d : Done (Option Operand)} (h : c.valueN limit e t parent n = some d) :
    ∃ k < limit, c.valueN (k + 1) (c.underNegations e) t parent n = some d := by
  induction limit generalizing e with
  | zero => cases h
  | succ k ih =>
    cases hneg : e.operation?.bind c.negated? with
    | none =>
      rw [underNegations_of_none hneg]
      exact ⟨k, Nat.lt_succ_self k, h⟩
    | some inner =>
      simp only [valueN, valueStep, hneg] at h
      rw [underNegations_of_negation hneg]
      obtain ⟨l, hl, hunder⟩ := ih h
      exact ⟨l, by omega, hunder⟩

/-! ## Operations -/

/-- The operand is a field or a call. -/
def NoLiteral (o : Operand) : Prop := o.source = .field ∨ o.source = .func

theorem fieldValue?_noLiteral {r : Except Problem Operand} (h : c.fieldValue? e parent = some r) {o : Operand}
    (ho : r = .ok o) : NoLiteral o := by
  unfold fieldValue? at h
  split at h
  · split at h
    · simp only at h
      split at h
      · cases h
        cases ho
        exact .inl rfl
      · cases h
        cases ho
    · cases h
  · cases h

theorem convertCall_noLiteral (sub : SubRuns) (call : Call) (parent : Option String) :
    Run.Always (∀ o ∈ ·, NoLiteral o) (convertCall sub call parent) := by
  unfold convertCall
  split
  · exact Run.always_fail (by simp)
  · refine Run.always_andThen (P := fun _ => True) (fun _ _ _ _ _ => trivial) (by simp) fun os _ => ?_
    refine Run.always_pure fun o ho => ?_
    cases ho
    exact .inr rfl

/-- A literal is only made of what is no operation. -/
theorem valueStep_noLiteral (sub : SubRuns) (hneg : e.operation?.bind c.negated? = none)
    (he : e.isOperation = true) : Run.Always (∀ o ∈ ·, NoLiteral o) (c.valueStep sub e t parent) := by
  simp only [valueStep, hneg]
  split
  · rename_i r hr
    exact Run.always_ofExcept fun o ho => fieldValue?_noLiteral hr ho
  split
  · exact convertCall_noLiteral sub _ parent
  · refine Run.always_ofExcept fun o ho => ?_
    unfold literalValue at ho
    split at ho
    · cases ho
    · cases (if_pos he).symm.trans ho

/-- An expression that is an operation under its negations becomes a field or a call in value
position, or nothing with a problem that says so; and it does become one of these when hooks
only answer with something smaller. -/
theorem operation_becomes_no_literal (c : Converter) (e : Json) (t : Target) (parent : Option String)
    (h : (c.underNegations e).isOperation = true) :
    (∀ limit n d, c.valueN limit e t parent n = some d →
      d.value = none ∧ d.problems ≠ [] ∨ ∃ o, d.value = some o ∧ (o.source = .field ∨ o.source = .func)) ∧
    (c.HooksShrink → ∀ n, ∃ d, c.value e t parent n = some d) := by
  refine ⟨fun limit n d hd => ?_, fun hc n => exists_value hc e t parent n⟩
  obtain ⟨k, -, hunder⟩ := valueN_underNegations hd
  have hsource := valueStep_noLiteral _ (c.negated_underNegations e) h n d hunder
  obtain ⟨value, m, problems⟩ := d
  cases value with
  | none => exact .inl ⟨rfl, valueN_loud limit e t parent n m problems hd⟩
  | some o => exact .inr ⟨o, rfl, hsource o rfl⟩

/-- The negation of a field, which is no test for emptiness when it is given a second argument. -/
theorem negated_field_becomes_no_literal :
    let e := Cars.call "!" [Cars.read "color", .null]
    let t : Target := .ofField { type := "text" } none
    (Cars.converter.underNegations e).isOperation = true ∧ Cars.converter.HooksShrink ∧
      ∃ d, Cars.converter.value e t none 0 = some d ∧
        (d.value = none ∧ d.problems ≠ [] ∨ ∃ o, d.value = some o ∧ (o.source = .field ∨ o.source = .func)) := by
  intro e t
  have hneg : e.operation?.bind Cars.converter.negated? = some (Cars.read "color") := by rfl
  have hunder : (Cars.converter.underNegations e).isOperation = true := by
    rw [underNegations_of_negation hneg, underNegations_of_ne (by decide)]
    rfl
  have hshrink : Cars.converter.HooksShrink := hooksShrink_of_nil rfl
  obtain ⟨hsource, hends⟩ := operation_becomes_no_literal Cars.converter e t none hunder
  obtain ⟨d, hd⟩ := hends hshrink 0
  exact ⟨hunder, hshrink, d, hd, hsource _ 0 d hd⟩

/-! ## Literals -/

/-- A literal is converted as if no negation were in front of it. -/
theorem valueN_of_literal (h : (c.underNegations e).isOperation = false) {limit n : Nat} {d : Done (Option Operand)}
    (hd : c.valueN limit e t parent n = some d) :
    Run.ofExcept (c.literalValue (c.underNegations e) t) n = some d := by
  obtain ⟨k, -, hunder⟩ := valueN_underNegations hd
  have hop : (c.underNegations e).operation? = none := by simpa [Json.isOperation] using h
  simpa [valueN, valueStep, fieldValue?, call?, hop] using hunder

/-- The negation of a text is the text. -/
theorem negated_literal_becomes_literal :
    let e : Json := .obj [("!", .str "red")]
    e.isOperation = true ∧
      Cars.converter.value e (.ofField { type := "text" } none) none 0 =
        some ⟨some (.literal (.str "red") "text"), 0, []⟩ := by
  exact ⟨rfl, by rfl⟩

end Converter
end RuleTree
