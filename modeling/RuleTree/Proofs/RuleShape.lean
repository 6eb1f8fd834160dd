/-
  RuleTree.Proofs.RuleShape — what is known of a rule that was found.

  `tryParse_eq_ok` says all that one try at a rule expression does when it succeeds;
  `parseRule_eq_ok` which of the two tries counts. From them: the field of a rule is the one
  at its path (`resolve_of_parseRule`), and a rule on a collection has the having clause of
  the expression and an operator that answers to its name (`parseRule_of_isGroupOp`).
-/

import RuleTree.Convert.Rule

namespace RuleTree
namespace Converter

variable {c : Converter} {s : RuleShape} {parent : Option String} {e : Json} {r : ParsedRule} {reversed : Bool}

theorem chooseOp_mem {f : Field} {path : String} {keys : List String} {op : String}
    (h : chooseOp f path keys = .ok op) : op ∈ keys := by
  unfold chooseOp at h
  split at h
  · cases h
  · cases h; simp
  · split at h
    · cases h; simp
    · split at h
      · rename_i hk
        cases h
        exact List.mem_of_find?_eq_some hk
      · cases h

/-- The rule a successful try finds. -/
def found (c : Converter) (s : RuleShape) (parent : Option String) (reversed : Bool)
    (operand : FieldOperand) (field : Field) (op : String) : ParsedRule where
  path := c.composePath parent operand.path
  field := field
  op := op
  args := if c.isGroupOp s then [] else (layout s reversed).2
  having := operand.having?.or (if c.isGroupOp s then (layout s reversed).2.head? else none)

theorem tryParse_eq_ok :
    c.tryParse s parent reversed = .ok r ↔
      ∃ arity fieldExpr operand field op, c.wantedArity? s = some arity ∧
        (layout s reversed).1 = some fieldExpr ∧ fieldExpr.isOperation = true ∧
        FieldOperand.recognize? c.index fieldExpr = some operand ∧
        c.fields.resolve (c.composePath parent operand.path) = some field ∧
        chooseOp field (c.composePath parent operand.path)
          (c.index.operatorKeys ⟨s.op, arity, reversed⟩) = .ok op ∧
        r = c.found s parent reversed operand field op := by
  constructor
  · intro h
    unfold tryParse at h
    split at h
    · cases h
    rename_i arity harity
    simp only at h
    split at h
    · cases h
    split at h
    · cases h
    rename_i fieldExpr hfe
    obtain ⟨hfe, hop⟩ := Option.filter_eq_some_iff.mp hfe
    split at h
    · cases h
    rename_i operand hrec
    split at h
    · cases h
    rename_i field hres
    split at h
    · cases h
    rename_i op hch
    cases h
    exact ⟨arity, fieldExpr, operand, field, op, harity, hfe, hop, hrec, hres, hch, rfl⟩
  · rintro ⟨arity, fieldExpr, operand, field, op, harity, hfe, hop, hrec, hres, hch, rfl⟩
    have hkeys : (c.index.operatorKeys ⟨s.op, arity, reversed⟩).isEmpty = false := by
      cases hk : c.index.operatorKeys ⟨s.op, arity, reversed⟩ with
      | nil => simp [hk, chooseOp] at hch
      | cons => rfl
    unfold tryParse
    simp only [harity, hkeys, hfe, Option.filter, hop, hrec, hres, hch, if_true]
    rfl

/-- The field comes first unless only the second try finds the rule. -/
theorem parseRule_eq_ok :
    c.parseRule e s parent = .ok r ↔
      c.tryParse s parent false = .ok r ∨
        (∃ d, c.tryParse s parent false = .error d) ∧ c.tryParse s parent true = .ok r := by
  unfold parseRule
  cases hd : c.tryParse s parent false with
  | ok r' => simp
  | error d =>
    cases hr : c.tryParse s parent true with
    | ok r' => simp
    | error d' =>
      simp only [reduceCtorEq, and_false, or_self, iff_false]
      split <;> simp

/-- The problem is of the kind of the first reason there is. -/
theorem parseRule_eq_error {d d' : Option RuleFault} (h : c.tryParse s parent false = .error d)
    (h' : c.tryParse s parent true = .error d') :
    ∃ p, c.parseRule e s parent = .error p ∧
      p.kind = ((d.map RuleFault.kind).or (d'.map RuleFault.kind)).getD .unrecognizedExpression := by
  unfold parseRule
  rw [h, h']
  cases d <;> cases d' <;> exact ⟨_, rfl, rfl⟩

/-- A rule that was found was found by one of the tries. -/
theorem exists_tryParse (h : c.parseRule e s parent = .ok r) :
    ∃ reversed, c.tryParse s parent reversed = .ok r := by
  rcases parseRule_eq_ok.mp h with h | ⟨-, h⟩
  · exact ⟨false, h⟩
  · exact ⟨true, h⟩

theorem resolve_of_parseRule (h : c.parseRule e s parent = .ok r) :
    c.fields.resolve r.path = some r.field := by
  obtain ⟨reversed, h⟩ := exists_tryParse h
  obtain ⟨_, _, operand, field, op, -, -, -, -, hres, -, rfl⟩ := tryParse_eq_ok.mp h
  exact hres

/-- An operator on collections is never the one of `all` over an `in`. -/
theorem ofOperation_of_isGroupOp {op : Operation}
    (h : c.isGroupOp ⟨op.name, op.args.length, op.args⟩ = true) :
    RuleShape.ofOperation op = ⟨op.name, op.args.length, op.args⟩ := by
  unfold RuleShape.ofOperation
  split
  · rename_i first second rest hname hargs
    split
    · rename_i x list more hin
      simp [isGroupOp, hargs, Json.opName?, hin, beq_iff_eq.mp hname] at h
    · rfl
  · rfl

/-- What a rule on a collection with a having clause is read as, when its operator always
has the collection first. -/
theorem parseRule_of_isGroupOp {name : String} {list having : Json} {p : String}
    (hg : c.isGroupOp ⟨name, 2, [list, having]⟩ = true)
    (hrev : c.index.operatorKeys ⟨name, 0, true⟩ = [])
    (hp : FieldOperand.recognize? c.index list = some (.direct p))
    (hr : c.parseRule e (.ofOperation ⟨name, [list, having]⟩) parent = .ok r) :
    r.path = c.composePath parent p ∧ r.having = some having ∧
      r.op ∈ c.index.operatorKeys ⟨name, 0, false⟩ := by
  have hs : RuleShape.ofOperation ⟨name, [list, having]⟩ = ⟨name, 2, [list, having]⟩ :=
    ofOperation_of_isGroupOp hg
  rw [hs] at hr
  obtain ⟨reversed, h⟩ := exists_tryParse hr
  obtain ⟨arity, fieldExpr, operand, field, op, harity, hfe, -, hrec, -, hch, rfl⟩ := tryParse_eq_ok.mp h
  rw [wantedArity?, if_pos hg, Option.some.injEq] at harity
  subst harity
  cases reversed with
  | true => simp [hrev, chooseOp] at hch
  | false =>
    have hlayout : layout ⟨name, 2, [list, having]⟩ false = (some list, [having]) := by simp [layout]
    rw [hlayout, Option.some.injEq] at hfe
    subst hfe
    rw [hp, Option.some.injEq] at hrec
    subst hrec
    exact ⟨rfl, by simp [found, hg, hlayout, FieldOperand.having?], chooseOp_mem hch⟩

/-- A layout that no operator has finds no rule. -/
theorem tryParse_of_no_keys
    (h : ∀ arity, c.wantedArity? s = some arity → c.index.operatorKeys ⟨s.op, arity, reversed⟩ = [])
    (parent : Option String) : c.tryParse s parent reversed = .error none := by
  unfold tryParse
  cases ha : c.wantedArity? s with
  | none => rfl
  | some arity => simp [h arity ha]

end Converter
end RuleTree
