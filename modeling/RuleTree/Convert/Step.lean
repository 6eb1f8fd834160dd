/-
  RuleTree.Convert.Step — conversion of expressions.

  In rule position an operation is a negation to fold away, a conjunction or a rule; in
  value position it is a negation to pass over, a field, a call or a literal. `ruleStep`
  and `valueStep` are one such step, given the conversions of the parts; `ruleN` and
  `valueN` nest at most so many steps.
  A negated field read is no negation but a rule of its own: the test for emptiness.
-/

import RuleTree.Convert.Rule

namespace RuleTree
namespace Converter

/-! ## Negations -/

/-- The only argument reads a field. -/
def isEmptinessTest (c : Converter) (args : List Json) : Bool :=
  match args with
  | [only] => only.opName?.any c.index.isVarKey
  | _ => false

/-- What a negation negates; `none` for all else and for tests of emptiness. -/
def negated? (c : Converter) (op : Operation) : Option Json :=
  if op.name == "!" && !c.isEmptinessTest op.args then op.args.head? else none

/-! ## One step -/

/-- A conjunction over the arguments that can be converted. -/
def convertConjunction (c : Converter) (sub : SubRuns) (conjunction : String) (args : List Json)
    (negated : Bool) (parent : Option String) : Run (Option (Node Nat)) :=
  (Run.filterMap (fun a => sub.rule a false parent) args).bind fun children =>
    (c.reconcile conjunction negated children).bind fun n => Run.pure (some n)

def ruleStep (c : Converter) (sub : SubRuns) (e : Json) (negated : Bool)
    (parent : Option String) : Run (Option (Node Nat)) :=
  match e.operation? with
  | none => .fail (.unparsed e)
  | some op =>
    match c.negated? op with
    | some inner => sub.rule inner (!negated) parent
    | none =>
      match c.index.conjunction? op.name with
      | some conjunction => c.convertConjunction sub conjunction op.args negated parent
      | none => c.convertOp sub e op negated parent

def valueStep (c : Converter) (sub : SubRuns) (e : Json) (t : Target)
    (parent : Option String) : Run (Option Operand) :=
  match e.operation?.bind c.negated? with
  | some inner => sub.value inner t parent
  | none =>
    match c.fieldValue? e parent with
    | some field => .ofExcept field
    | none =>
      match c.call? e t.type with
      | some call => convertCall sub call parent
      | none => .ofExcept (c.literalValue e t)

/-! ## Nested steps -/

mutual

def ruleN (c : Converter) : Nat → Json → Bool → Option String → Run (Option (Node Nat))
  | 0, _, _, _ => .stuck
  | n + 1, e, negated, parent => c.ruleStep ⟨ruleN c n, valueN c n⟩ e negated parent

def valueN (c : Converter) : Nat → Json → Target → Option String → Run (Option Operand)
  | 0, _, _, _ => .stuck
  | n + 1, e, t, parent => c.valueStep ⟨ruleN c n, valueN c n⟩ e t parent

end

/-- How deep conversions of an expression may nest. -/
def limit (c : Converter) (e : Json) : Nat := e.size + c.nesting

/-- An expression in rule position. -/
def rule (c : Converter) (e : Json) (negated : Bool) (parent : Option String) :
    Run (Option (Node Nat)) :=
  c.ruleN (c.limit e) e negated parent

/-- An expression in value position. -/
def value (c : Converter) (e : Json) (t : Target) (parent : Option String) :
    Run (Option Operand) :=
  c.valueN (c.limit e) e t parent

end Converter
end RuleTree
