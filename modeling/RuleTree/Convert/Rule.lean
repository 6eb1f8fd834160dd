/-
  RuleTree.Convert.Rule — rule expressions.

  A rule expression is an operation over a field and values. `parseRule` finds the operator,
  the field and the values: with the field first, and if that fails with the field second,
  for operators that take their arguments in reverse. Three layouts are special:
  - group operators (`some`, `all`, `none`) take no value; their second argument is a having
    clause on the elements;
  - `all` over an `in` is one rule, `all-in`, over the list and the values;
  - a range comparison with three arguments has its field in the middle.
  `assembleRule` makes the node, spending a negation on the operator's inverse where it has
  one and on a negated group around the node where it has none. A collection compared as a
  whole keeps the negation itself when its NOT can be shown.
-/

import RuleTree.Convert.Call
import RuleTree.Convert.Reconcile
import RuleTree.Convert.Wrap
import RuleTree.FieldOperand

namespace RuleTree

/-! ## Finding operator, field and values -/

/-- A rule expression as the parts it names. -/
structure RuleShape where
  op : String
  /-- The arguments of the expression as it was written. -/
  arity : Nat
  values : List Json

/-- The shape of an operation; `all` over an `in` with a list of values is `all-in`. -/
def RuleShape.ofOperation (op : Operation) : RuleShape :=
  match op.name == "all", op.args with
  | true, first :: second :: _ =>
    match second.operation? with
    | some ⟨"in", _ :: list :: _⟩ => ⟨"all-in", op.args.length, [first, list]⟩
    | _ => ⟨op.name, op.args.length, op.args⟩
  | _, _ => ⟨op.name, op.args.length, op.args⟩

/-- A rule matched against the schema. -/
structure ParsedRule where
  path : String
  field : Field
  op : String
  args : List Json
  having : Option Json

def rangeOps : List String := ["<", "<=", ">", ">="]

namespace Converter

/-- The operator is about the elements of a collection. -/
def isGroupOp (c : Converter) (s : RuleShape) : Bool :=
  !(s.op == "all" && s.values[1]?.bind Json.opName? == some "in") &&
    c.schema.settings.groupOperators.contains s.op

/-- How many values the operator must take; an expression without arguments is no rule. -/
def wantedArity? (c : Converter) (s : RuleShape) : Option Nat :=
  if c.isGroupOp s then some 0
  else if s.arity = 0 then none else some (s.arity - 1)

/-- The expression of the field and those of the values. -/
def layout (s : RuleShape) (reversed : Bool) : Option Json × List Json :=
  match rangeOps.contains s.op && s.arity == 3, s.values with
  | true, [low, field, high] => (some field, [low, high])
  | _, values => if reversed then (values[1]?, values.head?.toList) else (values.head?, values.tail)

/-- The first operator of several that the field allows, or the first one. -/
def chooseOp (f : Field) (path : String) : List String → Except (Option RuleFault) String
  | [] => .error none
  | [key] => .ok key
  | key :: keys =>
    match f.operators with
    | none => .ok key
    | some _ =>
      match (key :: keys).find? f.allows with
      | some k => .ok k
      | none => .error (some (.noOperator path))

/-- One try at a rule expression. A try without a reason to fail found no operator. -/
def tryParse (c : Converter) (s : RuleShape) (parent : Option String) (reversed : Bool) :
    Except (Option RuleFault) ParsedRule :=
  match c.wantedArity? s with
  | none => .error none
  | some arity =>
    let keys := c.index.operatorKeys ⟨s.op, arity, reversed⟩
    if keys.isEmpty then .error none
    else
      let (fieldExpr?, args) := layout s reversed
      match fieldExpr?.filter Json.isOperation with
      | none => .error (some (.badOperands s.op s.values))
      | some fieldExpr =>
        match FieldOperand.recognize? c.index fieldExpr with
        | none => .error (some (.unknownField fieldExpr))
        | some operand =>
          let path := c.composePath parent operand.path
          match c.fields.resolve path with
          | none => .error (some (.noField path))
          | some field =>
            match chooseOp field path keys with
            | .error fault => .error fault
            | .ok op =>
              let isGroupOp := c.isGroupOp s
              .ok {
                path, field, op
                args := if isGroupOp then [] else args
                having := operand.having?.or (if isGroupOp then args.head? else none) }

/-- The rule an expression is, its field first or second. -/
def parseRule (c : Converter) (e : Json) (s : RuleShape) (parent : Option String) :
    Except Problem ParsedRule :=
  match c.tryParse s parent false with
  | .ok r => .ok r
  | .error direct =>
    match c.tryParse s parent true with
    | .ok r => .ok r
    | .error reversed =>
      match direct.toList ++ reversed.toList with
      | first :: rest => .error (.notARule first rest)
      | [] => .error (.unknownOp s.op s.arity e)

/-! ## Making the node -/

/-- The field keeps a negation on itself. -/
def keepsNegation (c : Converter) (f : Field) : Bool := f.isArrayGroup && c.schema.showNot f

/-- A parsed rule with its negation: the one in front of it and, on a collection, the one
in front of its having clause, taken together. -/
def foldHaving (r : ParsedRule) (negated : Bool) : ParsedRule × Bool :=
  match r.field.isGroup, r.having.bind Json.operation? with
  | true, some ⟨"!", inner⟩ => ({ r with having := inner.head? }, !negated)
  | _, _ => (r, negated)

/-- The operator a negated rule has instead of its own, when it has an inverse. -/
def inverse? (c : Converter) (op : String) : Option String :=
  (c.schema.operators.get? op).bind Operator.inverse

/-- The operator to use, and whether the rule is still negated. -/
def settleNegation (c : Converter) (f : Field) (op : String) (negated : Bool) : String × Bool :=
  if negated && !c.keepsNegation f then
    match c.inverse? op with
    | some inv => (inv, false)
    | none => (op, true)
  else (op, negated)

/-- A having clause as a rule group on its collection. -/
def convertHaving (c : Converter) (sub : SubRuns) (having : Json) (path : String) (f : Field) :
    Run (Option RuleGroup) :=
  match having.operation?.bind fun op => (c.index.conjunction? op.name).map fun k => (k, op.args) with
  | some (conjunction, args) =>
    (Run.filterMap (fun a => sub.rule a false (some path)) args).bind fun children =>
      (c.reconcile conjunction false children).bind fun n => (c.rehome path f n).bind fun g =>
        Run.pure (some g)
  | none =>
    (sub.rule having false (some path)).andThen fun n =>
      (c.wrapOn path f (c.index.conjunction? "and") n).bind fun g =>
        (c.rehome path f g.toNode).bind fun g => Run.pure (some g)

/-- The rule group of a rule on a collection, before the rule's own properties. -/
def groupBody (c : Converter) (sub : SubRuns) (r : ParsedRule) : Run (Option RuleGroup) :=
  match r.having with
  | some having => c.convertHaving sub having r.path r.field
  | none =>
    Run.draw.bind fun id =>
      let props : RuleGroupProps := {
        conjunction := c.schema.groupConjunction (some r.field)
        field := r.path }
      Run.pure (some ⟨id, props, []⟩)

/-- The rule or rule group of a parsed rule, with its own negation. -/
def ruleNode (c : Converter) (sub : SubRuns) (r : ParsedRule) (op : String) (negated : Bool)
    (operands : List Operand) : Run (Option (Node Nat)) :=
  if r.field.isGroup then
    (c.groupBody sub r).andThen fun g =>
      let props : RuleGroupProps := { g.props with
        field := r.path
        mode := r.field.mode
        negated := c.keepsNegation r.field && negated
        operator := some op
        args := if r.field.mode = some .array then operands else g.props.args }
      Run.pure (some (.ruleGroup g.id props g.children))
  else
    Run.draw.bind fun id =>
      let props : RuleProps := {
        field := r.path
        operator := op
        args := operands
        async := operands.findSome? Operand.async }
      Run.pure (some (.rule id props))

/-- The node of a parsed rule. -/
def assembleRule (c : Converter) (sub : SubRuns) (r : ParsedRule) (negated : Bool)
    (parent : Option String) : Run (Option (Node Nat)) :=
  let (r, negated) := foldHaving r negated
  let (op, negated) := c.settleNegation r.field r.op negated
  let target := Target.ofField r.field (c.widgetFor r.path op)
  (Run.collect (fun a => sub.value a target parent) r.args).andThen fun operands =>
    (c.ruleNode sub r op negated operands).andThen fun n =>
      if negated && !c.keepsNegation r.field then
        (c.wrap true n).bind fun t => Run.pure (some t.root)
      else Run.pure (some n)

/-- The node of a rule expression. -/
def convertOp (c : Converter) (sub : SubRuns) (e : Json) (op : Operation) (negated : Bool)
    (parent : Option String) : Run (Option (Node Nat)) :=
  match c.parseRule e (.ofOperation op) parent with
  | .error p => .fail p
  | .ok r => c.assembleRule sub r negated parent

end Converter
end RuleTree
