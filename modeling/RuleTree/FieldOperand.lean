/-
  RuleTree.FieldOperand — expressions that name a field of a rule.

  A field is read directly, by a variable key with a path, or as a collection whose
  elements are counted: a `reduce` that adds one per element from zero, over the whole
  collection or over those a `filter` keeps.
-/

import RuleTree.Index
import RuleTree.Operation

namespace RuleTree

inductive FieldOperand where
  /-- The field at a path. -/
  | direct (path : String)
  /-- The elements of a collection, or those that satisfy a predicate. -/
  | filtered (path : String) (having : Option Json)
deriving Repr, Inhabited

namespace FieldOperand

def path : FieldOperand → String
  | direct path => path
  | filtered path _ => path

/-- The predicate on the elements. -/
def having? : FieldOperand → Option Json
  | direct _ => none
  | filtered _ having => having

/-- The first argument, when it is text and not empty. -/
def varPath? (args : List Json) : Option String :=
  match args with
  | .str path :: _ => if path.isEmpty then none else some path
  | _ => none

/-- The path a variable read names. -/
def readPath? (ix : Index) (j : Json) : Option String :=
  match j.operation? with
  | some op => if ix.isVarKey op.name then varPath? op.args else none
  | none => none

/-- A number that is zero. -/
def isZeroNum : Json → Bool
  | .num n => n.isZero
  | _ => false

/-- A number that is one. -/
def isOneNum : Json → Bool
  | .num n => n.isOne
  | _ => false

/-- The read of the running count. -/
def isAccumulator (j : Json) : Bool :=
  match j.operation? with
  | some op => op.name == "var" && op.args.head?.bind Json.asString? == some "accumulator"
  | none => false

/-- One more than the running count. -/
def isIncrement (j : Json) : Bool :=
  match j.operation? with
  | some ⟨name, [step, acc]⟩ => name == "+" && isOneNum step && isAccumulator acc
  | _ => false

/-- The collection that is counted. -/
def ofSource? (ix : Index) (source : Json) : Option FieldOperand :=
  match source.operation? with
  | some op =>
    if op.name == "filter" then
      (op.args.head?.bind (readPath? ix)).map fun path => filtered path op.args[1]?
    else (readPath? ix source).map fun path => filtered path none
  | none => none

/-- The field an expression names. -/
def recognize? (ix : Index) (j : Json) : Option FieldOperand :=
  match j.operation? with
  | none => none
  | some op =>
    if ix.isVarKey op.name then (varPath? op.args).map direct
    else if op.name == "reduce" then
      match op.args with
      | [source, acc, init] =>
        if isZeroNum init && isIncrement acc then ofSource? ix source else none
      | _ => none
    else none

end FieldOperand
end RuleTree
