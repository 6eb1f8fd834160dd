/-
  RuleTree.Operation — logic expressions.

  An operation is an object with exactly one member: its key is the name, its value the
  list of arguments, and a value that is not a list is the only argument. All else is a
  literal.
-/

import RuleTree.Json.Basic

namespace RuleTree

structure Operation where
  name : String
  args : List Json
deriving Repr, Inhabited

namespace Json

/-- The arguments a raw member stands for. -/
def argList : Json → List Json
  | .arr items => items
  | x => [x]

def operation? : Json → Option Operation
  | .obj [(name, raw)] => some ⟨name, raw.argList⟩
  | _ => none

def isOperation (j : Json) : Bool := j.operation?.isSome

def opName? (j : Json) : Option String := j.operation?.map Operation.name

end Json
end RuleTree
