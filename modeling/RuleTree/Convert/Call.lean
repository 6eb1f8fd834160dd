/-
  RuleTree.Convert.Call — function calls in values.

  `call?` decides which function an expression calls and with which arguments: the first
  declared function that answers to the name and returns the wanted type, else the first
  one of that type whose hook accepts the expression. `callArgs` converts the arguments,
  taking defaults for those that are missing or cannot be converted.
-/

import RuleTree.Convert.Run
import RuleTree.Convert.Value
import RuleTree.Node

namespace RuleTree

/-- The conversions of the parts of an expression, as a step may use them. -/
structure SubRuns where
  /-- In rule position, negated or not, under a parent path. -/
  rule : Json → Bool → Option String → Run (Option (Node Nat))
  /-- In value position, for a target, under a parent path. -/
  value : Json → Target → Option String → Run (Option Operand)

/-- A function and the expressions given for its arguments. -/
structure Call where
  key : String
  func : Func
  args : List Json

namespace Converter

/-- The name an operation calls by and the arguments it gives; a method call gives its
object first. A `method` that is not a call of one calls nothing. -/
def callSignature? (op : Operation) : Option (FuncSignature × List Json) :=
  if op.name == "method" then
    match op.args with
    | obj :: .str name :: opts => some (⟨name, true⟩, obj :: opts)
    | _ => none
  else some (⟨op.name, false⟩, op.args)

/-- The first declared function with this signature that returns the type. -/
def declaredFunc? (c : Converter) (sig : FuncSignature) (type : String) :
    Option (String × Func) :=
  (c.index.funcKeys sig).findSome? fun key =>
    match c.schema.funcs.get? key with
    | some f => if f.returnType == type then some (key, f) else none
    | none => none

/-- The first function that returns the type and whose hook accepts the expression. -/
def hookedCall? (c : Converter) (e : Json) (type : String) : Option Call :=
  c.schema.funcs.findSome? fun (key, f) =>
    match c.hooks.get? key with
    | some hook =>
      if f.returnType == type then (hook e).map fun args => ⟨key, f, args⟩ else none
    | none => none

/-- The call an expression is, for a wanted type. -/
def call? (c : Converter) (e : Json) (type : String) : Option Call :=
  match e.operation?.bind callSignature? with
  | none => none
  | some (sig, args) =>
    match c.declaredFunc? sig type with
    | some (key, f) => some ⟨key, f, args⟩
    | none => c.hookedCall? e type

/-- The expression given for an argument, converted; nothing when none is given. -/
def givenArg (sub : SubRuns) (a : FuncArg) (parent : Option String) :
    Option Json → Run (Option Operand)
  | some v => sub.value v (.ofArg a) parent
  | none => Run.pure none

/-- The declared arguments, in order, from the given expressions. -/
def callArgs (sub : SubRuns) (func : String) (parent : Option String) :
    Table FuncArg → List Json → Run (Option (Table Operand))
  | [], _ => Run.pure (some [])
  | (key, a) :: rest, given =>
    (givenArg sub a parent given.head?).bind fun converted =>
      match converted.or (a.default.map fun v => .literal v a.type) with
      | none => .fail (.missingArg key func)
      | some o =>
        (callArgs sub func parent rest given.tail).andThen fun os =>
          Run.pure (some ((key, o) :: os))

/-- The operand of a call. -/
def convertCall (sub : SubRuns) (call : Call) (parent : Option String) :
    Run (Option Operand) :=
  if call.func.args.length < call.args.length then .fail (.tooManyArgs call.key)
  else
    (callArgs sub call.key parent call.func.args call.args).andThen fun os =>
      Run.pure (some (.call call.key os call.func.returnType))

end Converter
end RuleTree
