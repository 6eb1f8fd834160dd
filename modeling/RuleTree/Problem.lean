/-
  RuleTree.Problem — why a part of an expression was not converted.

  Each cause says what it is about; its kind, wording and context are functions of it.
  A rule is tried with its field first and with its field second, and each try has its own
  reason to fail (`RuleFault`); they are reported as one problem, of the first one's kind.
-/

import RuleTree.Diagnostic
import RuleTree.Doc.Printer

namespace RuleTree

/-- Why an expression is not a rule of a given layout. -/
inductive RuleFault where
  /-- There is no expression where the field should be. -/
  | badOperands (op : String) (values : List Json)
  | unknownField (expr : Json)
  | noField (path : String)
  /-- The field allows none of the operators the name stands for. -/
  | noOperator (path : String)
deriving Repr

namespace RuleFault

def kind : RuleFault → DiagnosticKind
  | badOperands .. | unknownField _ => .unrecognizedExpression
  | noField _ | noOperator _ => .unresolvedReference

def message : RuleFault → String
  | badOperands op values => "Incorrect operands for " ++ op ++ ": " ++ (Json.arr values).text
  | unknownField expr => "Unknown field " ++ expr.text
  | noField path => "No config for field " ++ path
  | noOperator path => "No corresponding ops for field " ++ path

end RuleFault

inductive Problem where
  /-- No operator of the schema has this name and number of arguments. -/
  | unknownOp (op : String) (arity : Nat) (expr : Json)
  /-- The reasons of the tries that had one. -/
  | notARule (first : RuleFault) (rest : List RuleFault)
  | noField (path : String)
  | noWidget (type : String)
  | logicInValue (expr : Json)
  | badDate (text : String)
  | tooManyArgs (func : String)
  | missingArg (arg func : String)
  | unparsed (expr : Json)
deriving Repr

namespace Problem

def kind : Problem → DiagnosticKind
  | unknownOp .. | logicInValue _ | tooManyArgs _ | unparsed _ => .unrecognizedExpression
  | notARule first _ => first.kind
  | noField _ | noWidget _ => .unresolvedReference
  | badDate _ => .malformedValue
  | missingArg .. => .missingArgument

def message : Problem → String
  | unknownOp op arity _ => "Unknown op " ++ op ++ "/" ++ toString arity
  | notARule first rest => "; ".intercalate ((first :: rest).map RuleFault.message)
  | noField path => "No config for field " ++ path
  | noWidget type => "No widget for type " ++ type
  | logicInValue expr => "Unexpected logic in value: " ++ expr.text
  | badDate text => "Can't convert value " ++ text ++ " as Date"
  | tooManyArgs func => "Too many args for func " ++ func
  | missingArg arg func => "No value for arg " ++ arg ++ " of func " ++ func
  | unparsed expr => "Can't parse logic " ++ expr.text

/-- Unknown operators are reported with the whole expression. -/
def context : Problem → Option String
  | unknownOp _ _ expr => some expr.text
  | _ => none

def diagnostic (p : Problem) : Diagnostic := ⟨p.kind, p.message, p.context⟩

end Problem
end RuleTree
