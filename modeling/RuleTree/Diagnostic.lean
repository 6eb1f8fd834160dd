/-
  RuleTree.Diagnostic — what is reported about a conversion.
-/

import RuleTree.Doc.Basic

namespace RuleTree

inductive DiagnosticKind where
  | unresolvedReference
  | malformedValue
  | missingArgument
  | unrecognizedExpression
deriving DecidableEq, Repr, Inhabited

namespace DiagnosticKind

def all : List DiagnosticKind :=
  [unresolvedReference, malformedValue, missingArgument, unrecognizedExpression]

def name : DiagnosticKind → String
  | unresolvedReference => "unresolved_reference"
  | malformedValue => "malformed_value"
  | missingArgument => "missing_argument"
  | unrecognizedExpression => "unrecognized_expression"

def code : DiagnosticKind → String
  | unresolvedReference => "E001"
  | malformedValue => "E002"
  | missingArgument => "E003"
  | unrecognizedExpression => "E004"

def ofName? (s : String) : Option DiagnosticKind := all.find? fun k => k.name == s

end DiagnosticKind

structure Diagnostic where
  kind : DiagnosticKind
  message : String
  /-- The expression it is about. -/
  context : Option String := none
deriving DecidableEq, Repr, Inhabited

namespace Diagnostic

def code (d : Diagnostic) : String := d.kind.code

def text (d : Diagnostic) : String :=
  "[" ++ d.code ++ "] " ++ d.message ++
    (match d.context with
      | some c => " in " ++ c
      | none => "")

/-- All of them in one line. -/
def textAll (ds : List Diagnostic) : String := "; ".intercalate (ds.map text)

def toDoc (d : Diagnostic) : Doc :=
  .map (
    [("kind", .str d.kind.name), ("code", .str d.code), ("message", .str d.message)] ++
    (match d.context with
      | some c => [("context", .str c)]
      | none => []))

def countOf (kind : DiagnosticKind) (ds : List Diagnostic) : Nat :=
  (ds.filter fun d => d.kind == kind).length

end Diagnostic
end RuleTree
