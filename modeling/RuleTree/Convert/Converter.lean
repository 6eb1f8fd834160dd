/-
  RuleTree.Convert.Converter — what a conversion works with.

  A schema with its index, the hooks of its functions, and the collaborators it may be
  given in place of its own: how paths name fields, which widget types a value, how dates
  are shown. `Converter.ofSchema` takes the schema's own.
-/

import RuleTree.Date.Pattern
import RuleTree.Index
import RuleTree.Schema.Lookup

namespace RuleTree

/-! ## Collaborators -/

/-- How paths name fields. -/
structure Resolver where
  resolve : String → Option Field
  normalize : String → String

/-- Given a raw expression: the arguments of the function it is attached to, or nothing
when the expression is not a call of it. -/
abbrev Hook := Json → Option (List Json)

/-- Hooks by the key of their function. -/
abbrev Hooks := Table Hook

inductive SchemaError where
  | funcNotFound (func : String)
deriving DecidableEq, Repr

def SchemaError.message : SchemaError → String
  | .funcNotFound func => "Function not found: " ++ func

/-- Attach a hook to a function of the schema, in place of the one it has. -/
def Hooks.attach (hooks : Hooks) (s : Schema) (func : String) (hook : Hook) :
    Except SchemaError Hooks :=
  if s.funcs.has func then .ok (Table.put func hook hooks) else .error (.funcNotFound func)

structure Converter where
  schema : Schema
  index : Index
  hooks : Hooks
  fields : Resolver
  /-- The widget of a field's values under an operator. -/
  widgetFor : String → String → Option String
  /-- A date under a display pattern. -/
  format : Instant → String → String
  /-- How many conversions may be nested beyond the size of the expression. Only hooks can
  ask for any: all other conversions are of parts of the expression. -/
  nesting : Nat

namespace Schema

def resolver (s : Schema) : Resolver := ⟨s.resolve, s.normalize⟩

end Schema

namespace Converter

def ofSchema (s : Schema) (hooks : Hooks) : Converter where
  schema := s
  index := Index.ofSchema s
  hooks := hooks
  fields := s.resolver
  widgetFor := s.widgetFor
  format := Pattern.format
  nesting := 10000

def separator (c : Converter) : String := c.schema.settings.separator

/-- A path relative to a parent, in canonical form. -/
def composePath (c : Converter) (parent : Option String) (path : String) : String :=
  match parent with
  | some p => c.fields.normalize (p ++ c.separator ++ path)
  | none => c.fields.normalize path

end Converter

/-! ## What a value is converted for -/

/-- The type a value is wanted in, and the widget it is typed by. -/
structure Target where
  type : String
  /-- The widget where no other is given. -/
  mainWidget : String
  widget : Option String := none
  asyncFetch : Bool := false
deriving Repr, DecidableEq

namespace Target

/-- Values of a rule on a field. -/
def ofField (f : Field) (widget : Option String) : Target :=
  ⟨f.type, f.widget, widget, f.asyncFetch⟩

/-- Values of an argument. -/
def ofArg (a : FuncArg) : Target := ⟨a.type, a.widget, none, a.asyncFetch⟩

def widgetName (t : Target) : String := t.widget.getD t.mainWidget

end Target

end RuleTree
