/-
  RuleTree.Schema.Lookup — fields and widgets by path.

  A path that is the name of a top-level field is that field, whatever it holds; any other
  path is walked segment by segment. The canonical form of a path joins its segments with
  the separator.
-/

import RuleTree.Path
import RuleTree.Schema.Basic

namespace RuleTree
namespace Field

/-- The field reached by walking down these names. -/
def walk (f : Field) : List String → Option Field
  | [] => some f
  | name :: rest =>
    match f.subfields.lookup name with
    | some g => walk g rest
    | none => none

end Field

namespace Schema

def resolve (s : Schema) (path : String) : Option Field :=
  match s.fields.get? path with
  | some f => some f
  | none =>
    match Path.segments s.settings.separator path with
    | [] => none
    | name :: rest => (s.fields.get? name).bind fun f => f.walk rest

def normalize (s : Schema) (path : String) : String :=
  if s.fields.has path then path
  else Path.join s.settings.separator (Path.segments s.settings.separator path)

/-- The widget of a field's values under an operator: the first of the field's widgets that
lists the operator, else the field's main one. -/
def widgetFor (s : Schema) (path op : String) : Option String :=
  (s.resolve path).map fun f =>
    match f.widgets.find? fun (_, ops) => ops.contains op with
    | some (name, _) => name
    | none => f.widget

end Schema
end RuleTree
