/-
  RuleTree.Convert.Collaborators — ready-made collaborators and hooks.

  Fields by their path in lower case, widgets from a table, dates shown beside their
  pattern; hooks that look for a key or answer the same to all.
-/

import RuleTree.Convert.Converter
import RuleTree.Text.Lower

namespace RuleTree

/-- Fields by path, letters of either case alike; paths are not cut into segments. -/
def Resolver.caseless (fields : Table Field) : Resolver where
  resolve path := fields.get? (Text.lower path)
  normalize path := Text.lower path

/-- The widget at the field and operator, else at the field, else at `*`; an entry that is
not text stands for no widget. -/
def widgetFromTable (entries : Table Json) (field op : String) : Option String :=
  ([field ++ "/" ++ op, field, "*"].findSome? entries.get?).bind Json.asString?

/-- The pattern and the date in ISO form. -/
def echoFormat (i : Instant) (pattern : String) : String := pattern ++ "|" ++ i.isoMillis

namespace Hook

/-- Takes the list under a key as the arguments. -/
def ofKey (key : String) : Hook := fun e =>
  match e.get? key with
  | some (.arr items) => some items
  | _ => none

/-- Answers the same to every expression, or to every object that has a key. -/
def constant (args : Option (List Json)) (key : Option String) : Hook := fun e =>
  match key with
  | none => args
  | some k => if (e.get? k).isSome then args else none

/-- Takes no expression. -/
def never : Hook := fun _ => none

end Hook
end RuleTree
