/-
  RuleTree.Importer.Config — the options of an importer.

  The schema may be named by a file or given as text; the text is never read from or
  written to a document.
-/

import RuleTree.Schema.Decode
import RuleTree.Text.Quoted

namespace RuleTree

structure Config where
  schemaFile : Option String := none
  schemaContent : Option String := none
  /-- Whether problems are to be reported. -/
  warnOnDiagnostics : Bool := true
  /-- Nodes are named by numbers from one on instead of at random. -/
  deterministicIds : Bool := false
deriving DecidableEq, Repr, Inhabited

namespace Config

open Doc

def ofDoc? (d : Doc) : Option Config := do
  match ← d.members? [["schema_file"], ["warn_on_diagnostics"], ["deterministic_ids"]] with
  | [schemaFile, warn, deterministic] =>
    return {
      schemaFile := ← readOptional asText? schemaFile
      warnOnDiagnostics := ← readOr true asBool? warn
      deterministicIds := ← readOr false asBool? deterministic }
  | _ => none

def toDoc (c : Config) : Doc :=
  .map [
    ("schema_file", ofOptional c.schemaFile),
    ("warn_on_diagnostics", .bool c.warnOnDiagnostics),
    ("deterministic_ids", .bool c.deterministicIds)]

/-! ## A report of the options -/

/-- Nothing, or text as `shown`. -/
def shownOptional (shown : String → String) : Option String → String
  | none => "None"
  | some s => "Some(" ++ shown s ++ ")"

def shownBool (b : Bool) : String := if b then "true" else "false"

/-- Members with their values, in braces behind a name. -/
def shownMembers (name : String) (members : List (String × String)) : String :=
  name ++ " \x7b " ++ ", ".intercalate (members.map fun (k, v) => k ++ ": " ++ v) ++ " \x7d"

def report (c : Config) : String :=
  shownMembers "ImporterConfig" [
    ("schema_file", shownOptional Text.quotedPath c.schemaFile),
    ("schema_content", shownOptional Text.quoted c.schemaContent),
    ("warn_on_diagnostics", shownBool c.warnOnDiagnostics),
    ("deterministic_ids", shownBool c.deterministicIds)]

end Config
end RuleTree
