/-
  RuleTree.Schema.Load — schemas and expressions from text and files.

  Text that begins with a brace, blanks apart, is JSON, any other YAML. The format of a
  file follows the extension of its name; a name without one is told by its text. A file is
  read before its name is looked at.
-/

import RuleTree.Json.Reader
import RuleTree.Schema.Decode
import RuleTree.Text.Blank
import RuleTree.Yaml.Reader

namespace RuleTree

inductive LoadError where
  | json
  | yaml
  | io
  | unsupportedFormat (extension : String)
  | invalidExpression
deriving DecidableEq, Repr

/-- The wording of an error, with what the reader had to say about it. -/
def LoadError.message (detail : String) : LoadError → String
  | json => "JSON parsing error: " ++ detail
  | yaml => "YAML parsing error: " ++ detail
  | io => "IO error: " ++ detail
  | unsupportedFormat extension => "Unsupported schema format: " ++ extension
  | invalidExpression => "Invalid expression: " ++ detail

namespace Schema

def ofJsonText (text : String) : Except LoadError Schema :=
  match (JsonText.readDoc? text).bind ofDoc? with
  | some s => .ok s
  | none => .error .json

def ofYamlText (text : String) : Except LoadError Schema :=
  match (Yaml.readDoc? text).bind ofDoc? with
  | some s => .ok s
  | none => .error .yaml

def ofText (text : String) : Except LoadError Schema :=
  match Text.trimStart text.toList with
  | '\x7b' :: _ => ofJsonText text
  | _ => ofYamlText text

/-! ## Files -/

/-- The last component of a file path. -/
def fileName (path : List Char) : List Char :=
  let cs := path.reverse.dropWhile (· == '/')
  (cs.takeWhile (· != '/')).reverse

/-- What follows the last point of a name that does not begin with it. -/
def extension? (path : String) : Option String :=
  let name := fileName path.toList
  if name == ['.', '.'] then none
  else
    let after := (name.reverse.takeWhile (· != '.')).reverse
    let before := name.take (name.length - after.length - 1)
    if after.length == name.length || before.isEmpty then none else some (String.ofList after)

/-- The schema in a file, given how files are read. -/
def ofFile (files : String → Option ByteArray) (path : String) : Except LoadError Schema :=
  match (files path).bind String.fromUTF8? with
  | none => .error .io
  | some text =>
    match extension? path with
    | some "yaml" | some "yml" => ofYamlText text
    | some "json" => ofJsonText text
    | some other => .error (.unsupportedFormat other)
    | none => ofText text

end Schema

/-- The expression in a JSON text. -/
def readExpression (text : String) : Except LoadError Json :=
  match JsonText.readJson? text with
  | some e => .ok e
  | none => .error .invalidExpression

end RuleTree
