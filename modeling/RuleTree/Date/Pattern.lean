/-
  RuleTree.Date.Pattern — display patterns for dates and times.

  A pattern names parts by runs of letters (`YYYY-MM-DD HH:mm`); text in brackets is copied.
  It stands for directive text (`directives`): the longest token first, percent signs
  doubled. A pattern with a bracket that is never closed stands for none, and then an instant
  is shown in ISO form.
-/

import RuleTree.Date.Directive

namespace RuleTree.Pattern

/-- Tokens and the directives they stand for, longer ones before shorter ones. -/
def tokens : List (List Char × List Char) :=
  [("YYYY", "%Y"), ("MMMM", "%B"), ("dddd", "%A"), ("MMM", "%b"), ("ddd", "%a"),
    ("SSS", "%3f"), ("YY", "%y"), ("MM", "%m"), ("DD", "%d"), ("HH", "%H"), ("hh", "%I"),
    ("mm", "%M"), ("ss", "%S"), ("ZZ", "%z"), ("M", "%-m"), ("D", "%-d"), ("H", "%-H"),
    ("h", "%-I"), ("m", "%-M"), ("s", "%-S"), ("A", "%p"), ("a", "%P"), ("Z", "%:z"),
    ("X", "%s")].map fun (t, d) => (t.toList, d.toList)

/-- The token at the start of a text. -/
def tokenAt? (cs : List Char) : Option (List Char × List Char) :=
  tokens.find? fun (t, _) => t.isPrefixOf cs

/-- A character as directive text. -/
def literal (c : Char) : List Char := if c = '%' then ['%', '%'] else [c]

/-- Where the reading of a pattern stands: in running text, with some characters of the last
token still to pass, or in brackets. -/
inductive Place where
  | running (skip : Nat)
  | bracket
deriving DecidableEq, Repr

/-- Directive text for the rest of a pattern; `none` when a bracket stays open. -/
def directivesFrom : Place → List Char → Option (List Char)
  | .running _, [] => some []
  | .bracket, [] => none
  | .bracket, c :: cs =>
    if c = ']' then directivesFrom (.running 0) cs
    else (directivesFrom .bracket cs).map (literal c ++ ·)
  | .running (skip + 1), _ :: cs => directivesFrom (.running skip) cs
  | .running 0, c :: cs =>
    if c = '[' then directivesFrom .bracket cs
    else match tokenAt? (c :: cs) with
      | some (t, d) => (directivesFrom (.running (t.length - 1)) cs).map (d ++ ·)
      | none => (directivesFrom (.running 0) cs).map (literal c ++ ·)

inductive Error where
  /-- A bracket is never closed. -/
  | unterminated (pattern : String)
  /-- The directive text holds a percent sign that begins no directive. -/
  | unsupported (pattern directives : String)
deriving DecidableEq, Repr

def Error.message : Error → String
  | .unterminated pattern => "Invalid value format '" ++ pattern ++ "': unterminated '['"
  | .unsupported pattern directives =>
    "Invalid value format '" ++ pattern ++ "': unsupported strftime '" ++ directives ++ "'"

/-- The directive text of a pattern. -/
def directives (pattern : String) : Except Error String :=
  match directivesFrom (.running 0) pattern.toList with
  | none => .error (.unterminated pattern)
  | some cs =>
    if (Directive.items cs).any (· == .invalid) then
      .error (.unsupported pattern (String.ofList cs))
    else .ok (String.ofList cs)

/-- An instant under a pattern. -/
def format (i : Instant) (pattern : String) : String :=
  match directives pattern with
  | .ok text => String.ofList (Directive.render i text.toList)
  | .error _ => i.isoOffset

end RuleTree.Pattern
