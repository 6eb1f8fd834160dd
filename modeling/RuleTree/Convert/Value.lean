/-
  RuleTree.Convert.Value — values without a function call.

  A value is a field (`fieldValue?`) or a literal typed by the target's widget
  (`literalValue`). Numbers for a time are times of day; text for a date must be a date,
  and is one when it is written in the exact ISO form; a widget with a display pattern
  shows its dates by it.
-/

import RuleTree.Convert.Converter
import RuleTree.Date.Reader
import RuleTree.Number.Shortest
import RuleTree.Operand
import RuleTree.Operation
import RuleTree.Problem

namespace RuleTree

/-! ## Times of day -/

/-- A whole number without a fraction, any other in full. -/
def clockNumber (x : Binary) : String :=
  match x.toInt? with
  | some n => toString n
  | none => Layout.plain.text x

/-- The hour, minute and second of a count of seconds. -/
def clockParts (seconds : Binary) : Int × Int × Binary :=
  let hours := (seconds.div (Binary.ofInt 3600)).getD seconds
  let minutes := (seconds.div (Binary.ofInt 60)).getD seconds
  (hours.floor % 24, minutes.floor % 60, seconds.modulo 60)

/-- A count of seconds as a time of day, on the first day of 1970 under a pattern. -/
def timeOfDay (format : Instant → String → String) (seconds : Binary)
    (pattern : Option String) : String :=
  let (h, m, s) := clockParts seconds
  let plain := toString h ++ ":" ++ toString m ++ ":" ++ clockNumber s
  match pattern with
  | none => plain
  | some p =>
    if s.floor < 60 then format ⟨⟨1970, 1, 1⟩, h.toNat, m.toNat, s.floor.toNat, 0⟩ p else plain

namespace Converter

/-! ## Fields -/

/-- The field a value reads; `none` when it reads none. -/
def fieldValue? (c : Converter) (e : Json) (parent : Option String) :
    Option (Except Problem Operand) :=
  match e.operation? with
  | some ⟨name, .str path :: _⟩ =>
    if c.index.isVarKey name then
      let path := c.composePath parent path
      match c.fields.resolve path with
      | some f => some (.ok (.field path f.type))
      | none => some (.error (.noField path))
    else none
  | _ => none

/-! ## Literals -/

/-- The literal or date a value is, before a display pattern is applied. -/
def content (c : Converter) (e : Json) (t : Target) (w : Widget) : Except Problem Content :=
  if t.type == "time" then
    match e.asBinary? with
    | some x => .ok (.literal (.str (timeOfDay c.format x w.valueFormat)))
    | none => .ok (.literal e)
  else if t.type == "date" || t.type == "datetime" then
    match e with
    | .str text =>
      if text.isEmpty then .ok (.literal e)
      else match Instant.read? text with
        | some i => .ok (if i.isoMillis == text then .date i else .literal e)
        | none => .error (.badDate text)
    | _ => .ok (.literal e)
  else .ok (.literal e)

/-- A date under the widget's display pattern. -/
def shown (c : Converter) (w : Widget) : Content → Content
  | .date i =>
    match w.valueFormat with
    | some p => .literal (.str (c.format i p))
    | none => .date i
  | x => x

/-- The value of a literal or date. -/
def contentJson : Content → Json
  | .literal v => v
  | .date i => .str i.isoMillis
  | .field path => .str path
  | .call func _ => .str func

/-- Values to fetch later: the items of a list, or the value itself when there is one. -/
def asyncValues (t : Target) (x : Content) : Option (List Json) :=
  let v := contentJson x
  if t.asyncFetch && v.isTruthy then some v.argList else none

def literalValue (c : Converter) (e : Json) (t : Target) : Except Problem Operand :=
  match c.schema.widgets.get? t.widgetName with
  | none => .error (.noWidget t.type)
  | some w =>
    if e.isOperation then .error (.logicInValue e)
    else match c.content e t w with
      | .error p => .error p
      | .ok x =>
        let x := c.shown w x
        .ok (.mk x (some w.type) (asyncValues t x))

end Converter
end RuleTree
