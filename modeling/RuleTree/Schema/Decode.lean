/-
  RuleTree.Schema.Decode — a schema read from a document.

  A part of a schema is a map of its members by name, or a list (no `sequence`) of its
  first members in order of declaration; members not given take their defaults, unknown
  ones are passed over, and a member given twice is refused. Tables keep the first place
  and the last value of a repeated name. Nothing (`null`) is fine for optional members
  only, and what is unreadable where it is passed over only.
-/

import RuleTree.Doc.Basic
import RuleTree.Schema.Basic

namespace RuleTree
namespace Doc

/-! ## Reading one document -/

def asBool? : Doc → Option Bool
  | .bool b => some b
  | .plain s => Scalar.toBool? s
  | _ => none

/-- A count below `2^64`. -/
def asCount? : Doc → Option Nat
  | .num (.int n) => if 0 ≤ n then some n.toNat else none
  | .plain s => Scalar.toCount? s
  | _ => none

/-- Nothing, or what `f` reads. -/
def asOptional? {α : Type} (f : Doc → Option α) : Doc → Option (Option α)
  | .null => some none
  | .plain s => if Scalar.isNull s then some none else (f (.plain s)).map some
  | d => (f d).map some

def asList? {α : Type} (f : Doc → Option α) : Doc → Option (List α)
  | .list items | .sequence items => items.mapM f
  | .plain s => if s.isEmpty then some [] else none
  | _ => none

def asTable? {α : Type} (f : Doc → Option α) : Doc → Option (Table α)
  | .map entries => (entries.mapM fun e => (f e.2).map fun v => (e.1, v)).map Table.ofPairs
  | .plain s => if s.isEmpty then some [] else none
  | _ => none

/-! ## Reading the members of a part -/

/-- The documents of the members with these names (each with its other spellings), in this
order. -/
def members? (names : List (List String)) : Doc → Option (List (Option Doc))
  | .map entries =>
    names.mapM fun spellings =>
      match entries.filter fun (k, _) => spellings.contains k with
      | [] => some none
      | [(_, d)] => some (some d)
      | _ => none
  | .list items =>
    if items.length ≤ names.length then
      some (items.map some ++ List.replicate (names.length - items.length) none)
    else none
  | .plain s => if s.isEmpty then some (names.map fun _ => none) else none
  | _ => none

/-- A member that has a default. -/
def readOr {α : Type} (dflt : α) (f : Doc → Option α) : Option Doc → Option α
  | none => some dflt
  | some d => f d

/-- A member that may be nothing. -/
def readOptional {α : Type} (f : Doc → Option α) : Option Doc → Option (Option α)
  | none => some none
  | some d => d.asOptional? f

end Doc

/-! ## Parts of a schema -/

open Doc

def Conjunction.ofDoc? (d : Doc) : Option Conjunction := do
  match ← d.members? [["label"]] with
  | [label] => return { label := ← readOptional asText? label }
  | _ => none

def Operator.ofDoc? (d : Doc) : Option Operator := do
  match ← d.members? [["label"], ["jsonLogic"], ["jsonLogic2"],
      ["jsonLogicIsRevArgs", "_jsonLogicIsRevArgs"], ["cardinality"], ["reversedOp"]] with
  | [label, name, secondName, reversedArgs, cardinality, inverse] =>
    return {
      label := ← readOptional asText? label
      name := ← readOptional asText? name
      secondName := ← readOptional asText? secondName
      reversedArgs := ← readOr false asBool? reversedArgs
      cardinality := ← readOptional asCount? cardinality
      inverse := ← readOptional asText? inverse }
  | _ => none

/-- Whether values are fetched asynchronously. -/
def asyncFetchOfDoc? (d : Doc) : Option Bool := do
  match ← d.members? [["asyncFetch"]] with
  | [asyncFetch] => readOr false asBool? asyncFetch
  | _ => none

def FuncArg.ofDoc? (d : Doc) : Option FuncArg := do
  match ← d.members? [["label"], ["type"], ["defaultValue"], ["mainWidget"],
      ["fieldSettings"]] with
  | [label, type, default, mainWidget, fieldSettings] =>
    return {
      label := ← readOptional asText? label
      type := ← readOr "" asText? type
      default := ← readOptional toJson? default
      mainWidget := ← readOptional asText? mainWidget
      asyncFetch := ← readOr false asyncFetchOfDoc? fieldSettings }
  | _ => none

def Func.ofDoc? (d : Doc) : Option Func := do
  match ← d.members? [["label"], ["jsonLogic"], ["jsonLogicIsMethod"], ["returnType"],
      ["args"]] with
  | [label, name, isMethod, returnType, args] =>
    return {
      label := ← readOptional asText? label
      name := ← readOptional asText? name
      isMethod := ← readOr false asBool? isMethod
      returnType := ← readOr "" asText? returnType
      args := ← readOr [] (asTable? FuncArg.ofDoc?) args }
  | _ => none

def GroupMode.ofName? (s : String) : Option GroupMode :=
  [GroupMode.struct, .some, .array].find? fun m => m.name == s

/-- A mode by its name; a map from the name to nothing is another spelling. -/
def GroupMode.ofDoc? : Doc → Option GroupMode
  | .str s => ofName? s
  | .plain s => ofName? s
  | .map [(s, .null)] => ofName? s
  | _ => none

def fieldWidgetOfDoc? (d : Doc) : Option (List String) := do
  match ← d.members? [["operators"]] with
  | [operators] => readOr [] (asList? asText?) operators
  | _ => none

/-- A field whose fields nest less than the first argument. -/
def Field.ofDocN : Nat → Doc → Option Field
  | 0, _ => none
  | n + 1, d => do
    match ← d.members? [["label"], ["type"], ["operators"], ["mainWidget"], ["widgets"],
        ["mode"], ["showNot"], ["defaultConjunction"], ["fieldSettings"], ["subfields"]] with
    | [label, type, operators, mainWidget, widgets, mode, showNot, defaultConjunction,
        fieldSettings, subfields] =>
      return {
        label := ← readOptional asText? label
        type := ← readOr "" asText? type
        operators := ← readOptional (asList? asText?) operators
        mainWidget := ← readOptional asText? mainWidget
        widgets := ← readOr [] (asTable? fieldWidgetOfDoc?) widgets
        mode := ← readOptional GroupMode.ofDoc? mode
        showNot := ← readOptional asBool? showNot
        defaultConjunction := ← readOptional asText? defaultConjunction
        asyncFetch := ← readOr false asyncFetchOfDoc? fieldSettings
        subfields := ← readOr [] (asTable? (Field.ofDocN n)) subfields }
    | _ => none

def Field.ofDoc? (d : Doc) : Option Field := Field.ofDocN (d.depth + 1) d

def Widget.ofDoc? (d : Doc) : Option Widget := do
  match ← d.members? [["type"], ["valueFormat"]] with
  | [type, valueFormat] =>
    return {
      type := ← readOr "" asText? type
      valueFormat := ← readOptional asText? valueFormat }
  | _ => none

/-- The keys that read a field of an element, and any field. -/
def varKeysOfDoc? (d : Doc) : Option (String × String) := do
  match ← d.members? [["groupVarKey"], ["altVarKey"]] with
  | [groupVarKey, altVarKey] =>
    return (← readOr "var" asText? groupVarKey, ← readOr "$" asText? altVarKey)
  | _ => none

def Settings.ofDoc? (d : Doc) : Option Settings := do
  match ← d.members? [["fieldSeparator"], ["defaultConjunction"], ["defaultGroupConjunction"],
      ["groupOperators"], ["showNot"], ["jsonLogic"]] with
  | [separator, defaultConjunction, defaultGroupConjunction, groupOperators, showNot,
      varKeys] =>
    let separator ← readOr "." asText? separator
    let defaultConjunction ← readOptional asText? defaultConjunction
    let defaultGroupConjunction ← readOptional asText? defaultGroupConjunction
    let groupOperators ← readOr ["some", "all", "none"] (asList? asText?) groupOperators
    let showNot ← readOr true asBool? showNot
    let (groupVarKey, altVarKey) ← readOr ("var", "$") varKeysOfDoc? varKeys
    return { separator, defaultConjunction, defaultGroupConjunction, groupOperators, showNot,
             groupVarKey, altVarKey }
  | _ => none

def Schema.ofDoc? (d : Doc) : Option Schema := do
  match ← d.members? [["conjunctions"], ["operators"], ["funcs"], ["fields"], ["widgets"],
      ["settings"]] with
  | [conjunctions, operators, funcs, fields, widgets, settings] =>
    return {
      conjunctions := ← readOr [] (asTable? Conjunction.ofDoc?) conjunctions
      operators := ← readOr [] (asTable? Operator.ofDoc?) operators
      funcs := ← readOr [] (asTable? Func.ofDoc?) funcs
      fields := ← readOr [] (asTable? Field.ofDoc?) fields
      widgets := ← readOr [] (asTable? Widget.ofDoc?) widgets
      settings := ← readOr {} Settings.ofDoc? settings }
  | _ => none

end RuleTree
