/-
  RuleTree.Schema.Encode — a schema as a document.

  Members in order of declaration. A field leaves out its operators when it has no list of
  them, and its widgets and fields when it has none; every other member is written.
-/

import RuleTree.Doc.Basic
import RuleTree.Schema.Basic

namespace RuleTree

open Doc (ofOptional)

def Conjunction.toDoc (c : Conjunction) : Doc := .map [("label", ofOptional c.label)]

def Operator.toDoc (op : Operator) : Doc :=
  .map [
    ("label", ofOptional op.label),
    ("jsonLogic", ofOptional op.name),
    ("jsonLogic2", ofOptional op.secondName),
    ("jsonLogicIsRevArgs", .bool op.reversedArgs),
    ("cardinality", match op.cardinality with
      | some n => .num (.int n)
      | none => .null),
    ("reversedOp", ofOptional op.inverse)]

def asyncFetchToDoc (b : Bool) : Doc := .map [("asyncFetch", .bool b)]

def FuncArg.toDoc (a : FuncArg) : Doc :=
  .map [
    ("label", ofOptional a.label),
    ("type", .str a.type),
    ("defaultValue", match a.default with
      | some v => v.toDoc
      | none => .null),
    ("mainWidget", ofOptional a.mainWidget),
    ("fieldSettings", asyncFetchToDoc a.asyncFetch)]

def Table.toDoc {α : Type} (f : α → Doc) (t : Table α) : Doc :=
  .map (t.map fun (k, v) => (k, f v))

def Func.toDoc (f : Func) : Doc :=
  .map [
    ("label", ofOptional f.label),
    ("jsonLogic", ofOptional f.name),
    ("jsonLogicIsMethod", .bool f.isMethod),
    ("returnType", .str f.returnType),
    ("args", Table.toDoc FuncArg.toDoc f.args)]

def Doc.texts (ss : List String) : Doc := .list (ss.map .str)

def fieldWidgetToDoc (operators : List String) : Doc := .map [("operators", Doc.texts operators)]

mutual

def Field.toDoc : Field → Doc
  | ⟨label, type, operators, mainWidget, widgets, mode, showNot, defaultConjunction,
      asyncFetch, subfields⟩ =>
    .map (
      [("label", ofOptional label), ("type", .str type)] ++
      (match operators with
        | some ops => [("operators", Doc.texts ops)]
        | none => []) ++
      [("mainWidget", ofOptional mainWidget)] ++
      (if widgets.isEmpty then [] else [("widgets", Table.toDoc fieldWidgetToDoc widgets)]) ++
      [("mode", ofOptional (mode.map GroupMode.name)),
       ("showNot", match showNot with
         | some b => .bool b
         | none => .null),
       ("defaultConjunction", ofOptional defaultConjunction),
       ("fieldSettings", asyncFetchToDoc asyncFetch)] ++
      (if subfields.isEmpty then [] else [("subfields", .map (fieldsToDoc subfields))]))

def fieldsToDoc : List (String × Field) → List (String × Doc)
  | [] => []
  | (k, f) :: rest => (k, f.toDoc) :: fieldsToDoc rest

end

def Widget.toDoc (w : Widget) : Doc :=
  .map [("type", .str w.type), ("valueFormat", ofOptional w.valueFormat)]

def Settings.toDoc (s : Settings) : Doc :=
  .map [
    ("fieldSeparator", .str s.separator),
    ("defaultConjunction", ofOptional s.defaultConjunction),
    ("defaultGroupConjunction", ofOptional s.defaultGroupConjunction),
    ("groupOperators", Doc.texts s.groupOperators),
    ("showNot", .bool s.showNot),
    ("jsonLogic", .map [("groupVarKey", .str s.groupVarKey), ("altVarKey", .str s.altVarKey)])]

def Schema.toDoc (s : Schema) : Doc :=
  .map [
    ("conjunctions", Table.toDoc Conjunction.toDoc s.conjunctions),
    ("operators", Table.toDoc Operator.toDoc s.operators),
    ("funcs", Table.toDoc Func.toDoc s.funcs),
    ("fields", .map (fieldsToDoc s.fields)),
    ("widgets", Table.toDoc Widget.toDoc s.widgets),
    ("settings", s.settings.toDoc)]

end RuleTree
