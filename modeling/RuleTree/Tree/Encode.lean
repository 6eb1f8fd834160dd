/-
  RuleTree.Tree.Encode — trees as documents.

  Operands stand in parallel lists of values, sources and types. A rule group leaves out
  its operator when it has none, and the lists when it has no operands; values to fetch
  later are left out where there are none.
-/

import RuleTree.Date.Printer
import RuleTree.Doc.Basic
import RuleTree.Tree.Basic

namespace RuleTree

/-! ## Operands -/

def asyncEntries (async : Option (List Json)) : List (String × Doc) :=
  match async with
  | some items => [("asyncListValues", .list (Json.itemsToDoc items))]
  | none => []

mutual

def Operand.toDoc : Operand → Doc
  | o@(.mk content type async) =>
    .map (
      [("valueSrc", .str o.source.name), ("value", content.toDoc),
       ("valueType", Doc.ofOptional type)] ++ asyncEntries async)

def Content.toDoc : Content → Doc
  | .literal v => v.toDoc
  | .date i => .str i.iso
  | .field path => .str path
  | .call func args => .map [("func", .str func), ("args", .map (argsToDoc args))]

def argsToDoc : List (String × Operand) → List (String × Doc)
  | [] => []
  | (k, o) :: rest => (k, o.toDoc) :: argsToDoc rest

end

/-- The parallel lists of a rule's operands. -/
def operandColumns (args : List Operand) : List (String × Doc) :=
  [("value", .list (args.map fun o => o.content.toDoc)),
   ("valueSrc", .list (args.map fun o => .str o.source.name)),
   ("valueType", .list (args.map fun o => Doc.ofOptional o.type))]

/-! ## Nodes -/

def GroupProps.toDoc (p : GroupProps) : Doc :=
  .map [("conjunction", .str p.conjunction), ("not", .bool p.negated)]

def RuleProps.toDoc (p : RuleProps) : Doc :=
  .map (
    [("field", .str p.field), ("operator", .str p.operator)] ++ operandColumns p.args ++
    asyncEntries p.async)

def RuleGroupProps.toDoc (p : RuleGroupProps) : Doc :=
  .map (
    [("conjunction", .str p.conjunction), ("not", .bool p.negated), ("field", .str p.field),
     ("mode", Doc.ofOptional (p.mode.map GroupMode.name))] ++
    (match p.operator with
      | some op => [("operator", .str op)]
      | none => []) ++
    (if p.args.isEmpty then [] else operandColumns p.args))

mutual

def Node.toDoc : Node String → Doc
  | .group id p cs =>
    .map [("type", .str "group"), ("id", .str id), ("properties", p.toDoc),
      ("children1", .list (nodesToDoc cs))]
  | .rule id p => .map [("type", .str "rule"), ("id", .str id), ("properties", p.toDoc)]
  | .ruleGroup id p cs =>
    .map [("type", .str "rule_group"), ("id", .str id), ("properties", p.toDoc),
      ("children1", .list (nodesToDoc cs))]

def nodesToDoc : List (Node String) → List Doc
  | [] => []
  | n :: rest => n.toDoc :: nodesToDoc rest

end

def Tree.toDoc (t : Tree String) : Doc := t.root.toDoc

end RuleTree
