/-
  RuleTree.Convert.Wrap — groups around one node, and having clauses put in place.

  A having clause must be a rule group on its collection (`rehome`): a group becomes one
  under its own name, and takes in the children of rule groups on the same collection that
  say the same as it; any other node is wrapped.
-/

import RuleTree.Convert.Run
import RuleTree.Convert.Converter
import RuleTree.Tree.Basic

namespace RuleTree

/-- A rule group by its parts. -/
structure RuleGroup where
  id : Nat
  props : RuleGroupProps
  children : List (Node Nat)

def RuleGroup.toNode (g : RuleGroup) : Node Nat := .ruleGroup g.id g.props g.children

namespace Converter

/-- A group of one node with the default conjunction. -/
def wrap (c : Converter) (negated : Bool) (n : Node Nat) : Run (Tree Nat) :=
  Run.draw.bind fun id => Run.pure ⟨id, ⟨c.schema.defaultConjunction, negated⟩, [n]⟩

/-- A rule group of one node on a collection, with the conjunction given or else the
default one for rule groups on the collection. -/
def wrapOn (c : Converter) (path : String) (f : Field) (conjunction : Option String)
    (n : Node Nat) : Run RuleGroup :=
  Run.draw.bind fun id =>
    let props : RuleGroupProps := {
      conjunction := conjunction.getD (c.schema.groupConjunction (some f))
      field := path
      mode := f.mode }
    Run.pure ⟨id, props, [n]⟩

/-- The children of a rule group on the same collection that says the same as its group;
any other node as it is. -/
def dissolve (path conjunction : String) : Node Nat → List (Node Nat)
  | n@(.ruleGroup _ p cs) =>
    if p.field == path && p.operator.isNone && !p.negated && p.conjunction == conjunction then cs
    else [n]
  | n => [n]

/-- A having clause as a rule group on its collection. -/
def rehome (c : Converter) (path : String) (f : Field) : Node Nat → Run RuleGroup
  | n@(.ruleGroup id p cs) =>
    if p.field == path then Run.pure ⟨id, p, cs⟩ else c.wrapOn path f none n
  | .group id p cs =>
    Run.pure ⟨id, { conjunction := p.conjunction, field := path, mode := f.mode },
      cs.flatMap (dissolve path p.conjunction)⟩
  | n => c.wrapOn path f none n

end Converter
end RuleTree
