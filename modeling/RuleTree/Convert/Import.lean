/-
  RuleTree.Convert.Import — expressions imported as trees.

  An expression that says nothing (`null`, `false`, zero, the empty string) has no tree and
  no problems. The root of a tree is a group, with the default conjunction where the
  expression is no group itself. Nodes are numbered while they are made and named at the
  end, so names have no part in what is made.
-/

import RuleTree.Convert.Step

namespace RuleTree

/-- What an import ends with. -/
structure Outcome (ι : Type) where
  tree : Option (Tree ι)
  problems : List Problem
  /-- How many names were drawn. -/
  drawn : Nat

namespace Outcome

variable {ι κ : Type}

/-- Nothing was left out. -/
def isClean (o : Outcome ι) : Bool := o.problems.isEmpty

def diagnostics (o : Outcome ι) : List Diagnostic := o.problems.map Problem.diagnostic

def rename (f : ι → κ) (o : Outcome ι) : Outcome κ :=
  ⟨o.tree.map (Tree.rename f), o.problems, o.drawn⟩

end Outcome

namespace Converter

/-- A group as the tree it is, any other node in a group of its own. -/
def rootOf (c : Converter) : Node Nat → Run (Tree Nat)
  | .group id p cs => Run.pure ⟨id, p, cs⟩
  | n => c.wrap false n

/-- A run of the conversion to a tree, with so many nested steps. -/
def treeN (c : Converter) (limit : Nat) (e : Json) : Run (Option (Tree Nat)) :=
  if e.isTruthy then
    (c.ruleN limit e false none).andThen fun n => (c.rootOf n).bind fun t => Run.pure (some t)
  else Run.pure none

/-- The numbered outcome of a run from zero. -/
def importN (c : Converter) (limit : Nat) (e : Json) : Option (Outcome Nat) :=
  (c.treeN limit e 0).map fun d => ⟨d.value, d.problems, d.next⟩

/-- The tree of an expression, its nodes named by `ids` from the number `start` on; `none`
when hooks ask for conversions nested past the limit. -/
def importTree {ι : Type} (c : Converter) (ids : Nat → ι) (start : Nat) (e : Json) :
    Option (Outcome ι) :=
  (c.importN (c.limit e) e).map (Outcome.rename fun n => ids (start + n))

end Converter
end RuleTree
