/-
  RuleTree.Tree.Basic — query trees.

  The root of a tree is always a group.
-/

import RuleTree.Node

namespace RuleTree

structure Tree (ι : Type) where
  id : ι
  props : GroupProps
  children : List (Node ι)

namespace Tree

variable {ι κ : Type}

def root (t : Tree ι) : Node ι := .group t.id t.props t.children

/-- All nodes, depth first. -/
def nodes (t : Tree ι) : List (Node ι) := t.root.nodes

def nodeCount (t : Tree ι) : Nat := t.nodes.length

/-- The first node of a name. -/
def find? [BEq ι] (t : Tree ι) (id : ι) : Option (Node ι) := t.nodes.find? fun n => n.id == id

/-- The names of the rules, depth first. -/
def ruleIds (t : Tree ι) : List ι :=
  (t.nodes.filter fun n => n.kind == .rule).map Node.id

def rename (f : ι → κ) (t : Tree ι) : Tree κ :=
  ⟨f t.id, t.props, Node.renameAll f t.children⟩

def sameShape (t : Tree ι) (u : Tree κ) : Bool := t.root.sameShape u.root

def same [BEq ι] (t u : Tree ι) : Bool := t.root.same u.root

end Tree
end RuleTree
