/-
  RuleTree.Node — nodes of a query tree.

  A group joins its children by a conjunction; a rule holds for a field, an operator and
  operands; a rule group is a rule over a collection, its children being rules about the
  elements. Nodes carry names of any type `ι`: numbers while a tree is being made, text
  once it is done (`rename`).
  - `nodes` lists a node and its descendants depth first; `ids` their names.
  - `sameShape` compares two nodes but for the names.
  - `nodes_trans`: descendants of descendants are descendants; `nodes_rename`: renaming
    changes none but their names.
-/

import RuleTree.Operand
import RuleTree.Schema.Basic

namespace RuleTree

structure GroupProps where
  conjunction : String
  negated : Bool := false
deriving DecidableEq, Repr, Inhabited

structure RuleProps where
  field : String
  operator : String
  args : List Operand := []
  /-- Values to fetch later. -/
  async : Option (List Json) := none

structure RuleGroupProps where
  conjunction : String
  negated : Bool := false
  /-- The collection. -/
  field : String
  mode : Option GroupMode := none
  /-- The operator on the collection itself. -/
  operator : Option String := none
  args : List Operand := []

inductive Node (ι : Type) where
  | group (id : ι) (props : GroupProps) (children : List (Node ι))
  | rule (id : ι) (props : RuleProps)
  | ruleGroup (id : ι) (props : RuleGroupProps) (children : List (Node ι))

inductive NodeKind where
  | group
  | rule
  | ruleGroup
deriving DecidableEq, Repr

def NodeKind.name : NodeKind → String
  | group => "group"
  | rule => "rule"
  | ruleGroup => "rule_group"

/-! ## Equality of properties -/

def RuleProps.same (p q : RuleProps) : Bool :=
  p.field == q.field && p.operator == q.operator && sameOperands p.args q.args &&
    sameOptional p.async q.async

def RuleGroupProps.same (p q : RuleGroupProps) : Bool :=
  p.conjunction == q.conjunction && p.negated == q.negated && p.field == q.field &&
    p.mode == q.mode && p.operator == q.operator && sameOperands p.args q.args

namespace Node

variable {ι κ : Type}

/-! ## Parts -/

def id : Node ι → ι
  | group i _ _ | rule i _ | ruleGroup i _ _ => i

def kind : Node ι → NodeKind
  | group .. => .group
  | rule .. => .rule
  | ruleGroup .. => .ruleGroup

def children : Node ι → List (Node ι)
  | group _ _ cs | ruleGroup _ _ cs => cs
  | rule .. => []

/-- The field of a rule or the collection of a rule group. -/
def field? : Node ι → Option String
  | group .. => none
  | rule _ p => some p.field
  | ruleGroup _ p _ => some p.field

def operator? : Node ι → Option String
  | group .. => none
  | rule _ p => some p.operator
  | ruleGroup _ p _ => p.operator

def conjunction? : Node ι → Option String
  | group _ p _ => some p.conjunction
  | rule .. => none
  | ruleGroup _ p _ => some p.conjunction

/-- Rules are never negated themselves. -/
def isNegated : Node ι → Bool
  | group _ p _ => p.negated
  | rule .. => false
  | ruleGroup _ p _ => p.negated

def isContainer : Node ι → Bool
  | rule .. => false
  | _ => true

def args : Node ι → List Operand
  | group .. => []
  | rule _ p => p.args
  | ruleGroup _ p _ => p.args

/-! ## Descendants -/

mutual

/-- The node and its descendants, depth first. -/
def nodes : Node ι → List (Node ι)
  | n@(group _ _ cs) => n :: nodesAll cs
  | n@(rule _ _) => [n]
  | n@(ruleGroup _ _ cs) => n :: nodesAll cs

def nodesAll : List (Node ι) → List (Node ι)
  | [] => []
  | n :: rest => n.nodes ++ nodesAll rest

end

def ids (n : Node ι) : List ι := n.nodes.map id

mutual

/-- The node under other names. -/
def rename (f : ι → κ) : Node ι → Node κ
  | group i p cs => group (f i) p (renameAll f cs)
  | rule i p => rule (f i) p
  | ruleGroup i p cs => ruleGroup (f i) p (renameAll f cs)

def renameAll (f : ι → κ) : List (Node ι) → List (Node κ)
  | [] => []
  | n :: rest => n.rename f :: renameAll f rest

end

/-! ## Shape -/

/-- Two nodes are of one kind and have equal properties. -/
def sameProps : Node ι → Node κ → Bool
  | group _ p _, group _ q _ => p == q
  | rule _ p, rule _ q => p.same q
  | ruleGroup _ p _, ruleGroup _ q _ => p.same q
  | _, _ => false

mutual

def sameShape : Node ι → Node κ → Bool
  | group _ p cs, group _ q ds => p == q && sameShapes cs ds
  | rule _ p, rule _ q => p.same q
  | ruleGroup _ p cs, ruleGroup _ q ds => p.same q && sameShapes cs ds
  | _, _ => false

def sameShapes : List (Node ι) → List (Node κ) → Bool
  | [], [] => true
  | n :: ns, m :: ms => n.sameShape m && sameShapes ns ms
  | _, _ => false

end

mutual

/-- Equality of nodes, names and all. -/
def same [BEq ι] : Node ι → Node ι → Bool
  | group i p cs, group j q ds => i == j && p == q && sames cs ds
  | rule i p, rule j q => i == j && p.same q
  | ruleGroup i p cs, ruleGroup j q ds => i == j && p.same q && sames cs ds
  | _, _ => false

def sames [BEq ι] : List (Node ι) → List (Node ι) → Bool
  | [], [] => true
  | n :: ns, m :: ms => n.same m && sames ns ms
  | _, _ => false

end

/-! ## Laws of descendants -/

theorem mem_nodesAll {d : Node ι} {ns : List (Node ι)} :
    d ∈ nodesAll ns ↔ ∃ n ∈ ns, d ∈ n.nodes := by
  induction ns with
  | nil => simp [nodesAll]
  | cons n rest ih => simp [nodesAll, ih]

theorem nodesAll_append (ns ms : List (Node ι)) : nodesAll (ns ++ ms) = nodesAll ns ++ nodesAll ms := by
  induction ns with
  | nil => rfl
  | cons n rest ih => simp [nodesAll, ih]

theorem mem_nodes {d n : Node ι} : d ∈ n.nodes ↔ d = n ∨ d ∈ nodesAll n.children := by
  cases n <;> simp [nodes, children, nodesAll]

theorem self_mem_nodes (n : Node ι) : n ∈ n.nodes := mem_nodes.mpr (.inl rfl)

mutual

/-- The descendants of a descendant are descendants. -/
theorem nodes_trans {d m : Node ι} : ∀ n : Node ι, m ∈ n.nodes → d ∈ m.nodes → d ∈ n.nodes
  | group i p cs, hm, hd => by
    rcases mem_nodes.mp hm with rfl | hm
    · exact hd
    · exact mem_nodes.mpr (.inr (nodesAll_trans cs hm hd))
  | rule i p, hm, hd => by
    rcases mem_nodes.mp hm with rfl | hm
    · exact hd
    · exact absurd hm List.not_mem_nil
  | ruleGroup i p cs, hm, hd => by
    rcases mem_nodes.mp hm with rfl | hm
    · exact hd
    · exact mem_nodes.mpr (.inr (nodesAll_trans cs hm hd))

theorem nodesAll_trans {d m : Node ι} :
    ∀ ns : List (Node ι), m ∈ nodesAll ns → d ∈ m.nodes → d ∈ nodesAll ns
  | [], hm, _ => absurd hm List.not_mem_nil
  | n :: rest, hm, hd => by
    rw [nodesAll, List.mem_append] at hm ⊢
    exact hm.imp (nodes_trans n · hd) (nodesAll_trans rest · hd)

end

mutual

theorem nodes_rename (f : ι → κ) : ∀ n : Node ι, (n.rename f).nodes = n.nodes.map (rename f)
  | group i p cs => by simp [rename, nodes, nodesAll_renameAll f cs]
  | rule i p => by simp [rename, nodes]
  | ruleGroup i p cs => by simp [rename, nodes, nodesAll_renameAll f cs]

theorem nodesAll_renameAll (f : ι → κ) :
    ∀ ns : List (Node ι), nodesAll (renameAll f ns) = (nodesAll ns).map (rename f)
  | [] => rfl
  | n :: rest => by simp [renameAll, nodesAll, nodes_rename f n, nodesAll_renameAll f rest]

end

@[simp] theorem field?_rename (f : ι → κ) (n : Node ι) : (n.rename f).field? = n.field? := by
  cases n <;> rfl

@[simp] theorem operator?_rename (f : ι → κ) (n : Node ι) : (n.rename f).operator? = n.operator? := by
  cases n <;> rfl

end Node
end RuleTree
