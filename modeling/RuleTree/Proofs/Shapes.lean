/-
  RuleTree.Proofs.Shapes — the shape of a tree is all of it but the names.

  Two nodes are compared by their kinds, their properties and their children, one by one. The
  walk over a node, depth first, has the node before its children, so that it tells the whole
  shape when it tells of each node how many children it has (`sameShape_iff_walks`): where one
  child ends and the next begins need not be said.
  - `same_rename_const`: nodes are of one shape when they are equal once all have one name.
  - `equivalenceOn_sameShape`: to be of one shape is an equivalence, as equality of properties is,
  when no call of a tree gives two arguments one name; no tree over a schema does (`keyed_of_backed`).

  Proved of all trees: `sameShape_iff_same_but_for_names`.
-/

import RuleTree.Proofs.Backing
import RuleTree.Proofs.Equality

namespace RuleTree

/-! ## Node by node -/

namespace Node

variable {ι κ : Type}

/-- Of one kind, with equal properties and as many children. -/
structure Resembles (n : Node ι) (m : Node κ) : Prop where
  props : n.sameProps m = true
  width : n.children.length = m.children.length

section Induction

variable {P : Node ι → Prop}

mutual

/-- What is true of a node whenever it is true of its children is true of all nodes. -/
theorem forall_of_children (h : ∀ n, (∀ c ∈ n.children, P c) → P n) : ∀ n : Node ι, P n
  | group _ _ cs => h _ (forall_mem_of_children h cs)
  | rule _ _ => h _ nofun
  | ruleGroup _ _ cs => h _ (forall_mem_of_children h cs)

theorem forall_mem_of_children (h : ∀ n, (∀ c ∈ n.children, P c) → P n) : ∀ ns : List (Node ι), ∀ n ∈ ns, P n
  | [] => nofun
  | n :: rest => List.forall_mem_cons.mpr ⟨forall_of_children h n, forall_mem_of_children h rest⟩

end

end Induction

theorem nodes_eq (n : Node ι) : n.nodes = n :: nodesAll n.children := by
  cases n <;> rfl

theorem sameShape_eq (n : Node ι) (m : Node κ) :
    n.sameShape m = (n.sameProps m && sameShapes n.children m.children) := by
  cases n <;> cases m <;> simp [sameShape, sameProps, children, sameShapes]

theorem sameShapes_iff {ns : List (Node ι)} {ms : List (Node κ)} :
    sameShapes ns ms = true ↔ List.Forall₂ (fun n m => n.sameShape m = true) ns ms := by
  induction ns generalizing ms with
  | nil => cases ms <;> simp [sameShapes]
  | cons n rest ih => cases ms <;> simp [sameShapes, ih]

/-! ## The walk tells the shape -/

section Walks

variable {cs : List (Node ι)} {ds : List (Node κ)}

theorem forall₂_nodesAll (h : List.Forall₂ (fun c d => List.Forall₂ Resembles c.nodes d.nodes) cs ds) :
    List.Forall₂ Resembles (nodesAll cs) (nodesAll ds) := by
  induction h with
  | nil => exact .nil
  | cons hcd _ ih => exact List.rel_append hcd ih

theorem walks_of_sameShape (n : Node ι) : ∀ m : Node κ, n.sameShape m = true →
    List.Forall₂ Resembles n.nodes m.nodes := by
  induction n using forall_of_children with
  | h n ih =>
    intro m h
    rw [sameShape_eq, Bool.and_eq_true, sameShapes_iff] at h
    obtain ⟨hprops, hchildren⟩ := h
    rw [nodes_eq, nodes_eq]
    refine .cons ⟨hprops, hchildren.length_eq⟩ (forall₂_nodesAll ?_)
    exact ((List.forall₂_and_left _ _).mpr ⟨ih, hchildren⟩).imp fun c d h => h.1 d h.2

/-- A walk over nodes that goes on tells their shapes, when each of their walks does. -/
theorem sameShapes_of_walks
    (ih : ∀ c ∈ cs, ∀ (m : Node κ) xs ys, List.Forall₂ Resembles (c.nodes ++ xs) (m.nodes ++ ys) →
      c.sameShape m = true ∧ List.Forall₂ Resembles xs ys)
    (hlen : cs.length = ds.length) {xs : List (Node ι)} {ys : List (Node κ)}
    (h : List.Forall₂ Resembles (nodesAll cs ++ xs) (nodesAll ds ++ ys)) :
    sameShapes cs ds = true ∧ List.Forall₂ Resembles xs ys := by
  induction cs generalizing ds with
  | nil =>
    cases ds with
    | nil => exact ⟨rfl, h⟩
    | cons d ds => cases hlen
  | cons c cs ihcs =>
    cases ds with
    | nil => cases hlen
    | cons d ds =>
      obtain ⟨hc, hcs⟩ := List.forall_mem_cons.mp ih
      rw [nodesAll, nodesAll, List.append_assoc, List.append_assoc] at h
      obtain ⟨hshape, hrest⟩ := hc d _ _ h
      obtain ⟨hshapes, hxs⟩ := ihcs hcs (Nat.succ.inj hlen) hrest
      exact ⟨by rw [sameShapes, hshape, hshapes]; rfl, hxs⟩

theorem sameShape_of_walks (n : Node ι) : ∀ (m : Node κ) xs ys,
    List.Forall₂ Resembles (n.nodes ++ xs) (m.nodes ++ ys) →
      n.sameShape m = true ∧ List.Forall₂ Resembles xs ys := by
  induction n using forall_of_children with
  | h n ih =>
    intro m xs ys h
    rw [nodes_eq, nodes_eq, List.cons_append, List.cons_append, List.forall₂_cons] at h
    obtain ⟨hnm, hrest⟩ := h
    obtain ⟨hshapes, hxs⟩ := sameShapes_of_walks ih hnm.width hrest
    exact ⟨by rw [sameShape_eq, hnm.props, hshapes]; rfl, hxs⟩

/-- Nodes are of one shape when their walks are alike, node by node. -/
theorem sameShape_iff_walks (n : Node ι) (m : Node κ) :
    n.sameShape m = true ↔ List.Forall₂ Resembles n.nodes m.nodes := by
  constructor
  · intro h
    exact walks_of_sameShape n m h
  · intro h
    exact (sameShape_of_walks n m [] [] (by simpa using h)).1

end Walks

/-! ## Shape is equality but for the names -/

mutual

/-- Nodes are of one shape when they are equal under one name for all. -/
theorem same_rename_const (x : String) :
    ∀ (n : Node ι) (m : Node κ), (n.rename fun _ => x).same (m.rename fun _ => x) = n.sameShape m
  | group i p cs, m => by
    cases m with
    | group j q ds => simp [rename, same, sameShape, sames_renameAll_const x cs ds]
    | _ => rfl
  | rule i p, m => by
    cases m with
    | rule j q => simp [rename, same, sameShape]
    | _ => rfl
  | ruleGroup i p cs, m => by
    cases m with
    | ruleGroup j q ds => simp [rename, same, sameShape, sames_renameAll_const x cs ds]
    | _ => rfl

theorem sames_renameAll_const (x : String) : ∀ (ns : List (Node ι)) (ms : List (Node κ)),
    sames (renameAll (fun _ => x) ns) (renameAll (fun _ => x) ms) = sameShapes ns ms
  | [], [] => rfl
  | [], _ :: _ => rfl
  | _ :: _, [] => rfl
  | n :: ns, m :: ms => by
    simp only [renameAll, sames, sameShapes, same_rename_const x n m, sames_renameAll_const x ns ms]

end

/-! ## Shape is an equivalence -/

/-- The calls of a node and of those below it name each argument once. -/
def Keyed (n : Node ι) : Prop := ∀ d ∈ n.nodes, ∀ o ∈ d.args, o.Keyed

theorem equivalenceOn_sameProps :
    EquivalenceOn (fun n : Node ι => ∀ o ∈ n.args, o.Keyed) fun n m => n.sameProps m = true where
  refl n h := by
    cases n with
    | group i p cs => simp [sameProps]
    | rule i p => exact RuleProps.equivalenceOn_same.refl p h
    | ruleGroup i p cs => exact RuleGroupProps.equivalenceOn_same.refl p h
  symm n m hn hm h := by
    cases n with
    | group i p cs =>
      cases m with
      | group j q ds =>
        rw [sameProps, beq_iff_eq] at h ⊢
        exact h.symm
      | _ => cases h
    | rule i p =>
      cases m with
      | rule j q => exact RuleProps.equivalenceOn_same.symm p q hn hm h
      | _ => cases h
    | ruleGroup i p cs =>
      cases m with
      | ruleGroup j q ds => exact RuleGroupProps.equivalenceOn_same.symm p q hn hm h
      | _ => cases h
  trans n m l hn hm hl h h' := by
    cases n with
    | group i p cs =>
      cases m with
      | group j q ds =>
        cases l with
        | group k r es =>
          rw [sameProps, beq_iff_eq] at h h' ⊢
          exact h.trans h'
        | _ => cases h'
      | _ => cases h
    | rule i p =>
      cases m with
      | rule j q =>
        cases l with
        | rule k r => exact RuleProps.equivalenceOn_same.trans p q r hn hm hl h h'
        | _ => cases h'
      | _ => cases h
    | ruleGroup i p cs =>
      cases m with
      | ruleGroup j q ds =>
        cases l with
        | ruleGroup k r es => exact RuleGroupProps.equivalenceOn_same.trans p q r hn hm hl h h'
        | _ => cases h'
      | _ => cases h

theorem equivalenceOn_sameShape : EquivalenceOn Keyed fun n m : Node ι => n.sameShape m = true := by
  have hnode := equivalenceOn_sameProps.and (.eqOn fun n : Node ι => n.children.length)
  refine (hnode.forall₂.on nodes).congr fun n m => ?_
  rw [sameShape_iff_walks]
  exact ⟨fun h => h.imp fun _ _ h => ⟨h.props, h.width⟩, fun h => h.imp fun _ _ h => ⟨h.1, h.2⟩⟩

theorem kind_eq_of_sameProps {n : Node ι} {m : Node κ} (h : n.sameProps m = true) : n.kind = m.kind := by
  cases n <;> cases m <;> first | rfl | cases h

/-- The name and the properties of a rule. -/
def rule? : Node ι → Option (ι × RuleProps)
  | rule i p => some (i, p)
  | _ => none

end Node

/-! ## Trees -/

theorem Operand.keyed_of_backed {schema : Schema} (hd : schema.DistinctArgs) {o : Operand} (h : o.Backed schema) :
    o.Keyed := by
  induction h with
  | literal => exact .mk .nil nofun
  | date => exact .mk .nil nofun
  | field _ => exact .mk .nil nofun
  | call hfunc hnames _ ih => exact .mk (hnames ▸ hd _ _ hfunc) ih

namespace Tree

variable {ι : Type}

/-- The calls of a tree name each argument once. -/
def Keyed (t : Tree ι) : Prop := t.root.Keyed

/-- The rules, depth first. -/
def rules (t : Tree ι) : List (ι × RuleProps) := t.nodes.filterMap Node.rule?

theorem ruleIds_eq (t : Tree ι) : t.ruleIds = t.rules.map Prod.fst := by
  unfold ruleIds rules
  induction t.nodes with
  | nil => rfl
  | cons n rest ih =>
    cases n with
    | rule i p => exact congrArg (i :: ·) ih
    | _ => exact ih

/-- A tree whose calls have the arguments their functions declare is such a tree. -/
theorem keyed_of_backed {schema : Schema} (hd : schema.DistinctArgs) {t : Tree ι}
    (h : ∀ n ∈ t.nodes, n.Backed schema) : t.Keyed := by
  intro n hn o ho
  have hback := h n hn
  cases n with
  | group i p cs => cases ho
  | rule i p => exact Operand.keyed_of_backed hd (hback.args o ho)
  | ruleGroup i p cs => exact Operand.keyed_of_backed hd (hback.args o ho)

/-- Trees are of one shape when they are equal once all names are replaced by one. So to be of one
shape is an equivalence, as equality of operands is; and trees of one shape have as many nodes,
at each place of the walk nodes of one kind with equal properties, and so the same rules but for
their names. -/
theorem sameShape_iff_same_but_for_names (x : String) :
    (∀ t u : Tree ι, t.sameShape u = true ↔ (t.rename fun _ => x).same (u.rename fun _ => x) = true) ∧
      Equivalence (fun t u : {t : Tree ι // t.Keyed} => t.1.sameShape u.1 = true) ∧
      ∀ t u : Tree ι, t.sameShape u = true →
        t.nodeCount = u.nodeCount ∧
          List.Forall₂ (fun n m => n.kind = m.kind ∧ n.sameProps m = true) t.nodes u.nodes ∧
          List.Forall₂ (fun r s => r.2.same s.2 = true) t.rules u.rules := by
  refine ⟨fun t u => ?_, (Node.equivalenceOn_sameShape.on root).equivalence, fun t u h => ?_⟩
  · have hequal := Node.same_rename_const x t.root u.root
    rw [sameShape, ← hequal]
    rfl
  · have hwalks := (Node.sameShape_iff_walks t.root u.root).mp h
    refine ⟨hwalks.length_eq, hwalks.imp fun n m hnm => ⟨Node.kind_eq_of_sameProps hnm.props, hnm.props⟩, ?_⟩
    refine List.rel_filterMap (fun n m hnm => ?_) hwalks
    have hprops := hnm.props
    cases n with
    | rule i p =>
      cases m with
      | rule j q => exact .some hprops
      | _ => cases hprops
    | _ =>
      cases m with
      | rule j q => cases hprops
      | _ => exact .none

end Tree
end RuleTree
