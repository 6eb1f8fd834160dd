/-
  RuleTree.Proofs.Numbering — every node has a number of its own.

  A run draws its numbers upwards, so what it makes has numbers between where it starts and
  where it ends. `Drawn n m ids` says that of a list of numbers without repetition:
  - `drawn_reconcileFrom`: a conjunction has its own number, those of its children and one
    for each rule group made.
  - `drawn_rehome`: a node put on a collection keeps its number or is wrapped in a new one;
    a dissolved rule group gives its number up.
  - `numbersParts`: so all that is converted has numbers of its own.

  Proved of imports one after the other: `names_apart`, for names that are not given twice.
-/

import Mathlib
import RuleTree.Ids
import RuleTree.Proofs.Cars
import RuleTree.Proofs.Placing

namespace RuleTree

/-! ## Numbers drawn -/

/-- Numbers without repetition, from `n` on and below `m`. -/
structure Drawn (n m : Nat) (ids : List Nat) : Prop where
  nodup : ids.Nodup
  le : ∀ i ∈ ids, n ≤ i
  lt : ∀ i ∈ ids, i < m

section Drawn

variable {n k m : Nat} {xs ys : List Nat}

theorem drawn_nil (n m : Nat) : Drawn n m [] := ⟨.nil, by simp, by simp⟩

theorem drawn_singleton (n : Nat) : Drawn n (n + 1) [n] := ⟨by simp, by simp, by simp⟩

theorem drawn_mono (h : Drawn k m xs) (hn : n ≤ k) {l : Nat} (hm : m ≤ l) : Drawn n l xs := by
  refine ⟨h.nodup, fun i hi => ?_, fun i hi => ?_⟩
  · exact Nat.le_trans hn (h.le i hi)
  · exact Nat.lt_of_lt_of_le (h.lt i hi) hm

/-- Numbers drawn one after the other are drawn together. -/
theorem drawn_append (h : Drawn n k xs) (h' : Drawn k m ys) (hn : n ≤ k) (hm : k ≤ m) :
    Drawn n m (xs ++ ys) := by
  refine ⟨List.nodup_append.mpr ⟨h.nodup, h'.nodup, fun i hi j hj => ?_⟩, fun i hi => ?_, fun i hi => ?_⟩
  · have hlt := h.lt i hi
    have hle := h'.le j hj
    omega
  · rcases List.mem_append.mp hi with hi | hi
    · exact h.le i hi
    · exact Nat.le_trans hn (h'.le i hi)
  · rcases List.mem_append.mp hi with hi | hi
    · exact Nat.lt_of_lt_of_le (h.lt i hi) hm
    · exact h'.lt i hi

theorem drawn_perm (h : Drawn n m xs) (hp : ys.Perm xs) : Drawn n m ys :=
  ⟨hp.nodup_iff.mpr h.nodup, fun i hi => h.le i (hp.mem_iff.mp hi), fun i hi => h.lt i (hp.mem_iff.mp hi)⟩

theorem drawn_sublist (h : Drawn n m xs) (hs : ys.Sublist xs) : Drawn n m ys :=
  ⟨h.nodup.sublist hs, fun i hi => h.le i (hs.subset hi), fun i hi => h.lt i (hs.subset hi)⟩

theorem drawn_shift (start : Nat) (h : Drawn n m xs) :
    Drawn (start + n) (start + m) (xs.map (start + ·)) := by
  refine ⟨h.nodup.map fun i j hij => Nat.add_left_cancel hij, fun i hi => ?_, fun i hi => ?_⟩
  · obtain ⟨j, hj, rfl⟩ := List.mem_map.mp hi
    exact Nat.add_le_add_left (h.le j hj) start
  · obtain ⟨j, hj, rfl⟩ := List.mem_map.mp hi
    exact Nat.add_lt_add_left (h.lt j hj) start

/-- The number drawn next comes in front of those drawn before. -/
theorem drawn_next (h : Drawn n k xs) (hn : n ≤ k) : Drawn n (k + 1) (k :: xs) :=
  drawn_perm (drawn_append h (drawn_singleton k) hn (Nat.le_succ k)) (List.perm_append_singleton k xs).symm

end Drawn

/-! ## Numbers of nodes -/

namespace Node

variable {ι : Type}

def idsAll (ns : List (Node ι)) : List ι := (nodesAll ns).map id

theorem idsAll_cons (n : Node ι) (rest : List (Node ι)) : idsAll (n :: rest) = n.ids ++ idsAll rest := by
  simp [idsAll, nodesAll, ids]

theorem idsAll_append (ns ms : List (Node ι)) : idsAll (ns ++ ms) = idsAll ns ++ idsAll ms := by
  simp [idsAll, nodesAll_append]

theorem idsAll_singleton (n : Node ι) : idsAll [n] = n.ids := by
  simp [idsAll, nodesAll, ids]

theorem ids_group (i : ι) (p : GroupProps) (cs : List (Node ι)) : (group i p cs).ids = i :: idsAll cs := by
  simp [ids, idsAll, nodes, id]

theorem ids_rule (i : ι) (p : RuleProps) : (rule i p).ids = [i] := by
  simp [ids, nodes, id]

theorem ids_ruleGroup (i : ι) (p : RuleGroupProps) (cs : List (Node ι)) :
    (ruleGroup i p cs).ids = i :: idsAll cs := by
  simp [ids, idsAll, nodes, id]

theorem idsAll_eq_flatMap (ns : List (Node ι)) : idsAll ns = ns.flatMap ids := by
  induction ns with
  | nil => rfl
  | cons n rest ih => rw [idsAll_cons, ih, List.flatMap_cons]

theorem ids_rename {κ : Type} (f : ι → κ) (n : Node ι) : (n.rename f).ids = n.ids.map f := by
  rw [ids, nodes_rename, ids, List.map_map, List.map_map]
  refine List.map_congr_left fun m _ => ?_
  cases m <;> rfl

end Node

/-! ## The rule groups made for a conjunction -/

namespace Entry

def ids : Entry → List Nat
  | child n => n.ids
  | made id _ => [id]

def id? : Entry → Option Nat
  | child _ => none
  | made id _ => some id

end Entry

namespace Item

variable {conjunction : String} {modeOf : String → Option GroupMode}

mutual

theorem ids_toNode (home : Option String) : ∀ x : Item,
    (x.toNode conjunction modeOf).ids = (x.entries home).flatMap fun e => e.2.ids
  | child n => by simp [toNode, entries, Entry.ids]
  | made id path items => by
    simp [toNode, entries, Entry.ids, Node.ids_ruleGroup, idsAll_toNodes (some path) items]

theorem idsAll_toNodes (home : Option String) : ∀ xs : List Item,
    Node.idsAll (toNodes conjunction modeOf xs) = (entriesAll home xs).flatMap fun e => e.2.ids
  | [] => rfl
  | x :: rest => by
    simp [toNodes, entriesAll, Node.idsAll_cons, ids_toNode home x, idsAll_toNodes home rest]

end

/-- The numbers of the rule groups made. -/
def madeIds (items : List Item) : List Nat := (entriesAll none items).filterMap fun e => e.2.id?

/-- All numbers are those of the children and those of the rule groups made. -/
theorem flatMap_ids_perm (es : List (Option String × Entry)) :
    (es.flatMap fun e => e.2.ids).Perm
      (Node.idsAll (es.filterMap fun e => e.2.child?) ++ es.filterMap fun e => e.2.id?) := by
  induction es with
  | nil => exact .nil
  | cons e rest ih =>
    obtain ⟨home, e⟩ := e
    cases e with
    | child n =>
      have hperm := ih.append_left n.ids
      rw [← List.append_assoc, ← Node.idsAll_cons] at hperm
      exact hperm
    | made id path =>
      show List.Perm (id :: rest.flatMap fun e => e.2.ids) (_ ++ id :: rest.filterMap fun e => e.2.id?)
      exact (ih.cons id).trans List.perm_middle.symm

theorem madeIds_push_made {container : Option String} {id : Nat} {p : String} {items : List Item}
    (hc : ∀ q ∈ container, q ∈ pathsAll items) (hn : (pathsAll items).Nodup) :
    (madeIds (push container (.made id p []) items)).Perm (madeIds items ++ [id]) := by
  have h := (entriesAll_push (x := .made id p []) hc hn).filterMap fun e => e.2.id?
  simpa [madeIds, entries, entriesAll, Entry.id?] using h

theorem madeIds_push_child {container : Option String} {n : Node Nat} {items : List Item}
    (hc : ∀ q ∈ container, q ∈ pathsAll items) (hn : (pathsAll items).Nodup) :
    (madeIds (push container (.child n) items)).Perm (madeIds items) := by
  have h := (entriesAll_push (x := .child n) hc hn).filterMap fun e => e.2.id?
  simpa [madeIds, entries, Entry.id?] using h

end Item

namespace Converter

open Item

variable {c : Converter} {n k : Nat}

/-- The rule groups made have the numbers drawn for them. -/
theorem drawn_madeIds (used : List String) (root : Option String) (children : List (Node Nat)) (next : Nat) :
    next ≤ (children.foldl (c.place used root) ⟨[], next⟩).next ∧
      Drawn next (children.foldl (c.place used root) ⟨[], next⟩).next
        (madeIds (children.foldl (c.place used root) ⟨[], next⟩).items) := by
  refine foldl_place_keeps c used root
    (P := fun _ st => next ≤ st.next ∧ Drawn next st.next (madeIds st.items))
    (fun _ st container p hn hc _ h => ?_) (fun _ st container n hn hc _ h => ?_) ?_ children
  · obtain ⟨hle, h⟩ := h
    have hnew := drawn_append h (drawn_singleton st.next) hle (Nat.le_succ st.next)
    exact ⟨Nat.le_succ_of_le hle, drawn_perm hnew (madeIds_push_made hc hn)⟩
  · exact ⟨h.1, drawn_perm h.2 (madeIds_push_child hc hn)⟩
  · exact ⟨Nat.le_refl next, drawn_nil next next⟩

/-- A conjunction has a number of its own and keeps those of its children. -/
theorem drawn_reconcileFrom (conjunction : String) (negated : Bool) {children : List (Node Nat)} (hn : n ≤ k)
    (hch : Drawn n k (Node.idsAll children)) :
    k ≤ (c.reconcileFrom conjunction negated children k).2 ∧
      Drawn n (c.reconcileFrom conjunction negated children k).2
        (c.reconcileFrom conjunction negated children k).1.ids := by
  have hplaced := placed_foldl c (c.usedGroups children) (c.singleRoot? children) children (k + 1)
  obtain ⟨hle, hmade⟩ :=
    drawn_madeIds (c := c) (c.usedGroups children) (c.singleRoot? children) children (k + 1)
  revert hplaced hle hmade
  generalize hst : children.foldl (c.place (c.usedGroups children) (c.singleRoot? children)) ⟨[], k + 1⟩ = st
  intro hplaced hle hmade
  -- the numbers below the node: those of the children and those of the rule groups made
  have hbelow : Drawn n st.next (k :: Node.idsAll (toNodes conjunction c.modeOf st.items)) := by
    have hkids := hplaced.children.flatMap_right Node.ids
    rw [← Node.idsAll_eq_flatMap, ← Node.idsAll_eq_flatMap] at hkids
    have hperm := (flatMap_ids_perm (entriesAll none st.items)).trans (hkids.append_right _)
    rw [idsAll_toNodes none]
    have hall := drawn_append (drawn_next hch hn) hmade (Nat.le_succ_of_le hn) hle
    exact drawn_perm hall (hperm.cons k)
  unfold reconcileFrom
  simp only [hst]
  have hk : k ≤ st.next := Nat.le_of_succ_le hle
  split
  · split
    · exact ⟨hk, by rw [Node.ids_ruleGroup]; exact hbelow⟩
    · exact ⟨hk, by rw [Node.ids_group]; exact hbelow⟩
  · exact ⟨hk, by rw [Node.ids_group]; exact hbelow⟩

/-! ## Wrapping and putting on a collection -/

theorem drawn_wrap (negated : Bool) {m : Node Nat} (hn : n ≤ k) (hm : Drawn n k m.ids) :
    (c.wrap negated m).Ends k fun l t => Drawn n l t.root.ids := by
  refine Run.ends_bind_draw (Run.ends_pure ?_)
  rw [Tree.root, Node.ids_group, Node.idsAll_singleton]
  exact drawn_next hm hn

theorem drawn_wrapOn (path : String) (f : Field) (conjunction : Option String) {m : Node Nat} (hn : n ≤ k)
    (hm : Drawn n k m.ids) :
    (c.wrapOn path f conjunction m).Ends k fun l g => Drawn n l g.toNode.ids := by
  refine Run.ends_bind_draw (Run.ends_pure ?_)
  rw [RuleGroup.toNode, Node.ids_ruleGroup, Node.idsAll_singleton]
  exact drawn_next hm hn

theorem idsAll_dissolve (path conjunction : String) (m : Node Nat) :
    (Node.idsAll (dissolve path conjunction m)).Sublist m.ids := by
  unfold dissolve
  split
  · split
    · rw [Node.ids_ruleGroup]
      exact List.sublist_cons_self _ _
    · rw [Node.idsAll_singleton]
  · rw [Node.idsAll_singleton]

theorem idsAll_flatMap_dissolve (path conjunction : String) (ms : List (Node Nat)) :
    (Node.idsAll (ms.flatMap (dissolve path conjunction))).Sublist (Node.idsAll ms) := by
  induction ms with
  | nil => exact List.Sublist.slnil
  | cons m rest ih =>
    rw [List.flatMap_cons, Node.idsAll_append, Node.idsAll_cons]
    exact (idsAll_dissolve path conjunction m).append ih

theorem drawn_rehome (path : String) (f : Field) {m : Node Nat} (hn : n ≤ k) (hm : Drawn n k m.ids) :
    (c.rehome path f m).Ends k fun l g => Drawn n l g.toNode.ids := by
  cases m with
  | rule id p => exact drawn_wrapOn path f none hn hm
  | group id p cs =>
    refine Run.ends_pure ?_
    rw [Node.ids_group] at hm
    rw [RuleGroup.toNode, Node.ids_ruleGroup]
    exact drawn_sublist hm ((idsAll_flatMap_dissolve path p.conjunction cs).cons_cons id)
  | ruleGroup id p cs =>
    unfold rehome
    simp only
    split
    · exact Run.ends_pure hm
    · exact drawn_wrapOn path f none hn hm

/-! ## Conversions -/

/-- The conversions of the parts draw the numbers of their nodes. -/
structure NumbersParts (sub : SubRuns) : Prop where
  rule : ∀ e negated parent n, (sub.rule e negated parent).Ends n fun m x? => ∀ x ∈ x?, Drawn n m x.ids
  value : ∀ e t parent n, (sub.value e t parent).Ends n fun _ _ => True

variable {sub : SubRuns}

theorem drawn_filterMap (h : NumbersParts sub) (parent : Option String) (args : List Json) (n : Nat) :
    (Run.filterMap (fun a => sub.rule a false parent) args).Ends n fun m ns => Drawn n m (Node.idsAll ns) := by
  induction args generalizing n with
  | nil => exact Run.ends_pure (drawn_nil n n)
  | cons a rest ih =>
    refine Run.ends_bind (h.rule a false parent n) fun k x? hnk hx => ?_
    have hrest : (Run.filterMap (fun a => sub.rule a false parent) rest).Ends k
        fun l ns => k ≤ l ∧ Drawn k l (Node.idsAll ns) :=
      Run.ends_mono (fun _ _ hle hns => ⟨hle, hns⟩) (ih k)
    refine Run.ends_bind hrest fun l ns hkl hns => ?_
    refine Run.ends_pure ?_
    cases x? with
    | none => exact drawn_mono hns.2 hnk (Nat.le_refl l)
    | some x =>
      rw [Option.toList_some, List.singleton_append, Node.idsAll_cons]
      exact drawn_append (hx x rfl) hns.2 hnk hns.1

theorem drawn_conjunction (h : NumbersParts sub) (conjunction : String) (args : List Json) (negated : Bool)
    (parent : Option String) (n : Nat) :
    (c.convertConjunction sub conjunction args negated parent).Ends n fun m x? => ∀ x ∈ x?, Drawn n m x.ids := by
  refine Run.ends_bind (drawn_filterMap h parent args n) fun k ns hnk hns => ?_
  obtain ⟨hle, hd⟩ := drawn_reconcileFrom (c := c) conjunction negated hnk hns
  refine Run.ends_bind (Run.ends_drawing (P := fun m x => Drawn n m x.ids) hle hd) fun l x _ hx => ?_
  exact Run.ends_pure (by simpa using hx)

theorem drawn_convertHaving (h : NumbersParts sub) (having : Json) (path : String) (f : Field) (n : Nat) :
    (c.convertHaving sub having path f).Ends n fun m g? => ∀ g ∈ g?, Drawn n m g.toNode.ids := by
  unfold convertHaving
  split
  · rename_i conjunction args _
    refine Run.ends_bind (drawn_filterMap h (some path) args n) fun k ns hnk hns => ?_
    obtain ⟨hle, hd⟩ := drawn_reconcileFrom (c := c) conjunction false hnk hns
    refine Run.ends_bind (Run.ends_drawing (P := fun m x => Drawn n m x.ids) hle hd) fun l x hkl hx => ?_
    refine Run.ends_bind (drawn_rehome path f (Nat.le_trans hnk hkl) hx) fun _ g _ hg => ?_
    exact Run.ends_pure (by simpa using hg)
  · refine Run.ends_andThen (h.rule having false (some path) n) (by simp) fun k x hnk hx => ?_
    refine Run.ends_bind (drawn_wrapOn path f _ hnk hx) fun l g hkl hg => ?_
    refine Run.ends_bind (drawn_rehome path f (Nat.le_trans hnk hkl) hg) fun _ g _ hg => ?_
    exact Run.ends_pure (by simpa using hg)

theorem drawn_groupBody (h : NumbersParts sub) (r : ParsedRule) (n : Nat) :
    (c.groupBody sub r).Ends n fun m g? => ∀ g ∈ g?, Drawn n m g.toNode.ids := by
  unfold groupBody
  split
  · exact drawn_convertHaving h _ _ _ n
  · refine Run.ends_bind_draw (Run.ends_pure ?_)
    rintro g hg
    cases hg
    exact drawn_singleton n

theorem drawn_ruleNode (h : NumbersParts sub) (r : ParsedRule) (op : String) (negated : Bool)
    (operands : List Operand) (n : Nat) :
    (c.ruleNode sub r op negated operands).Ends n fun m x? => ∀ x ∈ x?, Drawn n m x.ids := by
  unfold ruleNode
  split
  · refine Run.ends_andThen (drawn_groupBody h r n) (by simp) fun m g _ hg => Run.ends_pure ?_
    rintro x hx
    cases hx
    rw [RuleGroup.toNode, Node.ids_ruleGroup] at hg
    rw [Node.ids_ruleGroup]
    exact hg
  · refine Run.ends_bind_draw (Run.ends_pure ?_)
    rintro x hx
    cases hx
    rw [Node.ids_rule]
    exact drawn_singleton n

theorem drawn_assembleRule (h : NumbersParts sub) (r : ParsedRule) (negated : Bool) (parent : Option String)
    (n : Nat) :
    (c.assembleRule sub r negated parent).Ends n fun m x? => ∀ x ∈ x?, Drawn n m x.ids := by
  rw [assembleRule_eq]
  have hargs : ∀ t as, (Run.collect (fun a => sub.value a t parent) as).Ends n fun _ _ => True :=
    fun t as => Run.ends_collect (fun a k => h.value a t parent k) as
  refine Run.ends_andThen (P := fun _ _ => True) (Run.ends_mono (by simp) (hargs _ _)) (by simp)
    fun k operands hnk _ => ?_
  refine Run.ends_andThen (drawn_ruleNode h _ _ _ operands k) (by simp) fun l x hkl hx => ?_
  have hx : Drawn n l x.ids := drawn_mono hx hnk (Nat.le_refl l)
  split
  · refine Run.ends_bind (drawn_wrap true (Nat.le_trans hnk hkl) hx) fun _ t _ ht => ?_
    exact Run.ends_pure (by simpa using ht)
  · exact Run.ends_pure (by simpa using hx)

theorem drawn_ruleStep (h : NumbersParts sub) (e : Json) (negated : Bool) (parent : Option String) (n : Nat) :
    (c.ruleStep sub e negated parent).Ends n fun m x? => ∀ x ∈ x?, Drawn n m x.ids := by
  unfold ruleStep
  split
  · exact Run.ends_fail (by simp)
  split
  · exact h.rule _ _ _ n
  split
  · exact drawn_conjunction h _ _ _ _ n
  · unfold convertOp
    split
    · exact Run.ends_fail (by simp)
    · exact drawn_assembleRule h _ _ _ n

theorem ends_ofExcept {α : Type} (r : Except Problem α) (n : Nat) :
    (Run.ofExcept r).Ends n fun _ _ => True := by
  cases r with
  | ok a => exact Run.ends_pure trivial
  | error p => exact Run.ends_fail trivial

theorem ends_callArgs (h : NumbersParts sub) (func : String) (parent : Option String) (args : Table FuncArg)
    (given : List Json) (n : Nat) : (callArgs sub func parent args given).Ends n fun _ _ => True := by
  induction args generalizing given n with
  | nil => exact Run.ends_pure trivial
  | cons a rest ih =>
    refine Run.ends_bind (P := fun _ _ => True) ?_ fun k converted _ _ => ?_
    · cases given.head? with
      | none => exact Run.ends_pure trivial
      | some v => exact h.value v _ parent n
    · cases converted.or (a.2.default.map fun v => .literal v a.2.type) with
      | none => exact Run.ends_fail trivial
      | some o =>
        refine Run.ends_andThen (P := fun _ _ => True) ?_ (fun _ => trivial) fun _ _ _ _ => Run.ends_pure trivial
        exact Run.ends_mono (by simp) (ih given.tail k)

theorem ends_valueStep (h : NumbersParts sub) (e : Json) (t : Target) (parent : Option String) (n : Nat) :
    (c.valueStep sub e t parent).Ends n fun _ _ => True := by
  unfold valueStep
  split
  · exact h.value _ _ _ n
  split
  · exact ends_ofExcept _ n
  split
  · unfold convertCall
    split
    · exact Run.ends_fail trivial
    · refine Run.ends_andThen (P := fun _ _ => True) ?_ (fun _ => trivial) fun _ _ _ _ => Run.ends_pure trivial
      exact Run.ends_mono (by simp) (ends_callArgs h _ _ _ _ n)
  · exact ends_ofExcept _ n

/-- What is converted has numbers of its own, drawn on the way. -/
theorem numbersParts (limit : Nat) : NumbersParts ⟨c.ruleN limit, c.valueN limit⟩ := by
  induction limit with
  | zero => exact ⟨fun _ _ _ _ => Run.ends_stuck, fun _ _ _ _ => Run.ends_stuck⟩
  | succ limit ih => exact ⟨drawn_ruleStep ih, ends_valueStep ih⟩

theorem drawn_treeN (limit : Nat) (e : Json) (n : Nat) :
    (c.treeN limit e).Ends n fun m t? => ∀ t ∈ t?, Drawn n m t.root.ids := by
  unfold treeN
  split
  · refine Run.ends_andThen ((numbersParts limit).rule e false none n) (by simp) fun k x hnk hx => ?_
    refine Run.ends_bind (P := fun m t => Drawn n m t.root.ids) ?_ fun m t _ ht => ?_
    · cases x with
      | group id p cs => exact Run.ends_pure hx
      | rule id p => exact drawn_wrap false hnk hx
      | ruleGroup id p cs => exact drawn_wrap false hnk hx
    · exact Run.ends_pure (by simpa using ht)
  · exact Run.ends_pure (by simp)

end Converter

/-! ## Names -/

theorem Ids.sequential_injective (stem : String) : Function.Injective (Ids.sequential stem) := by
  intro i j h
  have hij : toString (i + 1) = toString (j + 1) := (String.append_right_inj stem).mp h
  rw [Nat.toString_eq_ofList_toDigits, Nat.toString_eq_ofList_toDigits] at hij
  have hdigits : Nat.toDigits 10 (i + 1) = Nat.toDigits 10 (j + 1) := String.ofList_inj.mp hij
  have hread := congrArg (Nat.ofDigitChars 10 · 0) hdigits
  simpa only [Nat.ofDigitChars_ten_toDigits, Nat.succ_inj] using hread

variable {ι : Type}

/-- The names of the tree, if there is one. -/
def Outcome.names (o : Outcome ι) : List ι :=
  match o.tree with
  | some t => t.root.ids
  | none => []

namespace Tree

variable [DecidableEq ι] {t : Tree ι}

theorem find?_of_nodup (h : t.root.ids.Nodup) {n : Node ι} (hn : n ∈ t.nodes) : t.find? n.id = some n := by
  cases hm : t.find? n.id with
  | none =>
    have hne := List.find?_eq_none.mp hm n hn
    simp at hne
  | some m =>
    have hmem : m ∈ t.nodes := List.mem_of_find?_eq_some hm
    have hid : m.id = n.id := by simpa using List.find?_some hm
    rw [List.inj_on_of_nodup_map h hmem hn hid]

theorem nodeCount_of_nodup (h : t.root.ids.Nodup) : t.nodeCount = t.root.ids.toFinset.card := by
  rw [List.toFinset_card_of_nodup h, Node.ids, List.length_map]
  rfl

end Tree

namespace Converter

variable {c : Converter}

/-- Imports one after the other; each takes its names up where the one before it stopped. -/
def importAll (c : Converter) (ids : Nat → ι) : Nat → List Json → Option (List (Outcome ι))
  | _, [] => some []
  | start, e :: rest =>
    match c.importTree ids start e with
    | some o => (c.importAll ids (start + o.drawn) rest).map fun os => o :: os
    | none => none

/-- An import names its nodes by the numbers it draws. -/
theorem names_of_importTree {ids : Nat → ι} {start : Nat} {e : Json} {o : Outcome ι}
    (h : c.importTree ids start e = some o) :
    ∃ ns, Drawn start (start + o.drawn) ns ∧ o.names = ns.map ids := by
  obtain ⟨d, hd, rfl⟩ := exists_treeN_of_importTree h
  obtain ⟨-, hdrawn⟩ := drawn_treeN _ e 0 d hd
  cases ht : d.value with
  | none => exact ⟨[], drawn_nil _ _, by simp [Outcome.names]⟩
  | some t =>
    refine ⟨t.root.ids.map (start + ·), drawn_shift start (hdrawn t ht), ?_⟩
    have hroot : (t.rename fun n => ids (start + n)).root = t.root.rename fun n => ids (start + n) := rfl
    simp only [Outcome.names, Option.map_some, hroot, Node.ids_rename, List.map_map]
    rfl

/-- So do imports one after the other, and no number is drawn twice. -/
theorem names_of_importAll {ids : Nat → ι} {start : Nat} {es : List Json} {os : List (Outcome ι)}
    (h : c.importAll ids start es = some os) :
    ∃ ns, Drawn start (start + (os.map Outcome.drawn).sum) ns ∧ os.flatMap Outcome.names = ns.map ids := by
  induction es generalizing start os with
  | nil =>
    cases h
    exact ⟨[], drawn_nil _ _, rfl⟩
  | cons e rest ih =>
    unfold importAll at h
    split at h
    · rename_i o ho
      obtain ⟨os', hrest, rfl⟩ := Option.map_eq_some_iff.mp h
      obtain ⟨ns, hns, hnames⟩ := names_of_importTree ho
      obtain ⟨ms, hms, hrestnames⟩ := ih hrest
      refine ⟨ns ++ ms, ?_, by simp [hnames, hrestnames]⟩
      rw [List.map_cons, List.sum_cons, ← Nat.add_assoc]
      exact drawn_append hns hms (Nat.le_add_right _ _) (Nat.le_add_right _ _)
    · cases h

/-- Under names that are not given twice the nodes of all imports have names apart, and a name
finds its node. -/
theorem names_apart [DecidableEq ι] {ids : Nat → ι} {start : Nat} {es : List Json} {os : List (Outcome ι)}
    (h : c.importAll ids start es = some os)
    (hids : Set.InjOn ids (Set.Ico start (start + (os.map Outcome.drawn).sum))) :
    (∀ o ∈ os, o.names.Nodup) ∧ os.Pairwise (fun o o' => o.names.Disjoint o'.names) ∧
      ∀ o ∈ os, ∀ t, o.tree = some t →
        (∀ n ∈ t.nodes, t.find? n.id = some n) ∧ t.nodeCount = t.root.ids.toFinset.card := by
  obtain ⟨ns, hns, hnames⟩ := names_of_importAll h
  have hnodup : (os.flatMap Outcome.names).Nodup := by
    rw [hnames]
    refine hns.nodup.map_on fun i hi j hj hij => hids ?_ ?_ hij
    · exact ⟨hns.le i hi, hns.lt i hi⟩
    · exact ⟨hns.le j hj, hns.lt j hj⟩
  obtain ⟨heach, hpairs⟩ := List.nodup_flatMap.mp hnodup
  refine ⟨heach, hpairs, fun o ho t ht => ?_⟩
  have htree : t.root.ids.Nodup := by simpa [Outcome.names, ht] using heach o ho
  exact ⟨fun n hn => Tree.find?_of_nodup htree hn, Tree.nodeCount_of_nodup htree⟩

/-- Two imports about cars, the nodes counted on from the first to the second. -/
theorem names_apart_counted :
    ∃ os, Cars.converter.importAll (Ids.sequential "n") 0
        [Cars.notBoth, Cars.ofCars "some" (Cars.equals "vendor" "vw")] = some os ∧
      (∀ o ∈ os, o.tree.isSome) ∧
      (∀ o ∈ os, o.names.Nodup) ∧ os.Pairwise (fun o o' => o.names.Disjoint o'.names) ∧
      ∀ o ∈ os, ∀ t, o.tree = some t →
        (∀ n ∈ t.nodes, t.find? n.id = some n) ∧ t.nodeCount = t.root.ids.toFinset.card := by
  have hany : (Cars.converter.importAll (Ids.sequential "n") 0
      [Cars.notBoth, Cars.ofCars "some" (Cars.equals "vendor" "vw")]).any
        (fun os => os.all fun o => o.tree.isSome) = true := by
    decide +kernel
  obtain ⟨os, hos, htrees⟩ := (Option.any_eq_true _ _).mp hany
  refine ⟨os, hos, List.all_eq_true.mp htrees, ?_⟩
  exact names_apart hos (Ids.sequential_injective "n").injOn

end Converter
end RuleTree
