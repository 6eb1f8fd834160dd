/-
  RuleTree.Proofs.Placing — where the children of a conjunction are put.

  `Item.entriesAll` lists the children and the rule groups made for them, each with the path
  of the rule group it stands in. As long as no path has two rule groups, putting an item in
  a rule group that is there adds that item's entries and moves nothing else
  (`entriesAll_push`).
  - `openChain_spec`: opening a chain adds rule groups only, each in the one before it, and
    ends at the last path of the chain.
  - `placed_foldl`: when all children are placed, every child is there once, in the last
    rule group of its chain, and every rule group made belongs to the chain of some child.
  - `foldl_place_keeps`: what each rule group made and each child put in one keeps is kept
    until all are placed.
-/

import Mathlib.Data.List.Nodup
import RuleTree.Convert.Reconcile

namespace RuleTree

/-- A child, or a rule group made, without what it holds. -/
inductive Entry where
  | child (node : Node Nat)
  | made (id : Nat) (path : String)

namespace Entry

def child? : Entry → Option (Node Nat)
  | child n => some n
  | made .. => none

def path? : Entry → Option String
  | child _ => none
  | made _ path => some path

end Entry

namespace Item

/-! ## Entries -/

mutual

/-- The entries of an item that stands in the rule group of a path, or in none. -/
def entries (home : Option String) : Item → List (Option String × Entry)
  | child n => [(home, .child n)]
  | made id path items => (home, .made id path) :: entriesAll (some path) items

def entriesAll (home : Option String) : List Item → List (Option String × Entry)
  | [] => []
  | x :: rest => x.entries home ++ entriesAll home rest

end

theorem entriesAll_append (home : Option String) (xs ys : List Item) :
    entriesAll home (xs ++ ys) = entriesAll home xs ++ entriesAll home ys := by
  induction xs with
  | nil => rfl
  | cons x rest ih => simp [entriesAll, ih]

mutual

theorem paths_eq (home : Option String) :
    ∀ x : Item, x.paths = (x.entries home).filterMap fun e => e.2.path?
  | child n => rfl
  | made id path items => by simp [paths, entries, Entry.path?, pathsAll_eq (some path) items]

theorem pathsAll_eq (home : Option String) :
    ∀ xs : List Item, pathsAll xs = (entriesAll home xs).filterMap fun e => e.2.path?
  | [] => rfl
  | x :: rest => by simp [pathsAll, entriesAll, paths_eq home x, pathsAll_eq home rest]

end

/-! ## Putting an item in a rule group -/

mutual

theorem pushUnder_of_not_mem (path : String) (x : Item) :
    ∀ y : Item, path ∉ y.paths → pushUnder path x y = y
  | child n, _ => rfl
  | made id p items, h => by
    simp only [paths, List.mem_cons, not_or] at h
    rw [pushUnder, if_neg (Ne.symm h.1), pushUnderAll_of_not_mem path x items h.2]

theorem pushUnderAll_of_not_mem (path : String) (x : Item) :
    ∀ ys : List Item, path ∉ pathsAll ys → pushUnderAll path x ys = ys
  | [], _ => rfl
  | y :: rest, h => by
    simp only [pathsAll, List.mem_append, not_or] at h
    rw [pushUnderAll, pushUnder_of_not_mem path x y h.1, pushUnderAll_of_not_mem path x rest h.2]

end

/-- What is added after a first part may as well be added at the end. -/
theorem perm_append_add {β : Type} {as bs cs ds : List β} (h : as.Perm (bs ++ ds)) :
    (as ++ cs).Perm ((bs ++ cs) ++ ds) := by
  refine (h.append_right cs).trans ?_
  rw [List.append_assoc, List.append_assoc]
  exact List.perm_append_comm.append_left bs

mutual

theorem entries_pushUnder (path : String) (x : Item) (home : Option String) :
    ∀ y : Item, path ∈ y.paths → y.paths.Nodup →
      ((pushUnder path x y).entries home).Perm (y.entries home ++ x.entries (some path))
  | child n, h, _ => by simp [paths] at h
  | made id p items, h, hn => by
    simp only [paths, List.mem_cons, List.nodup_cons] at h hn
    by_cases hp : p = path
    · subst hp
      rw [pushUnder, if_pos rfl, pushUnderAll_of_not_mem p x items hn.1]
      simp [entries, entriesAll_append, entriesAll]
    · have hm := h.resolve_left (Ne.symm hp)
      rw [pushUnder, if_neg hp, entries, entries]
      exact (entriesAll_pushUnderAll path x (some p) items hm hn.2).cons _

theorem entriesAll_pushUnderAll (path : String) (x : Item) (home : Option String) :
    ∀ ys : List Item, path ∈ pathsAll ys → (pathsAll ys).Nodup →
      (entriesAll home (pushUnderAll path x ys)).Perm (entriesAll home ys ++ x.entries (some path))
  | [], h, _ => by simp [pathsAll] at h
  | y :: rest, h, hn => by
    simp only [pathsAll, List.mem_append, List.nodup_append] at h hn
    obtain ⟨hy, hrest, hdis⟩ := hn
    rw [pushUnderAll, entriesAll, entriesAll]
    by_cases hm : path ∈ y.paths
    · have hnr : path ∉ pathsAll rest := fun hr => hdis path hm path hr rfl
      rw [pushUnderAll_of_not_mem path x rest hnr]
      exact perm_append_add (entries_pushUnder path x home y hm hy)
    · rw [pushUnder_of_not_mem path x y hm, List.append_assoc]
      exact (entriesAll_pushUnderAll path x home rest (h.resolve_left hm) hrest).append_left _

end

/-- An item put where a rule group is adds its own entries and moves no other. -/
theorem entriesAll_push {container : Option String} {x : Item} {items : List Item}
    (hc : ∀ p ∈ container, p ∈ pathsAll items) (hn : (pathsAll items).Nodup) :
    (entriesAll none (push container x items)).Perm (entriesAll none items ++ x.entries container) := by
  cases container with
  | none => simp [push, entriesAll_append, entriesAll]
  | some p => exact entriesAll_pushUnderAll p x none items (hc p rfl) hn

theorem pathsAll_push {container : Option String} {x : Item} {items : List Item}
    (hc : ∀ p ∈ container, p ∈ pathsAll items) (hn : (pathsAll items).Nodup) :
    (pathsAll (push container x items)).Perm (pathsAll items ++ x.paths) := by
  rw [pathsAll_eq none, pathsAll_eq none, paths_eq container, ← List.filterMap_append]
  exact (entriesAll_push hc hn).filterMap _

/-- A rule group made for a new path leaves each path with one at most. -/
theorem nodup_push_made {container : Option String} {p : String} {items : List Item} (id : Nat)
    (hn : (pathsAll items).Nodup) (hc : ∀ q ∈ container, q ∈ pathsAll items) (hp : p ∉ pathsAll items) :
    (pathsAll (push container (.made id p []) items)).Nodup ∧
      p ∈ pathsAll (push container (.made id p []) items) := by
  have hpaths := pathsAll_push (x := .made id p []) hc hn
  constructor
  · rw [hpaths.nodup_iff]
    simpa [paths, pathsAll, List.nodup_append, hn] using fun q hq => ne_of_mem_of_not_mem hq hp
  · simp [hpaths.mem_iff, paths]

end Item

namespace Converter

open Item

/-! ## Chains -/

/-- Each path of a chain with the one before it. -/
def links (container : Option String) : List String → List (Option String × String)
  | [] => []
  | p :: ps => (container, p) :: links (some p) ps

theorem openChain_spec (chain : List String) (st : Placing) (container : Option String)
    (hn : (pathsAll st.items).Nodup) (hc : ∀ p ∈ container, p ∈ pathsAll st.items) :
    (pathsAll (openChain st container chain).1.items).Nodup ∧
      (∀ p ∈ (openChain st container chain).2, p ∈ pathsAll (openChain st container chain).1.items) ∧
      (openChain st container chain).2 = (chain.getLast?).or container ∧
      ∃ new,
        (entriesAll none (openChain st container chain).1.items).Perm (entriesAll none st.items ++ new) ∧
        ∀ e ∈ new, ∃ home id p, e = (home, .made id p) ∧ (home, p) ∈ links container chain := by
  induction chain generalizing st container with
  | nil => exact ⟨hn, hc, rfl, [], by simp [openChain], by simp⟩
  | cons p ps ih =>
    have hlast : ((p :: ps).getLast?).or container = (ps.getLast?).or (some p) := by
      cases ps <;> simp [List.getLast?_cons]
    rw [openChain, hlast]
    by_cases hp : p ∈ pathsAll st.items
    · rw [if_pos hp]
      obtain ⟨h1, h2, h3, new, h4, h5⟩ := ih st (some p) hn (by simpa using hp)
      refine ⟨h1, h2, h3, new, h4, fun e he => ?_⟩
      obtain ⟨home, id, q, rfl, hq⟩ := h5 e he
      exact ⟨home, id, q, rfl, by simp [links, hq]⟩
    · rw [if_neg hp]
      have hentries := entriesAll_push (x := .made st.next p []) hc hn
      obtain ⟨hn', hmem⟩ := nodup_push_made st.next hn hc hp
      obtain ⟨h1, h2, h3, new, h4, h5⟩ :=
        ih ⟨push container (.made st.next p []) st.items, st.next + 1⟩ (some p) hn' (by simpa using hmem)
      refine ⟨h1, h2, h3, (container, .made st.next p) :: new, ?_, fun e he => ?_⟩
      · refine h4.trans ((hentries.append_right new).trans ?_)
        simp [entries, entriesAll]
      · rcases List.mem_cons.mp he with rfl | he
        · exact ⟨container, st.next, p, rfl, by simp [links]⟩
        · obtain ⟨home, id, q, rfl, hq⟩ := h5 e he
          exact ⟨home, id, q, rfl, by simp [links, hq]⟩

/-- What making one more rule group keeps, opening a chain keeps. -/
theorem openChain_keeps {P : Placing → Prop}
    (hstep : ∀ st container p, (pathsAll st.items).Nodup → (∀ q ∈ container, q ∈ pathsAll st.items) →
      p ∉ pathsAll st.items → P st → P ⟨push container (.made st.next p []) st.items, st.next + 1⟩)
    (chain : List String) (st : Placing) (container : Option String) (hn : (pathsAll st.items).Nodup)
    (hc : ∀ p ∈ container, p ∈ pathsAll st.items) (h : P st) : P (openChain st container chain).1 := by
  induction chain generalizing st container with
  | nil => exact h
  | cons p ps ih =>
    rw [openChain]
    by_cases hp : p ∈ pathsAll st.items
    · rw [if_pos hp]
      exact ih st (some p) hn (by simpa using hp) h
    · rw [if_neg hp]
      obtain ⟨hn', hmem⟩ := nodup_push_made st.next hn hc hp
      exact ih _ (some p) hn' (by simpa using hmem) (hstep st container p hn hc hp h)

/-! ## All children placed -/

variable (c : Converter) (used : List String) (root : Option String)

/-- The chain of a child; empty when it stays where it is. -/
def chainOf (n : Node Nat) : List String :=
  match c.homeOf? used n with
  | some home => c.chain root home
  | none => []

/-- Each child that is placed stands in the last rule group of its chain, and each rule
group made is in the chain of one of them. -/
structure Placed (ns : List (Node Nat)) (st : Placing) : Prop where
  nodup : (pathsAll st.items).Nodup
  children : ((entriesAll none st.items).filterMap fun e => e.2.child?).Perm ns
  child_home : ∀ {home n}, (home, .child n) ∈ entriesAll none st.items →
    home = (c.chainOf used root n).getLast?
  made_link : ∀ {home id p}, (home, .made id p) ∈ entriesAll none st.items →
    ∃ n ∈ ns, (home, p) ∈ links none (c.chainOf used root n)

theorem placed_empty (next : Nat) : Placed c used root [] ⟨[], next⟩ :=
  ⟨by simp [pathsAll], by simp [entriesAll], by simp [entriesAll], by simp [entriesAll]⟩

theorem placed_place {ns : List (Node Nat)} {st : Placing} (h : Placed c used root ns st) (n : Node Nat) :
    Placed c used root (ns ++ [n]) (c.place used root st n) := by
  -- a child that stays has the empty chain, which opens nothing and ends nowhere
  obtain ⟨h1, h2, h3, new, h4, h5⟩ := openChain_spec (c.chainOf used root n) st none h.nodup (by simp)
  have hplace : (c.place used root st n).items =
      push (openChain st none (c.chainOf used root n)).2 (.child n)
        (openChain st none (c.chainOf used root n)).1.items := by
    unfold place chainOf
    cases c.homeOf? used n <;> rfl
  have hentries := entriesAll_push (x := .child n) h2 h1
  rw [← hplace] at hentries
  have hall := hentries.trans (h4.append_right _)
  rw [h3, Option.or_none] at hall
  have hnew : new.filterMap (fun e => e.2.child?) = [] := by
    rw [List.filterMap_eq_nil_iff]
    intro e he
    obtain ⟨home, id, p, rfl, -⟩ := h5 e he
    rfl
  refine ⟨?_, ?_, ?_, ?_⟩
  · rw [hplace, (pathsAll_push h2 h1).nodup_iff]
    simpa [paths] using h1
  · refine (hall.filterMap _).trans ?_
    rw [List.filterMap_append, List.filterMap_append, hnew]
    simpa [entries, Entry.child?] using h.children.append_right [n]
  · intro home m hm
    rw [hall.mem_iff, List.mem_append, List.mem_append] at hm
    rcases hm with (hm | hm) | hm
    · exact h.child_home hm
    · obtain ⟨_, _, _, he, -⟩ := h5 _ hm
      simp at he
    · simp only [entries, List.mem_singleton, Prod.mk.injEq, Entry.child.injEq] at hm
      rw [hm.1, hm.2]
  · intro home id p hm
    rw [hall.mem_iff, List.mem_append, List.mem_append] at hm
    rcases hm with (hm | hm) | hm
    · obtain ⟨m, hm, hl⟩ := h.made_link hm
      exact ⟨m, by simp [hm], hl⟩
    · obtain ⟨home', id', p', he, hl⟩ := h5 _ hm
      simp only [Prod.mk.injEq, Entry.made.injEq] at he
      obtain ⟨rfl, -, rfl⟩ := he
      exact ⟨n, by simp, hl⟩
    · simp [entries] at hm

/-- All children of a conjunction, placed one after the other. -/
theorem placed_foldl (ns : List (Node Nat)) (next : Nat) :
    Placed c used root ns (ns.foldl (c.place used root) ⟨[], next⟩) := by
  have run : ∀ (todo done : List (Node Nat)) (st : Placing), Placed c used root done st →
      Placed c used root (done ++ todo) (todo.foldl (c.place used root) st) := by
    intro todo
    induction todo with
    | nil => intro done st h; simpa using h
    | cons n rest ih =>
      intro done st h
      simpa using ih (done ++ [n]) _ (placed_place c used root h n)
  simpa using run ns [] ⟨[], next⟩ (placed_empty c used root next)

/-- What making a rule group and putting a child in one keep, placing all children keeps. -/
theorem foldl_place_keeps {P : List (Node Nat) → Placing → Prop}
    (hmade : ∀ ns st container p, (pathsAll st.items).Nodup → (∀ q ∈ container, q ∈ pathsAll st.items) →
      p ∉ pathsAll st.items → P ns st → P ns ⟨push container (.made st.next p []) st.items, st.next + 1⟩)
    (hchild : ∀ ns st container n, (pathsAll st.items).Nodup → (∀ q ∈ container, q ∈ pathsAll st.items) →
      (n.kind ≠ .rule → container = none) → P ns st → P (ns ++ [n]) ⟨push container (.child n) st.items, st.next⟩)
    {next : Nat} (h : P [] ⟨[], next⟩) (ns : List (Node Nat)) :
    P ns (ns.foldl (c.place used root) ⟨[], next⟩) := by
  have hplace : ∀ (done : List (Node Nat)) (st : Placing) (n : Node Nat), (pathsAll st.items).Nodup →
      P done st → P (done ++ [n]) (c.place used root st n) := by
    intro done st n hn hp
    unfold place
    cases hhome : c.homeOf? used n with
    | none => exact hchild done st none n hn (by simp) (fun _ => rfl) hp
    | some home =>
      -- only rules belong to a collection
      have hkind : n.kind = .rule := by
        cases n with
        | rule => rfl
        | group => cases hhome
        | ruleGroup => cases hhome
      obtain ⟨hn', hc, -⟩ := openChain_spec (c.chain root home) st none hn (by simp)
      have hopen := openChain_keeps (P := P done) (hmade done) (c.chain root home) st none hn (by simp) hp
      exact hchild done _ _ n hn' hc (fun hne => absurd hkind hne) hopen
  have run : ∀ (todo done : List (Node Nat)) (st : Placing), Placed c used root done st → P done st →
      P (done ++ todo) (todo.foldl (c.place used root) st) := by
    intro todo
    induction todo with
    | nil =>
      intro done st _ hp
      simpa using hp
    | cons n rest ih =>
      intro done st hplaced hp
      simpa using ih (done ++ [n]) _ (placed_place c used root hplaced n) (hplace done st n hplaced.nodup hp)
  simpa using run ns [] ⟨[], next⟩ (placed_empty c used root next) h

end Converter
end RuleTree
