/-
  RuleTree.Proofs.Addresses — where the children of a conjunction are found in its node.

  An address goes down from a node by the numbers of the children (`Node.at?`), and among
  items likewise (`Item.entryAmong?`). Putting an item in a rule group gives it an address
  behind all that is there, and leaves every other entry where it is (`exists_adds`). So
  a child stays where it was put, however many rule groups are made after it:
  - `Filed`: each child placed so far has an address of its own, and children of one rule
    group stand in the order they came in.
  - `filed_foldl`: so it is when all are placed.

  Proved of the node of a conjunction: `reconcile_conserves_children`.
-/

import RuleTree.Proofs.Placing

namespace RuleTree

/-! ## Addresses in a node -/

/-- The node at an address. -/
def Node.at? {ι : Type} : Node ι → List Nat → Option (Node ι)
  | n, [] => some n
  | n, k :: rest => n.children[k]?.bind fun m => m.at? rest

/-- Of two addresses in one rule group, the first comes first. -/
def InOrder (a b : List Nat) : Prop := ∀ home k l, a = home ++ [k] → b = home ++ [l] → k < l

/-! ## Addresses among items -/

namespace Item

/-- What a rule group that was made holds. -/
def inner : Item → List Item
  | child _ => []
  | made _ _ items => items

def entry : Item → Entry
  | child n => .child n
  | made id path _ => .made id path

/-- The entry at an address in an item. -/
def entryAt? : Item → List Nat → Option Entry
  | x, [] => some x.entry
  | x, k :: rest => x.inner[k]?.bind fun y => y.entryAt? rest

/-- The entry at an address among items. -/
def entryAmong? (items : List Item) : List Nat → Option Entry
  | [] => none
  | k :: rest => items[k]?.bind fun y => y.entryAt? rest

theorem entryAmong?_zero (x : Item) (rest : List Item) (b : List Nat) :
    entryAmong? (x :: rest) (0 :: b) = x.entryAt? b := rfl

theorem entryAmong?_succ (x : Item) (rest : List Item) (k : Nat) (b : List Nat) :
    entryAmong? (x :: rest) ((k + 1) :: b) = entryAmong? rest (k :: b) := by
  simp [entryAmong?]

theorem entryAt?_of_inner_nil {x : Item} (hx : x.inner = []) (b : List Nat) :
    x.entryAt? b = if b = [] then some x.entry else none := by
  cases b with
  | nil => rfl
  | cons k rest => simp [entryAt?, hx]

theorem lt_length_of_entryAmong? {items : List Item} {k : Nat} {rest : List Nat} {e : Entry}
    (h : entryAmong? items (k :: rest) = some e) : k < items.length := by
  obtain ⟨y, hy, -⟩ := Option.bind_eq_some_iff.mp h
  exact (List.getElem?_eq_some_iff.mp hy).1

mutual

/-- Behind a child there is nothing. -/
theorem entryAt?_behind_child {n : Node Nat} (k : Nat) (rest : List Nat) : ∀ (a : List Nat) (x : Item),
    x.entryAt? a = some (.child n) → x.entryAt? (a ++ k :: rest) = none
  | [], x, h => by
    cases x with
    | child m => simp [entryAt?, inner]
    | made id p items => simp [entryAt?, entry] at h
  | j :: a, x, h => entryAmong?_behind_child k rest (j :: a) x.inner h

theorem entryAmong?_behind_child {n : Node Nat} (k : Nat) (rest : List Nat) : ∀ (a : List Nat) (items : List Item),
    entryAmong? items a = some (.child n) → entryAmong? items (a ++ k :: rest) = none
  | [], items, h => by simp [entryAmong?] at h
  | j :: a, items, h => by
    obtain ⟨y, hy, h⟩ := Option.bind_eq_some_iff.mp h
    have hnone := entryAt?_behind_child k rest a y h
    simp [entryAmong?, hy, hnone]

end

/-! ## One entry more -/

/-- One entry more, behind all that its rule group holds; all others are where they were. -/
structure Adds (before after : List Nat → Option Entry) (home : List Nat) (k : Nat) (e : Entry) : Prop where
  behind : ∀ {l e'}, before (home ++ [l]) = some e' → l < k
  after_eq : ∀ b, after b = if b = home ++ [k] then some e else before b

section Adds

variable {before after : List Nat → Option Entry} {home : List Nat} {k : Nat} {e e' : Entry} {b : List Nat}

theorem Adds.new (h : Adds before after home k e) : after (home ++ [k]) = some e := by
  rw [h.after_eq, if_pos rfl]

theorem Adds.old (h : Adds before after home k e) (hb : before b = some e') : after b = some e' := by
  have hne : b ≠ home ++ [k] := by
    rintro rfl
    exact Nat.lt_irrefl k (h.behind hb)
  rw [h.after_eq, if_neg hne, hb]

theorem Adds.cases (h : Adds before after home k e) (hb : after b = some e') :
    b = home ++ [k] ∧ e' = e ∨ before b = some e' := by
  rw [h.after_eq] at hb
  split at hb
  · rename_i hnew
    exact .inl ⟨hnew, (Option.some.inj hb).symm⟩
  · exact .inr hb

end Adds

theorem adds_append {x : Item} (hx : x.inner = []) (items : List Item) :
    Adds (entryAmong? items) (entryAmong? (items ++ [x])) [] items.length x.entry := by
  refine ⟨fun hl => lt_length_of_entryAmong? hl, fun b => ?_⟩
  rw [List.nil_append]
  cases b with
  | nil => rfl
  | cons k rest =>
    rcases Nat.lt_trichotomy k items.length with hk | rfl | hk
    · have hne : k ≠ items.length := Nat.ne_of_lt hk
      simp [entryAmong?, List.getElem?_append_left hk, hne]
    · simp [entryAmong?, entryAt?_of_inner_nil hx]
    · have hne : k ≠ items.length := Nat.ne_of_gt hk
      have hnone : items[k]? = none := List.getElem?_eq_none (Nat.le_of_lt hk)
      have hnone' : (items ++ [x])[k]? = none := by
        rw [List.getElem?_eq_none_iff, List.length_append, List.length_singleton]
        omega
      simp [entryAmong?, hnone, hnone', hne]

mutual

theorem adds_pushUnder (path : String) {x : Item} (hx : x.inner = []) : ∀ y : Item,
    path ∈ y.paths → y.paths.Nodup →
      ∃ home k, Adds y.entryAt? (pushUnder path x y).entryAt? home k x.entry
  | child n, h, _ => by simp [paths] at h
  | made id p items, h, hn => by
    simp only [paths, List.mem_cons, List.nodup_cons] at h hn
    by_cases hp : p = path
    · -- the item is last in this rule group, and goes nowhere else
      subst hp
      have hadds := adds_append hx items
      refine ⟨[], items.length, fun hl => hadds.behind hl, fun b => ?_⟩
      rw [pushUnder, if_pos rfl, pushUnderAll_of_not_mem p x items hn.1]
      cases b with
      | nil => rfl
      | cons k rest => exact hadds.after_eq (k :: rest)
    · have hm := h.resolve_left (Ne.symm hp)
      obtain ⟨i, home, k, hadds⟩ := adds_pushUnderAll path hx items hm hn.2
      refine ⟨i :: home, k, fun hl => hadds.behind hl, fun b => ?_⟩
      rw [pushUnder, if_neg hp]
      cases b with
      | nil => simp [entryAt?, entry]
      | cons j rest => exact hadds.after_eq (j :: rest)

theorem adds_pushUnderAll (path : String) {x : Item} (hx : x.inner = []) : ∀ ys : List Item,
    path ∈ pathsAll ys → (pathsAll ys).Nodup →
      ∃ i home k, Adds (entryAmong? ys) (entryAmong? (pushUnderAll path x ys)) (i :: home) k x.entry
  | [], h, _ => by simp [pathsAll] at h
  | y :: rest, h, hn => by
    simp only [pathsAll, List.mem_append, List.nodup_append] at h hn
    obtain ⟨hy, hrest, hdis⟩ := hn
    by_cases hm : path ∈ y.paths
    · have hnr : path ∉ pathsAll rest := fun hr => hdis path hm path hr rfl
      obtain ⟨home, k, hadds⟩ := adds_pushUnder path hx y hm hy
      refine ⟨0, home, k, fun hl => hadds.behind hl, fun b => ?_⟩
      rw [pushUnderAll, pushUnderAll_of_not_mem path x rest hnr]
      rcases b with - | ⟨- | j, b⟩
      · simp [entryAmong?]
      · simp [entryAmong?_zero, hadds.after_eq b]
      · rw [entryAmong?_succ, entryAmong?_succ, if_neg (by simp)]
    · obtain ⟨i, home, k, hadds⟩ := adds_pushUnderAll path hx rest (h.resolve_left hm) hrest
      refine ⟨i + 1, home, k, fun {l e'} hl => ?_, fun b => ?_⟩
      · rw [List.cons_append, entryAmong?_succ] at hl
        exact hadds.behind hl
      · rw [pushUnderAll, pushUnder_of_not_mem path x y hm]
        rcases b with - | ⟨- | j, b⟩
        · simp [entryAmong?]
        · rw [entryAmong?_zero, entryAmong?_zero, if_neg (by simp)]
        · rw [entryAmong?_succ, entryAmong?_succ, hadds.after_eq (j :: b)]
          simp

end

/-- An item that holds nothing, put in a rule group that is there, is one entry more. -/
theorem exists_adds {container : Option String} {x : Item} {items : List Item} (hx : x.inner = [])
    (hc : ∀ p ∈ container, p ∈ pathsAll items) (hn : (pathsAll items).Nodup) :
    ∃ home k, Adds (entryAmong? items) (entryAmong? (push container x items)) home k x.entry ∧
      (container = none → home = []) := by
  cases container with
  | none => exact ⟨[], items.length, adds_append hx items, fun _ => rfl⟩
  | some p =>
    obtain ⟨i, home, k, hadds⟩ := adds_pushUnderAll p hx items (hc p rfl) hn
    exact ⟨i :: home, k, hadds, nofun⟩

theorem pathsAll_eq_flatMap (items : List Item) : pathsAll items = items.flatMap paths := by
  induction items with
  | nil => rfl
  | cons x rest ih => rw [pathsAll, ih, List.flatMap_cons]

theorem mem_pathsAll_of_entryAmong? {id : Nat} {p : String} {a : List Nat} {items : List Item}
    (h : entryAmong? items a = some (.made id p)) : p ∈ pathsAll items := by
  induction a generalizing items with
  | nil => simp [entryAmong?] at h
  | cons k rest ih =>
    obtain ⟨y, hy, h⟩ := Option.bind_eq_some_iff.mp h
    have hp : p ∈ y.paths := by
      cases y with
      | child n => cases rest <;> simp [entryAt?, entry, inner] at h
      | made i q inside =>
        cases rest with
        | nil =>
          simp only [entryAt?, entry, Option.some.injEq, Entry.made.injEq] at h
          simp [paths, h.2]
        | cons l rest => exact List.mem_cons_of_mem q (ih h)
    rw [pathsAll_eq_flatMap]
    exact List.mem_flatMap.mpr ⟨y, List.mem_of_getElem? hy, hp⟩

/-! ## The nodes of items -/

section Nodes

variable {conjunction : String} {modeOf : String → Option GroupMode}

theorem getElem?_toNodes (items : List Item) (k : Nat) :
    (toNodes conjunction modeOf items)[k]? = items[k]?.map (toNode conjunction modeOf) := by
  induction items generalizing k with
  | nil => rfl
  | cons x rest ih =>
    cases k with
    | zero => rfl
    | succ k => simpa [toNodes] using ih k

theorem at?_of_entryAt? {n : Node Nat} {a : List Nat} {x : Item} (h : x.entryAt? a = some (.child n)) :
    (x.toNode conjunction modeOf).at? a = some n := by
  induction a generalizing x with
  | nil =>
    cases x with
    | child m =>
      simp only [entryAt?, entry, Option.some.injEq, Entry.child.injEq] at h
      simp [toNode, Node.at?, h]
    | made i p items => simp [entryAt?, entry] at h
  | cons k rest ih =>
    obtain ⟨y, hy, hn⟩ := Option.bind_eq_some_iff.mp h
    cases x with
    | child m => simp [inner] at hy
    | made i p items =>
      rw [inner] at hy
      simp [toNode, Node.at?, Node.children, getElem?_toNodes, hy, ih hn]

/-- What is found at an address is at a child or in one, or was made. -/
theorem entryAt?_of_at? {d : Node Nat} {a : List Nat} {x : Item}
    (h : (x.toNode conjunction modeOf).at? a = some d) :
    (∃ b n, b <+: a ∧ x.entryAt? b = some (.child n)) ∨
      ∃ id p cs, x.entryAt? a = some (.made id p) ∧
        d = .ruleGroup id { conjunction, field := p, mode := modeOf p } cs := by
  induction a generalizing x with
  | nil =>
    cases x with
    | child m => exact .inl ⟨[], m, List.prefix_rfl, rfl⟩
    | made i p items =>
      simp only [toNode, Node.at?, Option.some.injEq] at h
      exact .inr ⟨i, p, _, rfl, h.symm⟩
  | cons k rest ih =>
    cases x with
    | child m => exact .inl ⟨[], m, List.nil_prefix, rfl⟩
    | made i p items =>
      simp only [toNode, Node.at?, Node.children, getElem?_toNodes, Option.bind_map] at h
      obtain ⟨y, hy, h⟩ := Option.bind_eq_some_iff.mp h
      have hstep : ∀ c, (made i p items).entryAt? (k :: c) = y.entryAt? c := by
        intro c
        simp [entryAt?, inner, hy]
      rcases ih h with ⟨b, n, hb, hn⟩ | ⟨id, q, cs, hq, hd⟩
      · exact .inl ⟨k :: b, n, List.cons_prefix_cons.mpr ⟨rfl, hb⟩, (hstep b).trans hn⟩
      · exact .inr ⟨id, q, cs, (hstep rest).trans hq, hd⟩

end Nodes

end Item

namespace Converter

open Item

/-! ## Children at their addresses -/

/-- The children placed so far, in order, with the addresses they are at. -/
structure Filed (children : List (Node Nat)) (items : List Item) (places : List (List Nat)) : Prop where
  child_at : List.Forall₂ (fun n a => entryAmong? items a = some (.child n) ∧
    (n.kind ≠ .rule → a.length = 1)) children places
  mem_places : ∀ {a}, a ∈ places ↔ ∃ n, entryAmong? items a = some (.child n)
  ordered : places.Pairwise InOrder
  made_once : ∀ {a b i j p}, entryAmong? items a = some (.made i p) → entryAmong? items b = some (.made j p) →
    a = b

variable {children : List (Node Nat)} {items : List Item} {places : List (List Nat)}

/-- A rule group made for a new path moves no child. -/
theorem filed_push_made {container : Option String} {p : String} (id : Nat)
    (hc : ∀ q ∈ container, q ∈ pathsAll items) (hn : (pathsAll items).Nodup) (hp : p ∉ pathsAll items)
    (h : Filed children items places) : Filed children (push container (.made id p []) items) places := by
  obtain ⟨home, k, hadds, -⟩ := exists_adds (x := .made id p []) rfl hc hn
  have hnew : ∀ {a j}, entryAmong? items a = some (.made j p) → False :=
    fun ha => hp (mem_pathsAll_of_entryAmong? ha)
  refine ⟨?_, fun {a} => ?_, h.ordered, fun {a b i j q} ha hb => ?_⟩
  · exact h.child_at.imp fun n a hna => ⟨hadds.old hna.1, hna.2⟩
  · rw [h.mem_places]
    constructor
    · rintro ⟨n, ha⟩
      exact ⟨n, hadds.old ha⟩
    · rintro ⟨n, ha⟩
      rcases hadds.cases ha with ⟨-, he⟩ | ha
      · cases he
      · exact ⟨n, ha⟩
  · rcases hadds.cases ha with ⟨hae, he⟩ | ha
    · cases he
      rcases hadds.cases hb with ⟨hbe, -⟩ | hb
      · rw [hae, hbe]
      · exact (hnew hb).elim
    · rcases hadds.cases hb with ⟨-, he⟩ | hb
      · cases he
        exact (hnew ha).elim
      · exact h.made_once ha hb

/-- A child that is put somewhere comes behind all children that are there. -/
theorem filed_push_child {container : Option String} {n : Node Nat}
    (hc : ∀ q ∈ container, q ∈ pathsAll items) (hn : (pathsAll items).Nodup)
    (hkind : n.kind ≠ .rule → container = none) (h : Filed children items places) :
    ∃ place, Filed (children ++ [n]) (push container (.child n) items) (places ++ [place]) := by
  obtain ⟨home, k, hadds, hhome⟩ := exists_adds (x := .child n) rfl hc hn
  refine ⟨home ++ [k], ?_, fun {a} => ?_, ?_, fun {a b i j p} ha hb => ?_⟩
  · refine List.rel_append (h.child_at.imp fun m a hma => ⟨hadds.old hma.1, hma.2⟩) (.cons ⟨hadds.new, ?_⟩ .nil)
    intro hk
    rw [hhome (hkind hk)]
    rfl
  · rw [List.mem_append, List.mem_singleton, h.mem_places]
    constructor
    · rintro (⟨m, ha⟩ | rfl)
      · exact ⟨m, hadds.old ha⟩
      · exact ⟨n, hadds.new⟩
    · rintro ⟨m, ha⟩
      rcases hadds.cases ha with ⟨ha, -⟩ | ha
      · exact .inr ha
      · exact .inl ⟨m, ha⟩
  · rw [List.pairwise_append]
    refine ⟨h.ordered, List.pairwise_singleton _ _, fun a ha b hb home' i j hi hj => ?_⟩
    rw [List.mem_singleton.mp hb] at hj
    obtain ⟨rfl, hkj⟩ := List.append_inj' hj rfl
    obtain ⟨m, hm⟩ := h.mem_places.mp ha
    rw [hi] at hm
    rw [← List.singleton_inj.mp hkj]
    exact hadds.behind hm
  · rcases hadds.cases ha with ⟨-, he⟩ | ha
    · cases he
    · rcases hadds.cases hb with ⟨-, he⟩ | hb
      · cases he
      · exact h.made_once ha hb

variable (c : Converter) (used : List String) (root : Option String)

theorem filed_foldl (next : Nat) :
    ∃ places, Filed children (children.foldl (c.place used root) ⟨[], next⟩).items places := by
  have hempty : ∀ {a e}, entryAmong? [] a = some e → False := by
    intro a e h
    cases a <;> simp [entryAmong?] at h
  have hfiled : Filed [] [] [] :=
    ⟨.nil, ⟨nofun, fun ⟨_, h⟩ => (hempty h).elim⟩, .nil, fun h => (hempty h).elim⟩
  refine foldl_place_keeps c used root (P := fun ns st => ∃ places, Filed ns st.items places)
    (fun ns st container p hn hc hp h => ?_) (fun ns st container n hn hc hkind h => ?_) ⟨[], hfiled⟩ children
  · obtain ⟨places, h⟩ := h
    exact ⟨places, filed_push_made st.next hc hn hp h⟩
  · obtain ⟨places, h⟩ := h
    obtain ⟨place, h⟩ := filed_push_child hc hn hkind h
    exact ⟨places ++ [place], h⟩

/-! ## The node of a conjunction -/

/-- A node is made of children under a conjunction: each child is found at a place of its
own, all other nodes below are rule groups made for it, one for a path at most. -/
structure Gathers (conjunction : String) (negated : Bool) (children : List (Node Nat)) (n : Node Nat)
    (places : List (List Nat)) : Prop where
  root : n.conjunction? = some conjunction
  flag : n.isNegated = negated
  operator : n.operator? = none
  args : n.args = []
  /-- Each child is at its place as it came; groups and rule groups are right below. -/
  child_at : List.Forall₂ (fun m a => n.at? a = some m ∧ a ≠ [] ∧ (m.kind ≠ .rule → a.length = 1))
    children places
  /-- No child is in another one. -/
  apart : places.Pairwise fun a b => ¬ a <+: b ∧ ¬ b <+: a
  ordered : places.Pairwise InOrder
  made : ∀ {a d}, n.at? a = some d → a ≠ [] → (∀ b ∈ places, ¬ b <+: a) →
    ∃ id p cs, d = .ruleGroup id p cs ∧ p.conjunction = conjunction ∧ p.negated = false ∧
      p.operator = none ∧ p.args = []
  made_once : ∀ {a b d d'}, n.at? a = some d → n.at? b = some d' → a ≠ [] → b ≠ [] →
    (∀ p ∈ places, ¬ p <+: a) → (∀ p ∈ places, ¬ p <+: b) → d.field? = d'.field? → a = b

theorem apart_of_filed (h : Filed children items places) :
    places.Pairwise fun a b => ¬ a <+: b ∧ ¬ b <+: a := by
  have hnot : ∀ {a b}, a ∈ places → b ∈ places → a ≠ b → ¬ a <+: b := by
    rintro a b ha hb hne ⟨rest, rfl⟩
    obtain ⟨n, hn⟩ := h.mem_places.mp ha
    obtain ⟨m, hm⟩ := h.mem_places.mp hb
    cases rest with
    | nil => simp at hne
    | cons k rest => simp [entryAmong?_behind_child k rest a items hn] at hm
  refine h.ordered.imp_of_mem fun {a b} ha hb hab => ?_
  have hne : a ≠ b := by
    rintro rfl
    obtain ⟨n, hn⟩ := h.mem_places.mp ha
    rcases List.eq_nil_or_concat a with rfl | ⟨home, k, rfl⟩
    · simp [entryAmong?] at hn
    · exact Nat.lt_irrefl k (hab home k k (by simp) (by simp))
  exact ⟨hnot ha hb hne, hnot hb ha hne.symm⟩

section Filed

variable {conjunction : String} {modeOf : String → Option GroupMode} {n : Node Nat}

theorem at?_cons (hcs : n.children = toNodes conjunction modeOf items) (k : Nat) (rest : List Nat) :
    n.at? (k :: rest) = items[k]?.bind fun x => (x.toNode conjunction modeOf).at? rest := by
  rw [Node.at?, hcs, getElem?_toNodes, Option.bind_map]
  rfl

/-- What is found below a node over placed children, and in none of them, was made. -/
theorem made_of_filed (h : Filed children items places) (hcs : n.children = toNodes conjunction modeOf items)
    {a : List Nat} {d : Node Nat} (hd : n.at? a = some d) (hne : a ≠ []) (hout : ∀ b ∈ places, ¬ b <+: a) :
    ∃ id p cs, entryAmong? items a = some (.made id p) ∧
      d = .ruleGroup id { conjunction, field := p, mode := modeOf p } cs := by
  cases a with
  | nil => exact absurd rfl hne
  | cons k rest =>
    rw [at?_cons hcs] at hd
    obtain ⟨x, hx, hd⟩ := Option.bind_eq_some_iff.mp hd
    have hstep : ∀ b, entryAmong? items (k :: b) = x.entryAt? b := by
      intro b
      simp [entryAmong?, hx]
    rcases entryAt?_of_at? hd with ⟨b, m, hb, hm⟩ | ⟨id, p, cs, hp, hd⟩
    · have hplace : k :: b ∈ places := h.mem_places.mpr ⟨m, (hstep b).trans hm⟩
      exact absurd (List.cons_prefix_cons.mpr ⟨rfl, hb⟩) (hout _ hplace)
    · exact ⟨id, p, cs, (hstep rest).trans hp, hd⟩

/-- A node over placed children is made of them. -/
theorem gathers_of_filed {negated : Bool} (h : Filed children items places)
    (hcs : n.children = toNodes conjunction modeOf items) (hc : n.conjunction? = some conjunction)
    (hneg : n.isNegated = negated) (hop : n.operator? = none) (hargs : n.args = []) :
    Gathers conjunction negated children n places := by
  refine ⟨hc, hneg, hop, hargs, h.child_at.imp fun m a hm => ?_, apart_of_filed h, h.ordered,
    fun {a d} hd hne hout => ?_, fun {a b d d'} hd hd' hne hne' hout hout' hf => ?_⟩
  · obtain ⟨hm, hlen⟩ := hm
    cases a with
    | nil => simp [entryAmong?] at hm
    | cons k rest =>
      obtain ⟨x, hx, hm⟩ := Option.bind_eq_some_iff.mp hm
      refine ⟨?_, by simp, hlen⟩
      rw [at?_cons hcs, hx, Option.bind_some]
      exact at?_of_entryAt? hm
  · obtain ⟨id, p, cs, -, rfl⟩ := made_of_filed h hcs hd hne hout
    exact ⟨id, _, cs, rfl, rfl, rfl, rfl, rfl⟩
  · obtain ⟨id, p, cs, hp, rfl⟩ := made_of_filed h hcs hd hne hout
    obtain ⟨id', p', cs', hp', rfl⟩ := made_of_filed h hcs hd' hne' hout'
    simp only [Node.field?, Option.some.injEq] at hf
    subst hf
    exact h.made_once hp hp'

end Filed

theorem gathers_reconcileFrom (conjunction : String) (negated : Bool) {next : Nat}
    (h : Filed children
      (children.foldl (c.place (c.usedGroups children) (c.singleRoot? children)) ⟨[], next + 1⟩).items places) :
    Gathers conjunction negated children (c.reconcileFrom conjunction negated children next).1 places := by
  unfold reconcileFrom
  simp only
  split
  · split
    · exact gathers_of_filed h rfl rfl rfl rfl rfl
    · exact gathers_of_filed h rfl rfl rfl rfl rfl
  · exact gathers_of_filed h rfl rfl rfl rfl rfl

/-- The node of a conjunction is made of the children: none is lost, doubled or changed,
and only rules are moved, into rule groups made for their paths. -/
theorem reconcile_conserves_children (conjunction : String) (negated : Bool) (children : List (Node Nat))
    (next : Nat) :
    ∃ n next' places, c.reconcile conjunction negated children next = some ⟨n, next', []⟩ ∧
      Gathers conjunction negated children n places := by
  have hplaces : ∃ places, Filed children
      (children.foldl (c.place (c.usedGroups children) (c.singleRoot? children)) ⟨[], next + 1⟩).items places :=
    filed_foldl c _ _ (next + 1)
  obtain ⟨places, hfiled⟩ := hplaces
  exact ⟨_, _, places, rfl, gathers_reconcileFrom c conjunction negated hfiled⟩

end Converter
end RuleTree
