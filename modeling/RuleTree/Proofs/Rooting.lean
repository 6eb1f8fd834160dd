/-
  RuleTree.Proofs.Rooting — where the nodes in a rule group may stand.

  What stands in a rule group is to lie under its field. It does, but for the rule groups
  that `reconcile` makes on the way to a collection: they go down from the first name of the
  path, also in a having clause, which is in the rule group of a longer path already. So a
  node `Fits` a path when it lies under it, or is a rule group without an operator above it.
  - `mem_nodesAll_toNodes`, `rooted_toNodes`: of the rule groups made, what is in
    one lies under it.
  - `converted_reconcileFrom`: a conjunction of nodes that fit a path fits it.
  - `convertsSettled`: what is converted under a path fits it, and all that stands in its
    rule groups fits these.

  Proved of whole imports: `rooted_of_import`, that a node in a rule group lies under its
  field just when it is no such rule group on a path above; `rebuilt_chain_leaves_its_collection`
  has a run with one.
-/

import RuleTree.Proofs.Cars
import RuleTree.Proofs.Paths
import RuleTree.Proofs.Placing
import RuleTree.Proofs.RuleShape

namespace RuleTree

open Path

/-! ## Nodes that fit -/

namespace Node

variable {ι : Type} {s : Char} {p q : String} {n : Node ι}

/-- A node lies under a path, or is a rule group without an operator on a path above it. -/
def Fits (s : Char) (root : String) (d : Node ι) : Prop :=
  ∀ p, d.field? = some p → Under s p root ∨ d.operator? = none ∧ Under s root p

/-- What stands in a rule group fits its field. -/
def Rooted (s : Char) (n : Node ι) : Prop :=
  ∀ id p cs, .ruleGroup id p cs ∈ n.nodes → ∀ d ∈ nodesAll cs, d.Fits s p.field

/-- The node is rooted and fits the path it was converted under. -/
structure Settled (s : Char) (parent : Option String) (n : Node ι) : Prop where
  rooted : n.Rooted s
  fits : ∀ p ∈ parent, ∀ d ∈ n.nodes, d.Fits s p

theorem fits_of_under {d : Node ι} (h : d.Fits s p) (hp : Under s p q) : d.Fits s q := by
  intro r hr
  rcases h r hr with h | ⟨ho, h⟩
  · exact .inl (under_trans h hp)
  · exact (under_or_under h hp).imp_right fun h => ⟨ho, h⟩

theorem settled_of_mem {parent : Option String} {ns : List (Node ι)}
    (hr : ∀ id p cs, .ruleGroup id p cs ∈ nodesAll ns → ∀ d ∈ nodesAll cs, d.Fits s p.field)
    (hf : ∀ p ∈ parent, ∀ d ∈ nodesAll ns, d.Fits s p) : ∀ m ∈ ns, m.Settled s parent := by
  intro m hm
  exact ⟨fun id p cs hg => hr id p cs (mem_nodesAll.mpr ⟨m, hm, hg⟩),
    fun p hp d hd => hf p hp d (mem_nodesAll.mpr ⟨m, hm, hd⟩)⟩

theorem settled_of_mem_children {parent : Option String} (h : n.Settled s parent) :
    ∀ m ∈ n.children, m.Settled s parent :=
  settled_of_mem (fun id p cs hg => h.rooted id p cs (mem_nodes.mpr (.inr hg)))
    fun p hp d hd => h.fits p hp d (mem_nodes.mpr (.inr hd))

theorem settled_group {parent : Option String} {id : ι} {props : GroupProps} {cs : List (Node ι)}
    (h : ∀ m ∈ cs, m.Settled s parent) : (group id props cs).Settled s parent := by
  constructor
  · intro id' p ds hg
    rcases mem_nodes.mp hg with hg | hg
    · cases hg
    · obtain ⟨m, hm, hg⟩ := mem_nodesAll.mp hg
      exact (h m hm).rooted id' p ds hg
  · intro p hp d hd
    rcases mem_nodes.mp hd with rfl | hd
    · intro q hq
      cases hq
    · obtain ⟨m, hm, hd⟩ := mem_nodesAll.mp hd
      exact (h m hm).fits p hp d hd

theorem settled_rule {parent : Option String} {id : ι} {props : RuleProps}
    (h : ∀ p ∈ parent, Under s props.field p) : (rule id props).Settled s parent := by
  constructor
  · intro id' p ds hg
    simp [nodes] at hg
  · intro p hp d hd
    simp only [nodes, List.mem_singleton] at hd
    rintro q hq
    subst hd
    cases hq
    exact .inl (h p hp)

/-- A rule group is settled when its children are, for it as for its parent. -/
theorem settled_ruleGroup {parent : Option String} {id : ι} {props : RuleGroupProps} {cs : List (Node ι)}
    (h : ∀ m ∈ cs, m.Settled s (some props.field))
    (hp : ∀ p ∈ parent, ∀ m ∈ cs, ∀ d ∈ m.nodes, d.Fits s p)
    (hown : ∀ p ∈ parent, (ruleGroup id props cs).Fits s p) : (ruleGroup id props cs).Settled s parent := by
  constructor
  · intro id' p ds hg
    rcases mem_nodes.mp hg with hg | hg
    · cases hg
      intro d hd
      obtain ⟨m, hm, hd⟩ := mem_nodesAll.mp hd
      exact (h m hm).fits _ rfl d hd
    · obtain ⟨m, hm, hg⟩ := mem_nodesAll.mp hg
      exact (h m hm).rooted id' p ds hg
  · intro p hp' d hd
    rcases mem_nodes.mp hd with rfl | hd
    · exact hown p hp'
    · obtain ⟨m, hm, hd⟩ := mem_nodesAll.mp hd
      exact hp p hp' m hm d hd

/-- A node whose field lies under a path fits it with all that is in it. -/
theorem fits_of_rooted (hr : n.Rooted s) (hf : n.field? = some p) (hp : Under s p q) :
    ∀ d ∈ n.nodes, d.Fits s q := by
  intro d hd
  rcases mem_nodes.mp hd with rfl | hd
  · intro r hr
    cases hf.symm.trans hr
    exact .inl hp
  · cases n with
    | group => cases hf
    | rule => cases hd
    | ruleGroup id props cs =>
      cases hf
      exact fits_of_under (hr id props cs (self_mem_nodes _) d hd) hp

theorem rooted_rename {κ : Type} (f : ι → κ) (h : n.Rooted s) : (n.rename f).Rooted s := by
  intro id p cs hg d hd
  rw [nodes_rename, List.mem_map] at hg
  obtain ⟨g, hg, he⟩ := hg
  cases g with
  | group => cases he
  | rule => cases he
  | ruleGroup i props ds =>
    rw [rename, ruleGroup.injEq] at he
    obtain ⟨-, rfl, rfl⟩ := he
    rw [nodesAll_renameAll, List.mem_map] at hd
    obtain ⟨d, hd, rfl⟩ := hd
    intro q hq
    rw [field?_rename] at hq
    rw [operator?_rename]
    exact h i props ds hg d hd q hq

end Node

/-! ## Rule groups made for a conjunction -/

namespace Item

variable {s : Char} {conjunction : String} {modeOf : String → Option GroupMode}

mutual

theorem mem_nodes_toNode {d : Node Nat} (home : Option String) : ∀ x : Item,
    d ∈ (x.toNode conjunction modeOf).nodes →
      (∃ h n, (h, .child n) ∈ x.entries home ∧ d ∈ n.nodes) ∨
        ∃ h id p cs, (h, .made id p) ∈ x.entries home ∧
          d = .ruleGroup id { conjunction, field := p, mode := modeOf p } cs
  | child n, hd => .inl ⟨home, n, by simp [entries], hd⟩
  | made id path items, hd => by
    rw [toNode] at hd
    rcases Node.mem_nodes.mp hd with rfl | hd
    · exact .inr ⟨home, id, path, _, by simp [entries], rfl⟩
    · rcases mem_nodesAll_toNodes (some path) items hd with ⟨h, n, hn, hd⟩ | ⟨h, id', p, cs, hm, hd⟩
      · exact .inl ⟨h, n, by simp [entries, hn], hd⟩
      · exact .inr ⟨h, id', p, cs, by simp [entries, hm], hd⟩

/-- A node of a conjunction is one of a child's, or was made for it. -/
theorem mem_nodesAll_toNodes {d : Node Nat} (home : Option String) : ∀ xs : List Item,
    d ∈ Node.nodesAll (toNodes conjunction modeOf xs) →
      (∃ h n, (h, .child n) ∈ entriesAll home xs ∧ d ∈ n.nodes) ∨
        ∃ h id p cs, (h, .made id p) ∈ entriesAll home xs ∧
          d = .ruleGroup id { conjunction, field := p, mode := modeOf p } cs
  | [], hd => absurd hd List.not_mem_nil
  | x :: rest, hd => by
    rw [toNodes, Node.nodesAll, List.mem_append] at hd
    rcases hd with hd | hd
    · rcases mem_nodes_toNode home x hd with ⟨h, n, hn, hd⟩ | ⟨h, id', p, cs, hm, hd⟩
      · exact .inl ⟨h, n, by simp [entriesAll, hn], hd⟩
      · exact .inr ⟨h, id', p, cs, by simp [entriesAll, hm], hd⟩
    · rcases mem_nodesAll_toNodes home rest hd with ⟨h, n, hn, hd⟩ | ⟨h, id', p, cs, hm, hd⟩
      · exact .inl ⟨h, n, by simp [entriesAll, hn], hd⟩
      · exact .inr ⟨h, id', p, cs, by simp [entriesAll, hm], hd⟩

end

/-- An entry lies under the path of the rule group it stands in; of children only rules
stand in one. -/
def LiesIn (s : Char) (home : Option String) : Entry → Prop
  | .child n => ∀ q ∈ home, ∃ id p, n = .rule id p ∧ Under s p.field q
  | .made _ p => ∀ q ∈ home, Under s p q

mutual

theorem rooted_toNode (home : Option String) : ∀ x : Item,
    (∀ h e, (h, e) ∈ x.entries home → LiesIn s h e) →
      (∀ h n, (h, .child n) ∈ x.entries home → n.Rooted s) →
        (x.toNode conjunction modeOf).Rooted s ∧
          ∀ q ∈ home, ∀ d ∈ (x.toNode conjunction modeOf).nodes, ∀ p, d.field? = some p → Under s p q
  | child n, hin, hr => by
    refine ⟨hr home n (by simp [entries]), fun q hq d hd p hp => ?_⟩
    obtain ⟨id, props, rfl, hu⟩ := hin home (.child n) (by simp [entries]) q hq
    simp only [toNode, Node.nodes, List.mem_singleton] at hd
    subst hd
    cases hp
    exact hu
  | made id path items, hin, hr => by
    obtain ⟨hroot, hunder⟩ := rooted_toNodes (some path) items
      (fun h e he => hin h e (by simp [entries, he]))
      (fun h n hn => hr h n (by simp [entries, hn]))
    rw [toNode]
    constructor
    · intro id' p cs hg
      rcases Node.mem_nodes.mp hg with hg | hg
      · cases hg
        exact fun d hd q hq => .inl (hunder path rfl d hd q hq)
      · exact hroot id' p cs hg
    · intro q hq d hd p hp
      have hown : Under s path q := hin home (.made id path) (by simp [entries]) q hq
      rcases Node.mem_nodes.mp hd with rfl | hd
      · cases hp
        exact hown
      · exact under_trans (hunder path rfl d hd p hp) hown

/-- What stands in a rule group that was made lies under it. -/
theorem rooted_toNodes (home : Option String) : ∀ xs : List Item,
    (∀ h e, (h, e) ∈ entriesAll home xs → LiesIn s h e) →
      (∀ h n, (h, .child n) ∈ entriesAll home xs → n.Rooted s) →
        (∀ id p cs, .ruleGroup id p cs ∈ Node.nodesAll (toNodes conjunction modeOf xs) →
            ∀ d ∈ Node.nodesAll cs, d.Fits s p.field) ∧
          ∀ q ∈ home, ∀ d ∈ Node.nodesAll (toNodes conjunction modeOf xs), ∀ p, d.field? = some p →
            Under s p q
  | [], _, _ => ⟨fun _ _ _ hg => absurd hg List.not_mem_nil, fun _ _ _ hd => absurd hd List.not_mem_nil⟩
  | x :: rest, hin, hr => by
    obtain ⟨hroot, hunder⟩ := rooted_toNode home x
      (fun h e he => hin h e (by simp [entriesAll, he]))
      (fun h n hn => hr h n (by simp [entriesAll, hn]))
    obtain ⟨hroots, hunders⟩ := rooted_toNodes home rest
      (fun h e he => hin h e (by simp [entriesAll, he]))
      (fun h n hn => hr h n (by simp [entriesAll, hn]))
    simp only [toNodes, Node.nodesAll, List.mem_append]
    constructor
    · rintro id p cs (hg | hg)
      · exact hroot id p cs hg
      · exact hroots id p cs hg
    · rintro q hq d (hd | hd)
      · exact hunder q hq d hd
      · exact hunders q hq d hd

end

end Item

namespace Converter

variable {c : Converter} {s : Char} {parent : Option String} {used : List String}

/-- The schema's own fields, with a separator of one character that no name holds. -/
structure PlainFields (c : Converter) (s : Char) : Prop where
  fields : c.fields = c.schema.resolver
  paths : c.schema.PlainPaths s

/-- Settled under the parent, and with a canonical path of its own. -/
structure Converted (s : Char) (parent : Option String) (n : Node Nat) : Prop extends n.Settled s parent where
  spells : ∀ p ∈ n.field?, ∃ xs, Spells s xs p

/-! ## Collections of the children -/

theorem mem_foldl_addNew {keys : List String} {acc : List String} {k : String} :
    k ∈ keys.foldl addNew acc ↔ k ∈ acc ∨ k ∈ keys := by
  induction keys generalizing acc with
  | nil => simp
  | cons key rest ih =>
    have hadd : k ∈ addNew acc key ↔ k ∈ acc ∨ k = key := by
      unfold addNew
      split
      · rename_i hm
        have hkey : key ∈ acc := by simpa using hm
        exact ⟨.inl, fun h => h.elim id fun h => h ▸ hkey⟩
      · simp
    rw [List.foldl_cons, ih, hadd, List.mem_cons, or_assoc]

theorem mem_usedGroups {children : List (Node Nat)} {home : String} :
    home ∈ c.usedGroups children ↔ ∃ n ∈ children, c.collection? n = some home := by
  simp [usedGroups, mem_foldl_addNew]

/-- A child lies under its collection, which has a canonical path. -/
theorem collection_spec (hp : c.PlainFields s) {n : Node Nat} (hn : ∀ p ∈ n.field?, ∃ xs, Spells s xs p)
    {home : String} (h : c.collection? n = some home) :
    ∃ p xs, n.field? = some p ∧ Under s p home ∧ Spells s xs home := by
  unfold collection? at h
  split at h
  · rename_i g hg
    split at h
    · cases h
      obtain ⟨p, hf, hparent⟩ := Option.bind_eq_some_iff.mp hg
      rw [separator, hp.paths.separator] at hparent
      obtain ⟨xs, hx⟩ := hn p hf
      obtain ⟨ys, -, -, hy⟩ := parent?_spells hx hparent
      exact ⟨p, ys, hf, under_of_parent? hparent, hy⟩
    · cases h
  · cases h

theorem mem_of_longest? {ps : List String} {p : String} (h : longest? ps = some p) : p ∈ ps := by
  induction ps generalizing p with
  | nil => cases h
  | cons q rest ih =>
    unfold longest? at h
    split at h
    · rename_i t ht
      split at h
      · cases h
        exact List.mem_cons_of_mem q (ih ht)
      · cases h
        exact List.mem_cons_self
    · cases h
      exact List.mem_cons_self

theorem homeOf?_spec (hp : c.PlainFields s) {n : Node Nat} {home : String}
    (h : c.homeOf? used n = some home) :
    ∃ id p, n = .rule id p ∧ home ∈ used ∧ Under s p.field home := by
  cases n with
  | rule id p =>
    have hm := mem_of_longest? h
    rw [List.mem_filter, separator, hp.paths.separator] at hm
    exact ⟨id, p, rfl, hm⟩
  | group => cases h
  | ruleGroup => cases h

/-- The paths down to a collection are the ancestors of its path. -/
theorem pathsTo_eq (hf : c.fields = c.schema.resolver) (hs : c.schema.settings.separator = String.singleton s)
    {home : String} {xs : List (List Char)} (hx : Spells s xs home) :
    c.pathsTo home = ancestors (String.singleton s) home := by
  rw [pathsTo, separator, hs, hf]
  have hfix : ∀ q ∈ ancestors (String.singleton s) home, c.schema.resolver.normalize q = id q := by
    intro q hq
    obtain ⟨ys, -, hy⟩ := (ancestors_spells hx).1 q hq
    exact Schema.normalize_of_spells hs hy
  rw [List.map_congr_left hfix, List.map_id]

theorem pathsTo_spec (hp : c.PlainFields s) {home : String} {xs : List (List Char)} (hx : Spells s xs home) :
    (∀ q ∈ c.pathsTo home, (∃ ys, Spells s ys q) ∧ Under s home q) ∧
      (c.pathsTo home).Pairwise fun a b => Under s b a := by
  obtain ⟨hall, hpair⟩ := ancestors_spells hx
  rw [pathsTo_eq hp.fields hp.paths.separator hx]
  refine ⟨fun q hq => ?_, hpair⟩
  obtain ⟨ys, hys, hy⟩ := hall q hq
  exact ⟨⟨ys, hy⟩, (under_iff_names hx hy).mpr hys⟩

/-- What is known of a path in the chain of a child. -/
theorem chainOf_spec (hp : c.PlainFields s) (hu : ∀ home ∈ used, ∃ xs, Spells s xs home)
    (root : Option String) (n : Node Nat) :
    (∀ q ∈ c.chainOf used root n, ∃ id p home, n = .rule id p ∧ home ∈ used ∧ Under s p.field home ∧
        Under s home q) ∧
      (c.chainOf used root n).Pairwise fun a b => Under s b a := by
  unfold chainOf
  split
  · rename_i home hh
    obtain ⟨id, p, rfl, hm, hin⟩ := homeOf?_spec hp hh
    obtain ⟨xs, hx⟩ := hu home hm
    obtain ⟨hall, hpair⟩ := pathsTo_spec hp hx
    refine ⟨fun q hq => ?_, hpair.filter _⟩
    rw [chain, List.mem_filter] at hq
    exact ⟨id, p, home, rfl, hm, hin, (hall q hq.1).2⟩
  · simp

theorem mem_of_mem_links {ps : List String} {h h' : Option String} {p : String}
    (hm : (h', p) ∈ links h ps) : p ∈ ps := by
  induction ps generalizing h with
  | nil => cases hm
  | cons q rest ih =>
    rcases List.mem_cons.mp hm with he | hm
    · cases he
      exact List.mem_cons_self
    · exact List.mem_cons_of_mem q (ih hm)

/-- Each path of a chain is under the one before it. -/
theorem under_of_mem_links {ps : List String} {h : Option String} {q p : String}
    (hpair : ps.Pairwise fun a b => Under s b a) (hstart : ∀ q ∈ h, ∀ p ∈ ps, Under s p q)
    (hm : (some q, p) ∈ links h ps) : Under s p q := by
  induction ps generalizing h with
  | nil => cases hm
  | cons r rest ih =>
    obtain ⟨hr, hpair⟩ := List.pairwise_cons.mp hpair
    rcases List.mem_cons.mp hm with he | hm
    · cases he
      exact hstart q rfl p List.mem_cons_self
    · refine ih hpair (fun q' hq p hp => ?_) hm
      cases hq
      exact hr p hp

/-! ## The node of a conjunction -/

section Reconcile

variable {children : List (Node Nat)}

theorem spells_of_mem_usedGroups (hp : c.PlainFields s)
    (hch : ∀ n ∈ children, ∀ p ∈ n.field?, ∃ xs, Spells s xs p) :
    ∀ home ∈ c.usedGroups children, ∃ xs, Spells s xs home := by
  intro home hm
  obtain ⟨n, hn, hcol⟩ := mem_usedGroups.mp hm
  obtain ⟨_, xs, -, -, hx⟩ := collection_spec hp (hch n hn) hcol
  exact ⟨xs, hx⟩

/-- A path down to a collection of the children lies under the parent or above it. -/
theorem under_of_mem_usedGroups (hp : c.PlainFields s) (hch : ∀ n ∈ children, Converted s parent n)
    {home q : String} (hm : home ∈ c.usedGroups children) (hq : Under s home q) :
    ∀ p ∈ parent, Under s q p ∨ Under s p q := by
  intro p hparent
  obtain ⟨n, hn, hcol⟩ := mem_usedGroups.mp hm
  obtain ⟨r, _, hf, hr, -⟩ := collection_spec hp (hch n hn).spells hcol
  have hrq := under_trans hr hq
  -- the child's own field is under both, or above the parent and so the path is too
  rcases (hch n hn).fits p hparent n (Node.self_mem_nodes n) r hf with h | ⟨-, h⟩
  · exact under_or_under hrq h
  · exact .inr (under_trans h hrq)

/-- The single root is the outermost of the collections, and every child lies in one. -/
theorem outermost_of_singleRoot? {r : String} (h : c.singleRoot? children = some r) :
    outermost c.separator (c.usedGroups children) = [r] ∧
      ∀ n ∈ children, ∃ home, c.collection? n = some home := by
  unfold singleRoot? at h
  split at h
  · rename_i r' hout
    split at h
    · rename_i hall
      cases h
      exact ⟨hout, fun n hn => Option.isSome_iff_exists.mp (List.all_eq_true.mp hall n hn)⟩
    · cases h
  · cases h

theorem mem_of_singleRoot? {r : String} (h : c.singleRoot? children = some r) : r ∈ c.usedGroups children :=
  mem_of_mem_outermost ((outermost_of_singleRoot? h).1 ▸ List.mem_singleton.mpr rfl)

/-- With a single root every child has a field, which lies under it. -/
theorem singleRoot?_spec (hp : c.PlainFields s)
    (hch : ∀ n ∈ children, ∀ p ∈ n.field?, ∃ xs, Spells s xs p) {r : String}
    (h : c.singleRoot? children = some r) :
    r ∈ c.usedGroups children ∧ (∀ home ∈ c.usedGroups children, Under s home r) ∧
      ∀ n ∈ children, ∃ p, n.field? = some p ∧ Under s p r := by
  obtain ⟨hout, hall⟩ := outermost_of_singleRoot? h
  have hunder : ∀ home ∈ c.usedGroups children, Under s home r := by
    intro home hm
    obtain ⟨k, hk, hu⟩ := exists_outermost c.separator hm
    rw [hout, List.mem_singleton] at hk
    rw [separator, hp.paths.separator, hk] at hu
    exact hu
  refine ⟨mem_of_singleRoot? h, hunder, fun n hn => ?_⟩
  obtain ⟨home, hcol⟩ := hall n hn
  obtain ⟨p, _, hf, hu, -⟩ := collection_spec hp (hch n hn) hcol
  exact ⟨p, hf, under_trans hu (hunder home (mem_usedGroups.mpr ⟨n, hn, hcol⟩))⟩

/-- The children of a conjunction where they are put. -/
def placedItems (c : Converter) (children : List (Node Nat)) (next : Nat) : List Item :=
  (children.foldl (c.place (c.usedGroups children) (c.singleRoot? children)) ⟨[], next⟩).items

/-- Every entry lies in its rule group, and those that were made are on the way to a
collection of the children. -/
theorem placedItems_spec (hp : c.PlainFields s) (hch : ∀ n ∈ children, Converted s parent n) (next : Nat) :
    (∀ h n, (h, .child n) ∈ Item.entriesAll none (c.placedItems children next) → n ∈ children) ∧
      (∀ h e, (h, e) ∈ Item.entriesAll none (c.placedItems children next) → Item.LiesIn s h e) ∧
        ∀ h id p, (h, .made id p) ∈ Item.entriesAll none (c.placedItems children next) →
          ∃ home ∈ c.usedGroups children, Under s home p := by
  have hplaced : Placed c (c.usedGroups children) (c.singleRoot? children) children
      ⟨c.placedItems children next, _⟩ :=
    placed_foldl c (c.usedGroups children) (c.singleRoot? children) children next
  have hspec := chainOf_spec hp (spells_of_mem_usedGroups hp fun n hn => (hch n hn).spells) (c.singleRoot? children)
  refine ⟨fun h n hm => ?_, fun h e hm => ?_, fun h id p hm => ?_⟩
  · exact hplaced.children.mem_iff.mp (List.mem_filterMap.mpr ⟨_, hm, rfl⟩)
  · cases e with
    | child n =>
      intro q hq
      rw [hplaced.child_home hm] at hq
      obtain ⟨id, p, home, rfl, -, hin, hu⟩ := (hspec n).1 q (List.mem_of_getLast? hq)
      exact ⟨id, p, rfl, under_trans hin hu⟩
    | made id p =>
      intro q hq
      cases hq
      obtain ⟨n, -, hl⟩ := hplaced.made_link hm
      exact under_of_mem_links (hspec n).2 (fun _ hq => by cases hq) hl
  · obtain ⟨n, -, hl⟩ := hplaced.made_link hm
    obtain ⟨_, _, home, -, hhome, -, hu⟩ := (hspec n).1 p (mem_of_mem_links hl)
    exact ⟨home, hhome, hu⟩

/-- What the children fit and the paths to their collections are comparable with, all nodes
fit. -/
theorem fits_placedItems (hp : c.PlainFields s) (hch : ∀ n ∈ children, Converted s parent n)
    (conjunction : String) (next : Nat) {q : String} (hkept : ∀ m ∈ children, ∀ d ∈ m.nodes, d.Fits s q)
    (hnew : ∀ home ∈ c.usedGroups children, ∀ p, Under s home p → Under s p q ∨ Under s q p) :
    ∀ d ∈ Node.nodesAll (Item.toNodes conjunction c.modeOf (c.placedItems children next)), d.Fits s q := by
  obtain ⟨hchild, -, hmade⟩ := placedItems_spec hp hch next
  intro d hd
  rcases Item.mem_nodesAll_toNodes none _ hd with ⟨h, m, hm, hd⟩ | ⟨h, id, p, cs, hm, rfl⟩
  · exact hkept m (hchild h m hm) d hd
  · obtain ⟨home, hhome, hu⟩ := hmade h id p hm
    intro r hr
    cases hr
    exact (hnew home hhome p hu).imp_right fun h => ⟨rfl, h⟩

/-- Of a conjunction over nodes that fit the parent, all nodes do, and what stands in a rule
group fits it. -/
theorem converted_reconcileFrom (hp : c.PlainFields s) (hch : ∀ n ∈ children, Converted s parent n)
    (conjunction : String) (negated : Bool) (n : Nat) :
    Converted s parent (c.reconcileFrom conjunction negated children n).1 := by
  obtain ⟨hchild, hin, -⟩ := placedItems_spec hp hch (n + 1)
  have hfits := fun q => fits_placedItems (q := q) hp hch conjunction (n + 1)
  have hrooted : ∀ id p cs,
      .ruleGroup id p cs ∈ Node.nodesAll (Item.toNodes conjunction c.modeOf (c.placedItems children (n + 1))) →
        ∀ d ∈ Node.nodesAll cs, d.Fits s p.field :=
    (Item.rooted_toNodes none _ hin fun h m hm => (hch m (hchild h m hm)).rooted).1
  have hsettled := Node.settled_of_mem hrooted fun q hq => hfits q (fun m hm d hd => (hch m hm).fits q hq d hd)
    fun home hhome p hu => under_of_mem_usedGroups hp hch hhome hu q hq
  unfold reconcileFrom
  simp only
  split
  · rename_i r hroot
    obtain ⟨hr, hhomes, hfields⟩ := singleRoot?_spec hp (fun n hn => (hch n hn).spells) hroot
    split
    · -- the rule group of the single root holds all, and every child lies under it
      refine ⟨Node.settled_ruleGroup ?_ ?_ ?_, ?_⟩
      · refine Node.settled_of_mem hrooted fun q hq => ?_
        cases hq
        refine hfits r (fun m hm => ?_) fun home hhome p hu => under_or_under hu (hhomes home hhome)
        obtain ⟨p, hf, hu⟩ := hfields m hm
        exact Node.fits_of_rooted (hch m hm).rooted hf hu
      · exact fun q hq m hm => (hsettled m hm).fits q hq
      · intro q hq p hf
        cases hf
        exact (under_of_mem_usedGroups hp hch hr (under_refl s r) q hq).imp_right fun h => ⟨rfl, h⟩
      · intro p hf
        cases hf
        exact spells_of_mem_usedGroups hp (fun n hn => (hch n hn).spells) r hr
    · exact ⟨Node.settled_group hsettled, fun p hf => by cases hf⟩
  · exact ⟨Node.settled_group hsettled, fun p hf => by cases hf⟩

end Reconcile

/-! ## Conversions -/

/-- Rule groups that children may be put in. -/
def Holds (s : Char) (path : String) (g : RuleGroup) : Prop := ∀ m ∈ g.children, m.Settled s (some path)

theorem settled_wrapOn {path : String} {f : Field} {conjunction : Option String} {n : Node Nat}
    (h : n.Settled s (some path)) :
    Run.Always (fun g => g.toNode.Settled s (some path)) (c.wrapOn path f conjunction n) := by
  refine Run.always_bind Run.always_draw fun id _ => Run.always_pure ?_
  refine Node.settled_ruleGroup (by simpa using h) (fun q hq m hm => ?_) fun q hq p hf => ?_
  · rw [List.mem_singleton.mp hm]
    exact h.fits q hq
  · cases hq
    cases hf
    exact .inl (under_refl s path)

theorem settled_dissolve {path conjunction : String} {n : Node Nat} (h : n.Settled s parent) :
    ∀ m ∈ dissolve path conjunction n, m.Settled s parent := by
  unfold dissolve
  split
  · split
    · exact Node.settled_of_mem_children h
    · simpa using h
  · simpa using h

theorem holds_rehome {path : String} {f : Field} {n : Node Nat} (h : n.Settled s (some path)) :
    Run.Always (Holds s path) (c.rehome path f n) := by
  have hcs := Node.settled_of_mem_children h
  cases n with
  | rule => exact Run.always_mono (fun _ => Node.settled_of_mem_children) (settled_wrapOn h)
  | group id p cs =>
    refine Run.always_pure fun m hm => ?_
    obtain ⟨m', hm', hm⟩ := List.mem_flatMap.mp hm
    exact settled_dissolve (hcs m' hm') m hm
  | ruleGroup id p cs =>
    unfold rehome
    simp only
    split
    · exact Run.always_pure hcs
    · exact Run.always_mono (fun _ => Node.settled_of_mem_children) (settled_wrapOn h)

/-- The conversions of the parts settle their nodes under canonical parents. -/
def ConvertsSettled (s : Char) (sub : SubRuns) : Prop :=
  ∀ e negated parent, (∀ p ∈ parent, ∃ xs, Spells s xs p) →
    Run.Always (∀ n ∈ ·, Converted s parent n) (sub.rule e negated parent)

variable {sub : SubRuns}

theorem converted_convertConjunction (hp : c.PlainFields s) (h : ConvertsSettled s sub)
    (hparent : ∀ p ∈ parent, ∃ xs, Spells s xs p) (conjunction : String) (args : List Json) (negated : Bool) :
    Run.Always (∀ n ∈ ·, Converted s parent n) (c.convertConjunction sub conjunction args negated parent) := by
  refine Run.always_bind (Run.always_filterMap fun a _ => h a false parent hparent) fun children hch => ?_
  refine Run.always_bind (Run.always_drawing fun n => converted_reconcileFrom hp hch conjunction negated n) ?_
  exact fun n hn => Run.always_pure (by simpa using hn)

theorem holds_convertHaving (hp : c.PlainFields s) (h : ConvertsSettled s sub) {path : String}
    (hpath : ∃ xs, Spells s xs path) (having : Json) (f : Field) :
    Run.Always (∀ g ∈ ·, Holds s path g) (c.convertHaving sub having path f) := by
  have hparent : ∀ p ∈ some path, ∃ xs, Spells s xs p := by simpa using hpath
  unfold convertHaving
  split
  · refine Run.always_bind (Run.always_filterMap fun a _ => h a false _ hparent) fun children hch => ?_
    refine Run.always_bind (Run.always_drawing fun n => converted_reconcileFrom hp hch _ false n) fun n hn => ?_
    exact Run.always_bind (holds_rehome hn.toSettled) fun g hg => Run.always_pure (by simpa using hg)
  · refine Run.always_andThen (h having false _ hparent) (by simp) fun n hn => ?_
    refine Run.always_bind (settled_wrapOn hn.toSettled) fun g hg => ?_
    exact Run.always_bind (holds_rehome hg) fun g hg => Run.always_pure (by simpa using hg)

/-- The path of a rule is canonical, whatever the parent. -/
theorem spells_path (hp : c.PlainFields s) {e : Json} {shape : RuleShape} {r : ParsedRule}
    (h : c.parseRule e shape parent = .ok r) : ∃ xs, Spells s xs r.path := by
  have hres := resolve_of_parseRule h
  obtain ⟨reversed, h⟩ := exists_tryParse h
  obtain ⟨_, _, operand, field, _, -, -, -, -, -, -, rfl⟩ := tryParse_eq_ok.mp h
  simp only [found, composePath, hp.fields] at hres ⊢
  cases parent with
  | none => exact Schema.spells_normalize hp.paths hres
  | some q => exact Schema.spells_normalize hp.paths hres

/-- The path of a rule is canonical and lies under the parent. -/
theorem spells_of_parseRule (hp : c.PlainFields s) (hparent : ∀ p ∈ parent, ∃ xs, Spells s xs p)
    {e : Json} {shape : RuleShape} {r : ParsedRule} (h : c.parseRule e shape parent = .ok r) :
    (∃ xs, Spells s xs r.path) ∧ ∀ p ∈ parent, Under s r.path p := by
  refine ⟨spells_path hp h, fun q hq => ?_⟩
  obtain ⟨reversed, h⟩ := exists_tryParse h
  obtain ⟨_, _, operand, _, _, -, -, -, -, -, -, rfl⟩ := tryParse_eq_ok.mp h
  cases parent with
  | none => cases hq
  | some p =>
    cases hq
    obtain ⟨xs, hx⟩ := hparent q rfl
    obtain ⟨ys, hpre, hy⟩ := Schema.spells_normalize_under hp.paths hx operand.path
    simp only [found, composePath, hp.fields, separator]
    exact (under_iff_names hy hx).mpr hpre

theorem holds_groupBody (hp : c.PlainFields s) (h : ConvertsSettled s sub) {r : ParsedRule}
    (hpath : ∃ xs, Spells s xs r.path) : Run.Always (∀ g ∈ ·, Holds s r.path g) (c.groupBody sub r) := by
  unfold groupBody
  split
  · exact holds_convertHaving hp h hpath _ _
  · refine Run.always_bind Run.always_draw fun id _ => Run.always_pure ?_
    rintro g hg m hm
    cases hg
    cases hm

theorem converted_ruleNode (hp : c.PlainFields s) (h : ConvertsSettled s sub) {r : ParsedRule}
    (hpath : ∃ xs, Spells s xs r.path) (hunder : ∀ p ∈ parent, Under s r.path p)
    (op : String) (negated : Bool) (operands : List Operand) :
    Run.Always (∀ n ∈ ·, Converted s parent n) (c.ruleNode sub r op negated operands) := by
  unfold ruleNode
  split
  · refine Run.always_andThen (holds_groupBody hp h hpath) (by simp) fun g hg => Run.always_pure ?_
    rintro n hn
    cases hn
    refine ⟨Node.settled_ruleGroup hg (fun p hq m hm d hd => ?_) fun p hq q hf => ?_, fun q hf => ?_⟩
    · exact Node.fits_of_under ((hg m hm).fits r.path rfl d hd) (hunder p hq)
    · cases hf
      exact .inl (hunder p hq)
    · cases hf
      exact hpath
  · refine Run.always_bind Run.always_draw fun id _ => Run.always_pure ?_
    rintro n hn
    cases hn
    refine ⟨Node.settled_rule hunder, fun q hf => ?_⟩
    cases hf
    exact hpath

theorem converted_finishRule (hp : c.PlainFields s) (h : ConvertsSettled s sub) {r : ParsedRule}
    (hpath : ∃ xs, Spells s xs r.path) (hunder : ∀ p ∈ parent, Under s r.path p) (negated : Bool) :
    Run.Always (∀ n ∈ ·, Converted s parent n) (c.finishRule sub r negated parent) := by
  refine Run.always_andThen (P := fun _ => True) (fun _ _ _ _ _ => trivial) (by simp) fun operands _ => ?_
  refine Run.always_andThen (converted_ruleNode hp h hpath hunder _ _ _) (by simp) fun n hn => ?_
  split
  · refine Run.always_bind (P := fun t => Converted s parent t.root) ?_ fun t ht =>
      Run.always_pure (by simpa using ht)
    refine Run.always_bind Run.always_draw fun id _ => Run.always_pure ?_
    exact ⟨Node.settled_group (by simpa using hn.toSettled), fun q hf => by cases hf⟩
  · exact Run.always_pure (by simpa using hn)

theorem converted_ruleStep (hp : c.PlainFields s) (h : ConvertsSettled s sub) (e : Json) (negated : Bool)
    (hparent : ∀ p ∈ parent, ∃ xs, Spells s xs p) :
    Run.Always (∀ n ∈ ·, Converted s parent n) (c.ruleStep sub e negated parent) := by
  unfold ruleStep
  split
  · exact Run.always_fail (by simp)
  split
  · exact h _ _ _ hparent
  split
  · exact converted_convertConjunction hp h hparent _ _ _
  · unfold convertOp
    split
    · exact Run.always_fail (by simp)
    · rename_i r hr
      obtain ⟨hpath, hunder⟩ := spells_of_parseRule hp hparent hr
      have hfold : (foldHaving r negated).1.path = r.path := by rw [foldHaving_eq]
      rw [assembleRule_eq]
      exact converted_finishRule hp h (hfold ▸ hpath) (hfold ▸ hunder) _

/-- Whatever is converted under a canonical parent is settled under it. -/
theorem convertsSettled (hp : c.PlainFields s) (n : Nat) : ConvertsSettled s ⟨c.ruleN n, c.valueN n⟩ := by
  induction n with
  | zero => exact fun _ _ _ _ => Run.always_stuck
  | succ n ih => exact fun e negated _ hparent => converted_ruleStep hp ih e negated hparent

/-! ## Imports -/

theorem rooted_of_importTree (hp : c.PlainFields s) {e : Json} {ι : Type} {ids : Nat → ι} {start : Nat}
    {o : Outcome ι} (ho : c.importTree ids start e = some o) {t : Tree ι} (ht : o.tree = some t) :
    t.root.Rooted s := by
  obtain ⟨o', ho', rfl⟩ := Option.map_eq_some_iff.mp ho
  obtain ⟨d, hd, rfl⟩ := Option.map_eq_some_iff.mp ho'
  obtain ⟨t', ht', rfl⟩ := Option.map_eq_some_iff.mp ht
  have htree : Run.Always (∀ t ∈ ·, Node.Settled s none t.root) (c.treeN (c.limit e) e) := by
    unfold treeN
    split
    · refine Run.always_andThen (convertsSettled hp _ e false none nofun) (by simp) fun n hn => ?_
      refine Run.always_bind (P := fun t => Node.Settled s none t.root) ?_ fun t ht =>
        Run.always_pure (by simpa using ht)
      have hwrap : Run.Always (fun t : Tree Nat => Node.Settled s none t.root) (c.wrap false n) :=
        Run.always_bind Run.always_draw fun id _ =>
          Run.always_pure (Node.settled_group (by simpa using hn.toSettled))
      cases n with
      | group => exact Run.always_pure hn.toSettled
      | rule => exact hwrap
      | ruleGroup => exact hwrap
    · exact Run.always_pure (by simp)
  exact Node.rooted_rename (fun n => ids (start + n)) (htree 0 d hd t' ht').rooted

/-- A node in a rule group lies under its field, unless it is a rule group without an
operator on a path above it. -/
theorem rooted_of_import (c : Converter) {s : Char} (hp : c.PlainFields s) {e : Json} {ι : Type} {ids : Nat → ι}
    {start : Nat} {o : Outcome ι} (ho : c.importTree ids start e = some o) {t : Tree ι} (ht : o.tree = some t)
    {id : ι} {p : RuleGroupProps} {cs : List (Node ι)} (hg : .ruleGroup id p cs ∈ t.nodes) {d : Node ι}
    (hd : d ∈ Node.nodesAll cs) {q : String} (hq : d.field? = some q) :
    isUnder c.separator q p.field = true ↔
      ¬(d.operator? = none ∧ q ≠ p.field ∧ isUnder c.separator p.field q = true) := by
  have hfits := rooted_of_importTree hp ho ht id p cs hg d hd q hq
  rw [separator, hp.paths.separator]
  constructor
  · rintro hu ⟨-, hne, hu'⟩
    exact hne (under_antisymm hu hu')
  · intro hno
    rcases hfits with hu | ⟨hop, hu⟩
    · exact hu
    · by_cases he : q = p.field
      · rw [he]
        exact isUnder_refl _ _
      · exact absurd ⟨hop, he, hu⟩ hno

/-- Somewhere in the tree a node stands in a rule group, and their fields satisfy a condition. -/
def someInside (t : Tree Nat) (cond : String → String → Bool) : Bool :=
  t.nodes.any fun
    | .ruleGroup _ p cs => (Node.nodesAll cs).any fun d => d.field?.any fun q => cond q p.field
    | _ => false

theorem exists_of_someInside {t : Tree Nat} {cond : String → String → Bool}
    (h : someInside t cond = true) :
    ∃ id p cs d q, .ruleGroup id p cs ∈ t.nodes ∧ d ∈ Node.nodesAll cs ∧ d.field? = some q ∧
      cond q p.field = true := by
  obtain ⟨g, hg, h⟩ := List.any_eq_true.mp h
  cases g with
  | group => cases h
  | rule => cases h
  | ruleGroup id p cs =>
    obtain ⟨d, hd, h⟩ := List.any_eq_true.mp h
    obtain ⟨q, hq, h⟩ := (Option.any_eq_true _ _).mp h
    exact ⟨id, p, cs, d, q, hg, hd, hq, h⟩

theorem cars_plainFields : Cars.converter.PlainFields '.' := by
  refine ⟨rfl, rfl, fun name hname => ?_⟩
  simp only [Cars.converter, ofSchema, Cars.schema, Table.keys, List.map_cons, List.map_nil, List.mem_cons,
    List.not_mem_nil, or_false] at hname
  rcases hname with rfl | rfl | rfl <;> exact ⟨by decide, by decide, by decide⟩

/-- Some cars are of a vendor: the rule on the vendor stands in the rule group on cars. -/
theorem rooted_import_of_cars :
    ∃ o t id p cs d q,
      Cars.converter.importTree (fun n => n) 1 (Cars.ofCars "some" (Cars.equals "vendor" "vw")) = some o ∧
      o.tree = some t ∧ .ruleGroup id p cs ∈ t.nodes ∧ d ∈ Node.nodesAll cs ∧ d.field? = some q ∧
      (isUnder Cars.converter.separator q p.field = true ↔
        ¬(d.operator? = none ∧ q ≠ p.field ∧ isUnder Cars.converter.separator p.field q = true)) := by
  obtain ⟨t, ⟨o, ho, -, ht⟩, hin⟩ := exists_importsAs (c := Cars.converter)
    (fun t => someInside t fun _ _ => true) (Cars.ofCars "some" (Cars.equals "vendor" "vw"))
    (by decide +kernel)
  obtain ⟨id, p, cs, d, q, hg, hd, hq, -⟩ := exists_of_someInside hin
  exact ⟨o, t, id, p, cs, d, q, ho, ht, hg, hd, hq,
    rooted_of_import Cars.converter cars_plainFields ho ht hg hd hq⟩

/-- Some cars of the user are of a vendor and not older than a year: the rule on the vendor
comes to stand in rule groups for the user and the user's cars, which stand in the one for
the user's cars. -/
theorem rebuilt_chain_leaves_its_collection :
    Cars.converter.PlainFields '.' ∧ ∃ t id p cs d q, Cars.converter.ImportsAs (fun n => n) 1
        (Cars.call "some" [Cars.read "user.cars", Cars.call "and" [Cars.equals "vendor" "vw",
          Cars.not (Cars.call "<" [Cars.read "year", .str "1999"])]]) t ∧
      .ruleGroup id p cs ∈ t.nodes ∧ d ∈ Node.nodesAll cs ∧ d.field? = some q ∧
      isUnder Cars.converter.separator q p.field = false := by
  obtain ⟨t, ht, hin⟩ := exists_importsAs (c := Cars.converter)
    (fun t => someInside t fun q p => !isUnder Cars.converter.separator q p)
    (Cars.call "some" [Cars.read "user.cars", Cars.call "and" [Cars.equals "vendor" "vw",
      Cars.not (Cars.call "<" [Cars.read "year", .str "1999"])]]) (by decide +kernel)
  obtain ⟨id, p, cs, d, q, hg, hd, hq, hnot⟩ := exists_of_someInside hin
  exact ⟨cars_plainFields, t, id, p, cs, d, q, ht, hg, hd, hq, by simpa using hnot⟩

end Converter
end RuleTree
