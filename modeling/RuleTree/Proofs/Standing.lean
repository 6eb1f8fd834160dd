/-
  RuleTree.Proofs.Standing — when the node of a conjunction stands for a collection.

  The children of a conjunction lie directly in collections or not (`Converter.Uses`). One
  that lies in no other one of those in use is a root, and the conjunction may itself be the
  rule group on the only root, if every child lies directly in a collection (`SharesRoot`).
  - `singleRoot?_eq_some_iff`: eliminating the paths under shorter ones finds the only root.
  - `meetsRoot_iff`: the node becomes a rule group only while a rule is put in its place, so
    there must be a rule among the children.
  - `isAbove_of_made`: no rule group is made for the root or for a path above it.

  Proved of conjunctions: `stands_for_root_iff`. Children that are rule groups share a root
  like rules do, but on their own they leave the conjunction a plain group:
  `rule_groups_share_a_root_in_vain`.
-/

import RuleTree.Proofs.Housing

namespace RuleTree

open Path

namespace Converter

variable {c : Converter} {s : Char} {children : List (Node Nat)} {r : String}

/-! ## The root -/

/-- A collection in use that lies in no other one. -/
def IsRoot (c : Converter) (children : List (Node Nat)) (r : String) : Prop :=
  c.Uses children r ∧ ∀ g, c.Uses children g → isUnder c.separator r g = true → g = r

/-- There is one root, and every child lies directly in a collection. -/
structure SharesRoot (c : Converter) (children : List (Node Nat)) (r : String) : Prop where
  only : ∀ g, c.IsRoot children g ↔ g = r
  inside : ∀ m ∈ children, ∃ p g, m.field? = some p ∧ parent? c.separator p = some g ∧ c.IsCollection g

theorem isRoot_iff : c.IsRoot children r ↔ r ∈ outermost c.separator (c.usedGroups children) := by
  rw [mem_outermost_iff]
  simp only [mem_usedGroups_iff]
  rfl

theorem outermost_eq_singleton_iff {sep : String} {ps : List String} :
    outermost sep ps = [r] ↔ ∀ g, g ∈ outermost sep ps ↔ g = r := by
  constructor
  · intro h g
    rw [h, List.mem_singleton]
  · intro h
    refine List.perm_singleton.mp ?_
    refine (List.perm_ext_iff_of_nodup (nodup_outermost sep ps) (List.nodup_singleton r)).mpr fun g => ?_
    rw [h, List.mem_singleton]

theorem isSome_collection?_iff {m : Node Nat} :
    (c.collection? m).isSome = true ↔
      ∃ p g, m.field? = some p ∧ parent? c.separator p = some g ∧ c.IsCollection g := by
  rw [Option.isSome_iff_exists]
  simp only [collection?_eq_some_iff]
  constructor
  · intro h
    obtain ⟨g, hg, p, hp, hparent⟩ := h
    exact ⟨p, g, hp, hparent, hg⟩
  · intro h
    obtain ⟨p, g, hp, hparent, hg⟩ := h
    exact ⟨g, hg, p, hp, hparent⟩

theorem singleRoot?_eq_some_iff : c.singleRoot? children = some r ↔ c.SharesRoot children r := by
  constructor
  · intro h
    obtain ⟨hout, hall⟩ := outermost_of_singleRoot? h
    refine ⟨fun g => ?_, fun m hm => ?_⟩
    · rw [isRoot_iff]
      exact outermost_eq_singleton_iff.mp hout g
    · exact isSome_collection?_iff.mp (Option.isSome_iff_exists.mpr (hall m hm))
  · intro h
    have hout : outermost c.separator (c.usedGroups children) = [r] := by
      refine outermost_eq_singleton_iff.mpr fun g => ?_
      rw [← isRoot_iff]
      exact h.only g
    have hall : (children.all fun m => (c.collection? m).isSome) = true :=
      List.all_eq_true.mpr fun m hm => isSome_collection?_iff.mpr (h.inside m hm)
    simp only [singleRoot?, hout, hall, if_true]

/-- Children that lie directly in the same collection share it. -/
theorem sharesRoot_of_forall (hne : children ≠ []) (hr : c.IsCollection r)
    (h : ∀ m ∈ children, ∃ p, m.field? = some p ∧ parent? c.separator p = some r) : c.SharesRoot children r := by
  have huses : ∀ g, c.Uses children g ↔ g = r := by
    intro g
    constructor
    · intro hg
      obtain ⟨-, m, hm, q, hq, hparent⟩ := hg
      obtain ⟨p, hp, hparent'⟩ := h m hm
      rw [hp, Option.some.injEq] at hq
      rw [← hq, hparent', Option.some.injEq] at hparent
      exact hparent.symm
    · rintro rfl
      obtain ⟨m, hm⟩ := List.exists_mem_of_ne_nil children hne
      obtain ⟨p, hp, hparent⟩ := h m hm
      exact ⟨hr, m, hm, p, hp, hparent⟩
  refine ⟨fun g => ?_, fun m hm => ?_⟩
  · simp only [IsRoot, huses]
    constructor
    · intro hg
      exact hg.1
    · rintro rfl
      exact ⟨rfl, fun g hg _ => hg⟩
  · obtain ⟨p, hp, hparent⟩ := h m hm
    exact ⟨p, r, hp, hparent, hr⟩

/-- A canonical path that resolves is made of field names. -/
theorem spells_of_canonical (hp : c.PlainFields s) {p : String} (hnormal : c.fields.normalize p = p)
    (hres : (c.fields.resolve p).isSome = true) : ∃ xs, Spells s xs p := by
  rw [hp.fields] at hnormal hres
  replace hnormal : c.schema.normalize p = p := hnormal
  obtain ⟨f, hf⟩ := Option.isSome_iff_exists.mp hres
  have hpath := Schema.spells_normalize hp.paths (hnormal.symm ▸ hf)
  rwa [hnormal] at hpath

/-- With one root, a rule meets it: the collection of the rule lies under the root. -/
theorem meetsRoot_iff (hp : c.PlainFields s) (hch : ∀ m ∈ children, ∀ p ∈ m.field?, ∃ xs, Spells s xs p)
    (hroot : c.singleRoot? children = some r) :
    c.meetsRoot (c.usedGroups children) (some r) children = true ↔ ∃ m ∈ children, m.kind = .rule := by
  have hs := hp.paths.separator
  constructor
  · intro h
    obtain ⟨m, hm, hmeets⟩ := List.any_eq_true.mp h
    refine ⟨m, hm, ?_⟩
    cases hhome : c.homeOf? (c.usedGroups children) m with
    | none =>
      rw [hhome] at hmeets
      cases hmeets
    | some home =>
      obtain ⟨id, p, rfl, -⟩ := homeOf?_spec hp hhome
      rfl
  · intro h
    obtain ⟨m, hm, hkind⟩ := h
    obtain ⟨hused, hunder, -⟩ := singleRoot?_spec hp hch hroot
    obtain ⟨g, hg⟩ := (outermost_of_singleRoot? hroot).2 m hm
    obtain ⟨q, _, hfield, hin, -⟩ := collection_spec hp (hch m hm) hg
    cases m with
    | group => cases hkind
    | ruleGroup => cases hkind
    | rule id p =>
      cases hfield
      cases hhome : c.homeOf? (c.usedGroups children) (.rule id p) with
      | none => exact absurd hin ((homeOf?_eq_none_iff hs).mp hhome g (mem_usedGroups.mpr ⟨_, hm, hg⟩))
      | some home =>
        obtain ⟨-, -, -, hhomeUsed, -⟩ := homeOf?_spec hp hhome
        obtain ⟨xs, hx⟩ := spells_of_mem_usedGroups hp hch home hhomeUsed
        obtain ⟨ys, hy⟩ := spells_of_mem_usedGroups hp hch r hused
        -- the root is on the way down to the rule's collection
        have hway : r ∈ c.pathsTo home := by
          rw [pathsTo_eq hp.fields hs hx]
          exact mem_ancestors hx hy ((under_iff_names hx hy).mp (hunder home hhomeUsed))
        refine List.any_eq_true.mpr ⟨_, hm, ?_⟩
        rw [hhome]
        exact List.any_eq_true.mpr ⟨r, hway, isUnder_refl _ r⟩

/-! ## Rule groups that are made -/

/-- A rule group is made for no path that is the root or lies above it. -/
theorem isAbove_of_made {next id : Nat} {a : List Nat} {p : String}
    (h : Item.entryAmong? (c.placedItems children next) a = some (.made id p)) :
    c.isAbove (c.singleRoot? children) p = false := by
  have hplaced := placed_foldl c (c.usedGroups children) (c.singleRoot? children) children next
  have hpath := Item.mem_pathsAll_of_entryAmong? h
  rw [Item.pathsAll_eq none] at hpath
  obtain ⟨⟨home, e⟩, he, hpath⟩ := List.mem_filterMap.mp hpath
  cases e with
  | child m => cases hpath
  | made id' p' =>
    cases hpath
    obtain ⟨m, -, hlink⟩ := hplaced.made_link he
    have hchain := mem_of_mem_links hlink
    unfold chainOf at hchain
    cases hhome : c.homeOf? (c.usedGroups children) m with
    | none =>
      rw [hhome] at hchain
      cases hchain
    | some home' =>
      rw [hhome] at hchain
      simpa using (List.mem_filter.mp hchain).2

/-! ## The node of a conjunction -/

variable {key : String} {negated : Bool} {next : Nat}

/-- The node is a rule group on the root when some rule meets it, and a group otherwise. -/
theorem reconcileFrom_cases (key : String) (negated : Bool) (children : List (Node Nat)) (next : Nat) :
    (∃ r cs, c.singleRoot? children = some r ∧
        c.meetsRoot (c.usedGroups children) (some r) children = true ∧
        (c.reconcileFrom key negated children next).1 =
          .ruleGroup next { conjunction := key, negated, field := r, mode := c.modeOf r } cs) ∨
      (∀ r, c.singleRoot? children = some r →
          c.meetsRoot (c.usedGroups children) (some r) children = false) ∧
        ∃ cs, (c.reconcileFrom key negated children next).1 = .group next ⟨key, negated⟩ cs := by
  unfold reconcileFrom
  cases hroot : c.singleRoot? children with
  | none => exact .inr ⟨nofun, _, rfl⟩
  | some r =>
    cases hmeets : c.meetsRoot (c.usedGroups children) (some r) children with
    | false =>
      refine .inr ⟨fun r' hr' => ?_, _, by simp only [hmeets]; rfl⟩
      cases hr'
      exact hmeets
    | true => exact .inl ⟨r, _, rfl, hmeets, by simp only [hmeets]; rfl⟩

/-- The conjunction of nodes with canonical paths stands for a collection when that is the
only root of the children, each of which lies directly in a collection, and there is a rule
among them; it is a group in all other cases. The rule group has the mode of its collection,
the conjunction and the negation, and of the rule groups made for its rules none is on its
collection or above it. -/
theorem stands_for_root_iff (hp : c.PlainFields s) (key : String) (negated : Bool) (next : Nat)
    (hch : ∀ m ∈ children, ∀ p, m.field? = some p →
      c.fields.normalize p = p ∧ (c.fields.resolve p).isSome = true) :
    ∃ n next' places, c.reconcile key negated children next = some ⟨n, next', []⟩ ∧
      Gathers key negated children n places ∧
      (∀ r, n.home? = some r ↔ c.SharesRoot children r ∧ ∃ m ∈ children, m.kind = .rule) ∧
      (n.home? = none → ∃ id cs, n = .group id ⟨key, negated⟩ cs) ∧
      ∀ r, n.home? = some r →
        (∃ id cs, n = .ruleGroup id { conjunction := key, negated, field := r, mode := c.modeOf r } cs) ∧
        ∀ a d q, n.at? a = some d → a ≠ [] → (∀ b ∈ places, ¬ b <+: a) → d.field? = some q →
          isUnder c.separator r q = false := by
  have hspells : ∀ m ∈ children, ∀ p ∈ m.field?, ∃ xs, Spells s xs p := by
    intro m hm p hfield
    obtain ⟨hnormal, hres⟩ := hch m hm p hfield
    exact spells_of_canonical hp hnormal hres
  obtain ⟨places, hfiled⟩ : ∃ places, Filed children (c.placedItems children (next + 1)) places :=
    filed_foldl c (c.usedGroups children) (c.singleRoot? children) (next + 1)
  refine ⟨_, _, places, rfl, gathers_reconcileFrom c key negated hfiled, ?_⟩
  have hcs := children_reconcileFrom (c := c) key negated children next
  rcases reconcileFrom_cases (c := c) key negated children next with
    ⟨r, cs, hroot, hmeets, hn⟩ | ⟨hno, cs, hn⟩
  · have hrule := (meetsRoot_iff hp hspells hroot).mp hmeets
    rw [hn] at hcs ⊢
    refine ⟨fun r' => ?_, nofun, fun r' hr' => ?_⟩
    · rw [← singleRoot?_eq_some_iff, hroot]
      exact ⟨fun h => ⟨h, hrule⟩, fun h => h.1⟩
    · cases hr'
      refine ⟨⟨_, _, rfl⟩, fun a d q hd hne hout hq => ?_⟩
      obtain ⟨id, p, cs, hmade, rfl⟩ := made_of_filed hfiled hcs hd hne hout
      cases hq
      have habove := isAbove_of_made hmade
      rw [hroot] at habove
      exact habove
  · rw [hn]
    refine ⟨fun r' => ⟨nofun, fun h => ?_⟩, fun _ => ⟨_, _, rfl⟩, nofun⟩
    have hroot := singleRoot?_eq_some_iff.mpr h.1
    have hmeets := (meetsRoot_iff hp hspells hroot).mpr h.2
    rw [hno r' hroot] at hmeets
    cases hmeets

/-! ## A collection in a collection -/

/-- Cars with a vendor, and with parts that have names. -/
def workshop : Converter :=
  .ofSchema { Cars.schema with
    fields := [
      ("cars", { Cars.cars with subfields := [
        ("vendor", { type := "text" }),
        ("parts", { type := "!group", mode := some .array, subfields := [("name", { type := "text" })] })] })] } []

theorem workshop_plainFields : workshop.PlainFields '.' := by
  refine ⟨rfl, rfl, fun name hname => ?_⟩
  simp only [workshop, ofSchema, Table.keys, List.map_cons, List.map_nil, List.mem_singleton] at hname
  subst hname
  exact ⟨by decide, by decide, by decide⟩

/-- A rule group for the parts of a car. -/
def somePart : Node Nat := .ruleGroup 1 { conjunction := "AND", field := "cars.parts", operator := some "some" } []

def vendorIsVw : Node Nat :=
  .rule 2 { field := "cars.vendor", operator := "equal", args := [.literal (.str "vw") "text"] }

theorem workshop_paths : ∀ m ∈ [somePart, vendorIsVw], ∀ p, m.field? = some p →
    workshop.fields.normalize p = p ∧ (workshop.fields.resolve p).isSome = true := by
  intro m hm p hp
  have hpath : p = "cars.parts" ∨ p = "cars.vendor" := by
    simp only [List.mem_cons, List.not_mem_nil, or_false] at hm
    rcases hm with rfl | rfl
    · exact .inl (Option.some.inj hp).symm
    · exact .inr (Option.some.inj hp).symm
  rcases hpath with rfl | rfl
  · decide +kernel
  · decide +kernel

theorem sharesRoot_workshop {children : List (Node Nat)} (hne : children ≠ [])
    (h : ∀ m ∈ children, m = somePart ∨ m = vendorIsVw) : workshop.SharesRoot children "cars" := by
  refine sharesRoot_of_forall hne ?_ fun m hm => ?_
  · show (workshop.fields.resolve "cars").any Field.isGroup = true
    decide +kernel
  · rcases h m hm with rfl | rfl
    · exact ⟨"cars.parts", rfl, by decide +kernel⟩
    · exact ⟨"cars.vendor", rfl, by decide +kernel⟩

/-- The vendor of a car beside its parts: the conjunction stands for the cars. -/
theorem vendor_and_parts_stand_for_cars :
    ∃ n next places, workshop.reconcile "AND" true [somePart, vendorIsVw] 3 = some ⟨n, next, []⟩ ∧
      Gathers "AND" true [somePart, vendorIsVw] n places ∧ n.home? = some "cars" ∧
      ∃ id cs, n = .ruleGroup id { conjunction := "AND", negated := true, field := "cars", mode := some .some } cs := by
  obtain ⟨n, next, places, hn, hgathers, hiff, -, hroot⟩ :=
    stands_for_root_iff workshop_plainFields "AND" true 3 workshop_paths
  have hhome : n.home? = some "cars" :=
    (hiff "cars").mpr ⟨sharesRoot_workshop (by simp) (by simp), vendorIsVw, by simp, rfl⟩
  have hmode : workshop.modeOf "cars" = some .some := by decide +kernel
  obtain ⟨⟨id, cs, heq⟩, -⟩ := hroot "cars" hhome
  rw [hmode] at heq
  exact ⟨n, next, places, hn, hgathers, hhome, id, cs, heq⟩

/-- The parts of a car alone lie directly in the cars as well, but their conjunction is a
plain group. -/
theorem rule_groups_share_a_root_in_vain :
    workshop.PlainFields '.' ∧
      (∀ m ∈ [somePart], ∀ p, m.field? = some p →
        workshop.fields.normalize p = p ∧ (workshop.fields.resolve p).isSome = true) ∧
      workshop.SharesRoot [somePart] "cars" ∧
      ∃ cs next, workshop.reconcile "AND" false [somePart] 2 = some ⟨.group 2 ⟨"AND", false⟩ cs, next, []⟩ := by
  refine ⟨workshop_plainFields, fun m hm => workshop_paths m (by simp_all), sharesRoot_workshop (by simp) (by simp), ?_⟩
  have hmeets : workshop.meetsRoot (workshop.usedGroups [somePart]) (workshop.singleRoot? [somePart]) [somePart] =
      false := by
    decide +kernel
  rcases reconcileFrom_cases (c := workshop) "AND" false [somePart] 2 with ⟨r, cs, hroot, hyes, -⟩ | ⟨-, cs, hn⟩
  · rw [hroot, hyes] at hmeets
    cases hmeets
  · refine ⟨cs, (workshop.reconcileFrom "AND" false [somePart] 2).2, ?_⟩
    rw [← hn]
    rfl

end Converter
end RuleTree
