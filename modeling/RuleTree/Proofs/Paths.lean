/-
  RuleTree.Proofs.Paths — field paths as lists of names.

  With a separator of one character, which no name holds, a path spells the names it is
  made of (`Spells`), and what is said of paths can be said of lists of names:
  - `under_iff_names`: a path lies under another one when the names of the other one
    come first.
  - `exists_outermost`: every path lies under an outermost one, and these are the paths
    that lie under no other one (`mem_outermost_iff`), whatever the separator.
  - `parent?_spells`: the parent of a path lacks its last name; `ancestors_spells`: the
    ancestors are spelled by the first names of the path, each under the one before it.
  - `normalize_of_spells`: such a path is canonical; `canonical_normalize`: and every
    canonical path is one or is empty, with the names of its parent first
    (`spells_normalize_under`).
  - `exists_resolve_of_prefix`: the fields on the way to a field are there;
    `resolve_induction`: what is handed down to subfields is true of every field.
-/

import Mathlib.Data.List.Infix
import Mathlib.Data.List.Pairwise
import RuleTree.Schema.Lookup

namespace RuleTree
namespace Path

variable {s : Char} {cs : List Char} {xs ys : List (List Char)} {p q r : String}

/-! ## Cutting at one character -/

theorem cut_eq_splitOn (s : Char) (cs : List Char) : cut [s] 0 cs = cs.splitOn s := by
  induction cs with
  | nil => simp [cut]
  | cons c rest ih =>
    have hlen : [s].length - 1 = 0 := rfl
    rw [cut, hlen, ih, List.splitOn_cons_eq_if_modifyHead]
    by_cases hc : c = s
    · simp [hc]
    · simp only [List.isPrefixOf, beq_eq_false_iff_ne.mpr (Ne.symm hc),
        beq_eq_false_iff_ne.mpr hc, Bool.false_and, Bool.false_eq_true, if_false]
      cases hs : rest.splitOn s with
      | nil => exact absurd hs (List.splitOn_ne_nil s rest)
      | cons y ys => rfl

theorem pieces_eq_splitOn (s : Char) (cs : List Char) : pieces [s] cs = cs.splitOn s := cut_eq_splitOn s cs

theorem intercalate_append (s : Char) (hx : xs ≠ []) (hy : ys ≠ []) :
    [s].intercalate (xs ++ ys) = [s].intercalate xs ++ s :: [s].intercalate ys := by
  induction xs with
  | nil => exact absurd rfl hx
  | cons x rest ih =>
    cases rest with
    | nil => simp [List.intercalate_cons_of_ne_nil hy]
    | cons y rest => simpa using ih (by simp)

/-- A name that holds neither the separator nor a point. -/
structure IsName (s : Char) (x : List Char) : Prop where
  ne_nil : x ≠ []
  separator : s ∉ x
  point : '.' ∉ x

/-- The path spells these names. -/
structure Spells (s : Char) (xs : List (List Char)) (p : String) : Prop where
  ne_nil : xs ≠ []
  names : ∀ x ∈ xs, IsName s x
  eq : p.toList = [s].intercalate xs

theorem Spells.splitOn (h : Spells s xs p) : p.toList.splitOn s = xs := by
  rw [h.eq, List.splitOn_intercalate s (fun x hx => (h.names x hx).separator) h.ne_nil]

theorem Spells.path_eq (h : Spells s xs p) (h' : Spells s xs q) : p = q := by
  rw [← String.toList_inj, h.eq, h'.eq]

/-! ## Nesting -/

theorem dropPrefix?_eq_some {root rest : List Char} : dropPrefix? root cs = some rest ↔ cs = root ++ rest := by
  induction root generalizing cs with
  | nil => simp [dropPrefix?, eq_comm]
  | cons c root ih =>
    cases cs with
    | nil => simp [dropPrefix?]
    | cons d cs =>
      by_cases hc : c = d
      · simp [dropPrefix?, hc, ih]
      · simp [dropPrefix?, hc, Ne.symm hc]

section Separator

variable {sep : String}

theorem isUnder_refl (sep p : String) : isUnder sep p p = true := by
  have hd : dropPrefix? p.toList p.toList = some [] := dropPrefix?_eq_some.mpr (by simp)
  simp [isUnder, hd]

theorem isUnder_iff : isUnder sep p q = true ↔
    p = q ∨ ∃ rest, rest ≠ [] ∧ sep.toList <+: rest ∧ p.toList = q.toList ++ rest := by
  unfold isUnder
  constructor
  · intro h
    split at h
    · rename_i hd
      rw [dropPrefix?_eq_some, List.append_nil] at hd
      exact .inl (String.toList_inj.mp hd)
    · rename_i rest hne hd
      exact .inr ⟨rest, hne, List.isPrefixOf_iff_prefix.mp h, dropPrefix?_eq_some.mp hd⟩
    · cases h
  · intro h
    rcases h with rfl | ⟨rest, hne, hsep, hp⟩
    · exact isUnder_refl sep p
    · rw [dropPrefix?_eq_some.mpr hp]
      split
      · rfl
      · rename_i hrest
        cases hrest
        exact List.isPrefixOf_iff_prefix.mpr hsep
      · rename_i hrest
        cases hrest

theorem isUnder_trans (h : isUnder sep p q = true) (h' : isUnder sep q r = true) : isUnder sep p r = true := by
  rw [isUnder_iff] at h h' ⊢
  rcases h with rfl | ⟨rest, hne, hsep, hp⟩
  · exact h'
  · rcases h' with rfl | ⟨rest', hne', hsep', hq⟩
    · exact .inr ⟨rest, hne, hsep, hp⟩
    · refine .inr ⟨rest' ++ rest, by simp [hne], hsep'.trans (List.prefix_append _ _), ?_⟩
      rw [hp, hq, List.append_assoc]

/-- A path is longer than those it lies under. -/
theorem size_lt_of_isUnder (h : isUnder sep p q = true) (hne : p ≠ q) : q.utf8ByteSize < p.utf8ByteSize := by
  obtain ⟨rest, hrest, -, hp⟩ := (isUnder_iff.mp h).resolve_left hne
  have hsplit : p = q ++ String.ofList rest := by
    rw [← String.toList_inj]
    simpa using hp
  have hpos : (String.ofList rest).utf8ByteSize ≠ 0 := by
    intro hzero
    have hempty := congrArg String.toList (String.utf8ByteSize_eq_zero_iff.mp hzero)
    rw [String.toList_ofList] at hempty
    exact hrest hempty
  rw [hsplit, String.utf8ByteSize_append]
  omega

theorem isUnder_antisymm (h : isUnder sep p q = true) (h' : isUnder sep q p = true) : p = q := by
  by_contra hne
  have hlt := size_lt_of_isUnder h hne
  have hlt' := size_lt_of_isUnder h' (Ne.symm hne)
  omega

end Separator

/-- The path is the root or lies under it. -/
def Under (s : Char) (p root : String) : Prop := isUnder (String.singleton s) p root = true

theorem under_iff : Under s p q ↔ p = q ∨ ∃ rest, p.toList = q.toList ++ s :: rest := by
  unfold Under
  rw [isUnder_iff, String.toList_singleton]
  constructor
  · intro h
    rcases h with rfl | ⟨_, -, ⟨rest, rfl⟩, hp⟩
    · exact .inl rfl
    · exact .inr ⟨rest, hp⟩
  · intro h
    rcases h with rfl | ⟨rest, hp⟩
    · exact .inl rfl
    · exact .inr ⟨s :: rest, by simp, ⟨rest, rfl⟩, hp⟩

/-- A path lies under another one when it has the other one's names first. -/
theorem under_iff_names (hx : Spells s xs p) (hy : Spells s ys q) : Under s p q ↔ ys <+: xs := by
  rw [under_iff]
  constructor
  · rintro (rfl | ⟨rest, hp⟩)
    · rw [← hx.splitOn, ← hy.splitOn]
    · have hs := hx.splitOn
      rw [hp, List.splitOn_append_cons_self, hy.splitOn] at hs
      exact ⟨_, hs⟩
  · rintro ⟨zs, rfl⟩
    cases zs with
    | nil =>
      rw [List.append_nil] at hx
      exact .inl (hx.path_eq hy)
    | cons z zs => exact .inr ⟨_, by rw [hx.eq, intercalate_append s hy.ne_nil (by simp), hy.eq]⟩

theorem under_refl (s : Char) (p : String) : Under s p p := isUnder_refl _ p

theorem under_trans (h : Under s p q) (h' : Under s q r) : Under s p r := isUnder_trans h h'

theorem under_antisymm (h : Under s p q) (h' : Under s q p) : p = q := isUnder_antisymm h h'

/-- Of two paths over the same one, one lies under the other. -/
theorem under_or_under (h : Under s p q) (h' : Under s p r) :
    Under s q r ∨ Under s r q := by
  rw [under_iff] at h h'
  rcases h with rfl | ⟨rest, hq⟩
  · exact .inl (under_iff.mpr h')
  rcases h' with rfl | ⟨rest', hr⟩
  · exact .inr (under_iff.mpr (.inr ⟨rest, hq⟩))
  rw [under_iff, under_iff]
  rw [hq, List.append_eq_append_iff] at hr
  -- the longer of the two has a rest, which starts as the rest of the path does
  rcases hr with ⟨as, hr, has⟩ | ⟨as, hq', has⟩
  · cases as with
    | nil => exact .inl (.inl (String.toList_inj.mp (by simpa using hr.symm)))
    | cons a as =>
      rw [List.cons_append, List.cons.injEq] at has
      exact .inr (.inr ⟨as, by rw [hr, ← has.1]⟩)
  · cases as with
    | nil => exact .inl (.inl (String.toList_inj.mp (by simpa using hq')))
    | cons a as =>
      rw [List.cons_append, List.cons.injEq] at has
      exact .inl (.inr ⟨as, by rw [hq', ← has.1]⟩)

/-! ## Outermost paths -/

theorem mem_insertBySize {ps : List String} : q ∈ insertBySize p ps ↔ q = p ∨ q ∈ ps := by
  induction ps with
  | nil => simp [insertBySize]
  | cons r rest ih =>
    unfold insertBySize
    split
    · simp
    · simp only [List.mem_cons, ih]
      exact or_left_comm

theorem mem_bySize {ps : List String} : p ∈ bySize ps ↔ p ∈ ps := by
  induction ps with
  | nil => simp [bySize]
  | cons q rest ih =>
    simp only [bySize] at ih
    simp [bySize, mem_insertBySize, ih]

theorem mem_keepRoots_of_kept {sep : String} {kept ps : List String} (h : p ∈ kept) :
    p ∈ keepRoots sep kept ps := by
  induction ps generalizing kept with
  | nil => exact h
  | cons q rest ih =>
    unfold keepRoots
    split
    · exact ih h
    · exact ih (by simp [h])

theorem exists_keepRoots {sep : String} {kept ps : List String} (h : p ∈ ps) :
    ∃ k ∈ keepRoots sep kept ps, isUnder sep p k = true := by
  induction ps generalizing kept with
  | nil => cases h
  | cons q rest ih =>
    unfold keepRoots
    rcases List.mem_cons.mp h with rfl | h
    · split
      · rename_i hany
        obtain ⟨k, hk, hunder⟩ := List.any_eq_true.mp hany
        exact ⟨k, mem_keepRoots_of_kept hk, hunder⟩
      · exact ⟨p, mem_keepRoots_of_kept (by simp), isUnder_refl sep p⟩
    · split <;> exact ih h

/-- Every path is under an outermost one. -/
theorem exists_outermost (sep : String) {ps : List String} (h : p ∈ ps) :
    ∃ k ∈ outermost sep ps, isUnder sep p k = true :=
  exists_keepRoots (mem_bySize.mpr h)

theorem mem_of_mem_keepRoots {sep : String} {kept ps : List String} (h : p ∈ keepRoots sep kept ps) :
    p ∈ kept ∨ p ∈ ps := by
  induction ps generalizing kept with
  | nil => exact .inl h
  | cons q rest ih =>
    unfold keepRoots at h
    split at h
    · exact (ih h).imp id (List.mem_cons_of_mem q)
    · rcases ih h with hk | hr
      · rcases List.mem_append.mp hk with hk | hk
        · exact .inl hk
        · exact .inr (by simp [List.mem_singleton.mp hk])
      · exact .inr (by simp [hr])

theorem mem_of_mem_outermost {sep : String} {ps : List String} (h : p ∈ outermost sep ps) : p ∈ ps := by
  rcases mem_of_mem_keepRoots h with h | h
  · cases h
  · exact mem_bySize.mp h

section Separator

variable {sep : String}

theorem pairwise_insertBySize {ps : List String} (h : ps.Pairwise fun a b => a.utf8ByteSize ≤ b.utf8ByteSize) :
    (insertBySize p ps).Pairwise fun a b => a.utf8ByteSize ≤ b.utf8ByteSize := by
  induction ps with
  | nil => simp [insertBySize]
  | cons q rest ih =>
    obtain ⟨hq, hrest⟩ := List.pairwise_cons.mp h
    unfold insertBySize
    split
    · rename_i hle
      refine List.pairwise_cons.mpr ⟨fun r hr => ?_, h⟩
      rcases List.mem_cons.mp hr with rfl | hr
      · exact hle
      · exact Nat.le_trans hle (hq r hr)
    · rename_i hlt
      refine List.pairwise_cons.mpr ⟨fun r hr => ?_, ih hrest⟩
      rcases mem_insertBySize.mp hr with rfl | hr
      · omega
      · exact hq r hr

/-- Shortest first. -/
theorem pairwise_bySize (ps : List String) : (bySize ps).Pairwise fun a b => a.utf8ByteSize ≤ b.utf8ByteSize := by
  unfold bySize
  induction ps with
  | nil => exact .nil
  | cons p rest ih => exact pairwise_insertBySize ih

/-- Those kept already stay in front, and others follow in order. -/
theorem keepRoots_eq_append (sep : String) (kept ps : List String) :
    ∃ more, more.Sublist ps ∧ keepRoots sep kept ps = kept ++ more := by
  induction ps generalizing kept with
  | nil => exact ⟨[], List.Sublist.refl _, by simp [keepRoots]⟩
  | cons p rest ih =>
    unfold keepRoots
    split
    · obtain ⟨more, hmore, heq⟩ := ih kept
      exact ⟨more, hmore.cons p, heq⟩
    · obtain ⟨more, hmore, heq⟩ := ih (kept ++ [p])
      exact ⟨p :: more, hmore.cons_cons p, by rw [heq]; simp⟩

theorem pairwise_keepRoots {kept ps : List String} (h : kept.Pairwise fun a b => isUnder sep b a = false) :
    (keepRoots sep kept ps).Pairwise fun a b => isUnder sep b a = false := by
  induction ps generalizing kept with
  | nil => exact h
  | cons p rest ih =>
    unfold keepRoots
    split
    · exact ih h
    · rename_i hnone
      refine ih (List.pairwise_append.mpr ⟨h, List.pairwise_singleton _ _, fun k hk q hq => ?_⟩)
      rw [List.mem_singleton.mp hq, Bool.eq_false_iff]
      intro hunder
      exact hnone (List.any_eq_true.mpr ⟨k, hk, hunder⟩)

/-- The outermost paths come shortest first, and none is under another one. -/
theorem pairwise_outermost (sep : String) (ps : List String) :
    (outermost sep ps).Pairwise fun a b =>
      a.utf8ByteSize ≤ b.utf8ByteSize ∧ isUnder sep b a = false ∧ isUnder sep a b = false := by
  obtain ⟨more, hmore, heq⟩ := keepRoots_eq_append sep [] (bySize ps)
  have hsizes : (outermost sep ps).Pairwise fun a b => a.utf8ByteSize ≤ b.utf8ByteSize := by
    rw [outermost, heq, List.nil_append]
    exact (pairwise_bySize ps).sublist hmore
  have hroots : (outermost sep ps).Pairwise fun a b => isUnder sep b a = false := pairwise_keepRoots .nil
  refine (hsizes.and hroots).imp fun {a b} hab => ⟨hab.1, hab.2, ?_⟩
  rw [Bool.eq_false_iff]
  intro hunder
  by_cases he : a = b
  · rw [he, isUnder_refl] at hab
    cases hab.2
  · have hlt := size_lt_of_isUnder hunder he
    have hle := hab.1
    omega

theorem nodup_outermost (sep : String) (ps : List String) : (outermost sep ps).Nodup := by
  refine (pairwise_outermost sep ps).imp fun {a b} hab he => ?_
  rw [he, isUnder_refl] at hab
  cases hab.2.1

/-- No outermost path lies under another one. -/
theorem eq_of_mem_outermost {ps : List String} (hp : p ∈ outermost sep ps) (hq : q ∈ outermost sep ps)
    (h : isUnder sep p q = true) : p = q := by
  by_contra hne
  have : Std.Symm fun a b => isUnder sep b a = false ∧ isUnder sep a b = false := ⟨fun _ _ hab => hab.symm⟩
  have hapart : (outermost sep ps).Pairwise fun a b => isUnder sep b a = false ∧ isUnder sep a b = false :=
    (pairwise_outermost sep ps).imp fun hab => hab.2
  rw [(hapart.forall hp hq hne).2] at h
  cases h

/-- The outermost paths are those that lie under no other one. -/
theorem mem_outermost_iff {ps : List String} :
    p ∈ outermost sep ps ↔ p ∈ ps ∧ ∀ q ∈ ps, isUnder sep p q = true → q = p := by
  constructor
  · intro hp
    refine ⟨mem_of_mem_outermost hp, fun q hq hunder => ?_⟩
    -- an outermost path over `q` is over `p` too, and so it is `p`
    obtain ⟨k, hk, hover⟩ := exists_outermost sep hq
    have hpk := eq_of_mem_outermost hp hk (isUnder_trans hunder hover)
    rw [← hpk] at hover
    exact isUnder_antisymm hover hunder
  · intro h
    obtain ⟨hp, hno⟩ := h
    obtain ⟨k, hk, hunder⟩ := exists_outermost sep hp
    rw [← hno k (mem_of_mem_outermost hk) hunder]
    exact hk

end Separator

/-! ## Parents -/

theorem beforeLast?_eq_none (h : s ∉ cs) : beforeLast? [s] cs = none := by
  induction cs with
  | nil => rfl
  | cons c rest ih =>
    simp only [List.mem_cons, not_or] at h
    simp [beforeLast?, ih h.2, h.1]

theorem beforeLast?_append {before after : List Char} (h : s ∉ after) :
    beforeLast? [s] (before ++ s :: after) = some before := by
  induction before with
  | nil => simp [beforeLast?, beforeLast?_eq_none h]
  | cons c rest ih => simp [beforeLast?, ih]

theorem under_of_parent? (h : parent? (String.singleton s) p = some q) : Under s p q := by
  have happend : ∀ {cs before : List Char},
      beforeLast? [s] cs = some before → ∃ rest, cs = before ++ s :: rest := by
    intro cs
    induction cs with
    | nil => intro before h; simp [beforeLast?] at h
    | cons c rest ih =>
      intro before h
      unfold beforeLast? at h
      split at h
      · rename_i inner hinner
        obtain ⟨tail, rfl⟩ := ih hinner
        cases h
        exact ⟨tail, rfl⟩
      · split at h
        · rename_i hs
          cases h
          simp only [List.isPrefixOf, Bool.and_true, beq_iff_eq] at hs
          exact ⟨rest, by rw [hs]; rfl⟩
        · cases h
  unfold parent? at h
  rw [String.toList_singleton] at h
  obtain ⟨before, hbefore, rfl⟩ := Option.map_eq_some_iff.mp h
  obtain ⟨rest, hrest⟩ := happend hbefore
  exact under_iff.mpr (.inr ⟨rest, by simpa using hrest⟩)

/-- The parent of a path lacks its last name. -/
theorem parent?_spells (hx : Spells s xs p) (h : parent? (String.singleton s) p = some q) :
    ∃ ys x, xs = ys ++ [x] ∧ Spells s ys q := by
  obtain ⟨ys, x, rfl⟩ : ∃ ys x, xs = ys ++ [x] :=
    ⟨xs.dropLast, xs.getLast hx.ne_nil, (List.dropLast_append_getLast hx.ne_nil).symm⟩
  refine ⟨ys, x, rfl, ?_⟩
  have hlast : s ∉ x := (hx.names x (by simp)).separator
  unfold parent? at h
  rw [String.toList_singleton, hx.eq] at h
  cases ys with
  | nil =>
    rw [List.nil_append, List.intercalate_singleton, beforeLast?_eq_none hlast] at h
    cases h
  | cons y ys =>
    rw [intercalate_append s (by simp) (by simp), List.intercalate_singleton, beforeLast?_append hlast] at h
    cases h
    exact ⟨by simp, fun z hz => hx.names z (List.mem_append_left [x] hz), by simp⟩

/-! ## Ancestors -/

theorem isEmpty_of_spells (h : Spells s xs p) : p.isEmpty = false := by
  have hne : p ≠ "" := by
    rintro rfl
    have hs := h.splitOn
    rw [String.toList_empty, List.splitOn_nil] at hs
    exact (h.names [] (by simp [← hs])).ne_nil rfl
  simpa [String.isEmpty_iff] using hne

/-- A path that spells the names so far, or no path, with one name more. -/
theorem spells_snoc {before : List (List Char)} {x : List Char} (hx : IsName s x)
    (hp : Spells s before p ∨ before = [] ∧ p = "") :
    Spells s (before ++ [x]) ((if p.isEmpty then p else p ++ String.singleton s) ++ String.ofList x) := by
  rcases hp with hp | ⟨rfl, rfl⟩
  · refine ⟨by simp, fun y hy => ?_, ?_⟩
    · rcases List.mem_append.mp hy with hy | hy
      · exact hp.names y hy
      · exact List.mem_singleton.mp hy ▸ hx
    · rw [isEmpty_of_spells hp, intercalate_append s hp.ne_nil (by simp), ← hp.eq]
      simp
  · exact ⟨by simp, by simpa using hx, by simp⟩

/-- From a path that spells the names so far, or from no path, the ancestors spell ever
more of the names that come. -/
theorem ancestorsFrom_spells {before names : List (List Char)} (hn : ∀ x ∈ names, IsName s x)
    (hp : Spells s before p ∨ before = [] ∧ p = "") :
    (∀ q ∈ ancestorsFrom (String.singleton s) p names, ∃ ys, ys <+: names ∧ Spells s (before ++ ys) q) ∧
      (ancestorsFrom (String.singleton s) p names).Pairwise fun a b => Under s b a := by
  induction names generalizing before p with
  | nil => simp [ancestorsFrom]
  | cons x rest ih =>
    have hfirst := spells_snoc (hn x (by simp)) hp
    obtain ⟨hall, hpair⟩ := ih (fun y hy => hn y (by simp [hy])) (.inl hfirst)
    rw [ancestorsFrom]
    refine ⟨?_, List.pairwise_cons.mpr ⟨?_, hpair⟩⟩
    · intro q hq
      rcases List.mem_cons.mp hq with rfl | hq
      · exact ⟨[x], ⟨rest, rfl⟩, hfirst⟩
      · obtain ⟨ys, hys, hq⟩ := hall q hq
        refine ⟨x :: ys, (List.prefix_cons_inj x).mpr hys, ?_⟩
        simpa using hq
    · intro q hq
      obtain ⟨ys, -, hq⟩ := hall q hq
      exact (under_iff_names hq hfirst).mpr (List.prefix_append _ ys)

/-- And all of the first names that come spell one of them. -/
theorem mem_ancestorsFrom {before names ys : List (List Char)} (hn : ∀ x ∈ names, IsName s x)
    (hp : Spells s before p ∨ before = [] ∧ p = "") (hne : ys ≠ []) (hpre : ys <+: names)
    (hq : Spells s (before ++ ys) q) : q ∈ ancestorsFrom (String.singleton s) p names := by
  induction names generalizing before p ys with
  | nil => exact absurd (List.prefix_nil.mp hpre) hne
  | cons x rest ih =>
    obtain ⟨y, ys, rfl⟩ := List.exists_cons_of_ne_nil hne
    obtain ⟨rfl, hrest⟩ := List.cons_prefix_cons.mp hpre
    have hfirst := spells_snoc (hn y (by simp)) hp
    rw [ancestorsFrom]
    by_cases hys : ys = []
    · rw [hys] at hq
      exact List.mem_cons.mpr (.inl (hq.path_eq hfirst))
    · rw [List.append_cons] at hq
      exact List.mem_cons_of_mem _ (ih (fun z hz => hn z (by simp [hz])) (.inl hfirst) hys hrest hq)

/-- The ancestors of a path are spelled by its first names, each is under those before it. -/
theorem ancestors_spells (hx : Spells s xs p) :
    (∀ q ∈ ancestors (String.singleton s) p, ∃ ys, ys <+: xs ∧ Spells s ys q) ∧
      (ancestors (String.singleton s) p).Pairwise fun a b => Under s b a := by
  unfold ancestors
  rw [String.toList_singleton, pieces_eq_splitOn, hx.splitOn]
  simpa using ancestorsFrom_spells hx.names (.inr ⟨rfl, rfl⟩)

theorem mem_ancestors (hx : Spells s xs p) (hy : Spells s ys q) (hpre : ys <+: xs) :
    q ∈ ancestors (String.singleton s) p := by
  unfold ancestors
  rw [String.toList_singleton, pieces_eq_splitOn, hx.splitOn]
  exact mem_ancestorsFrom hx.names (.inr ⟨rfl, rfl⟩) hy.ne_nil hpre hy

/-! ## Canonical paths -/

theorem flatMap_splitOn_of_not_mem {names : List (List Char)} (h : ∀ x ∈ names, '.' ∉ x) :
    names.flatMap (pieces ['.']) = names := by
  induction names with
  | nil => rfl
  | cons x rest ih =>
    rw [List.flatMap_cons, pieces_eq_splitOn, List.splitOn_eq_singleton (h x (by simp)),
      ih fun y hy => h y (by simp [hy])]
    rfl

theorem filter_of_names {names : List (List Char)} (h : ∀ x ∈ names, x ≠ []) :
    names.filter (!·.isEmpty) = names := by
  rw [List.filter_eq_self]
  intro x hx
  simpa using h x hx

/-- Empty, or spelled by names. -/
def Canonical (s : Char) (p : String) : Prop := p = "" ∨ ∃ xs, Spells s xs p

theorem segmentChars_of_spells (hx : Spells s xs p) : segmentChars [s] p.toList = xs := by
  have hfilter := filter_of_names fun x hm => (hx.names x hm).ne_nil
  simp only [segmentChars, pieces_eq_splitOn s, hx.splitOn, hfilter]
  rw [flatMap_splitOn_of_not_mem fun x hm => (hx.names x hm).point, hfilter, ite_self]

theorem not_mem_of_mem_splitOn {x : List Char} (h : x ∈ cs.splitOn s) : s ∉ x := by
  induction cs generalizing x with
  | nil => simp_all
  | cons c rest ih =>
    rw [List.splitOn_cons_eq_if_modifyHead] at h
    split at h
    · rcases List.mem_cons.mp h with rfl | h
      · simp
      · exact ih h
    · rename_i hc
      cases hs : rest.splitOn s with
      | nil => exact absurd hs (List.splitOn_ne_nil s rest)
      | cons y ys =>
        rw [hs] at h ih
        rcases List.mem_cons.mp h with rfl | h
        · have hcs : s ≠ c := fun h => hc (by simp [h])
          simpa [hcs] using ih (List.mem_cons_self (a := y) (l := ys))
        · exact ih (by simp [h])

theorem mem_intercalate (sep : List Char) {x : List Char} {c : Char} (hx : x ∈ xs) (hc : c ∈ x) :
    c ∈ sep.intercalate xs := by
  induction xs with
  | nil => cases hx
  | cons y rest ih =>
    cases rest with
    | nil => simp_all
    | cons z rest =>
      rw [List.intercalate_cons_cons, List.mem_append, List.mem_append]
      rcases List.mem_cons.mp hx with rfl | hx
      · exact .inl (.inl hc)
      · exact .inr (ih hx)

theorem isName_of_mem_segmentChars {x : List Char} (h : x ∈ segmentChars [s] cs) : IsName s x := by
  have hpieces : ∀ {y}, y ∈ (pieces [s] cs).filter (!·.isEmpty) → y ≠ [] ∧ s ∉ y := by
    intro y hy
    rw [List.mem_filter, pieces_eq_splitOn] at hy
    exact ⟨by simpa using hy.2, not_mem_of_mem_splitOn hy.1⟩
  unfold segmentChars at h
  split at h
  · rename_i hs
    obtain ⟨hne, hsep⟩ := hpieces h
    have hpoint : s = '.' := by simpa using hs
    exact ⟨hne, hsep, hpoint ▸ hsep⟩
  · rw [List.mem_filter, List.mem_flatMap] at h
    obtain ⟨⟨y, hy, hx⟩, hne⟩ := h
    rw [pieces_eq_splitOn] at hx
    refine ⟨by simpa using hne, fun hsx => ?_, not_mem_of_mem_splitOn hx⟩
    -- the pieces of a piece hold no other characters
    have hsub := mem_intercalate ['.'] hx hsx
    rw [List.intercalate_splitOn] at hsub
    exact (hpieces hy).2 hsub

theorem segmentChars_append (as bs : List Char) :
    segmentChars [s] (as ++ s :: bs) = segmentChars [s] as ++ segmentChars [s] bs := by
  unfold segmentChars
  simp only [pieces_eq_splitOn s, List.splitOn_append_cons_self, List.filter_append, List.flatMap_append]
  split <;> rfl

theorem spells_join (hne : xs ≠ []) (hn : ∀ x ∈ xs, IsName s x) :
    Spells s xs (join (String.singleton s) (xs.map String.ofList)) := by
  refine ⟨hne, hn, ?_⟩
  rw [join, String.toList_intercalate, String.toList_singleton, List.map_map]
  simp [Function.comp_def]

end Path

/-! ## Paths of a schema -/

namespace Schema

open Path

/-- The separator is one character, and no top-level field is named with it or a point. -/
structure PlainPaths (schema : Schema) (s : Char) : Prop where
  separator : schema.settings.separator = String.singleton s
  names : ∀ name ∈ schema.fields.keys, IsName s name.toList

variable {schema : Schema} {s : Char} {xs : List (List Char)} {p q : String}

theorem segments_eq (h : schema.settings.separator = String.singleton s) (p : String) :
    Path.segments schema.settings.separator p = (segmentChars [s] p.toList).map String.ofList := by
  rw [h, Path.segments, String.toList_singleton]

/-- A path that spells names is canonical. -/
theorem normalize_of_spells (h : schema.settings.separator = String.singleton s) (hx : Spells s xs p) :
    schema.normalize p = p := by
  unfold normalize
  split
  · rfl
  · rw [segments_eq h, segmentChars_of_spells hx, h]
    exact (spells_join hx.ne_nil hx.names).path_eq hx

theorem mem_keys_of_has (hp : schema.fields.has p = true) : p ∈ schema.fields.keys := by
  obtain ⟨f, hf⟩ := Option.isSome_iff_exists.mp hp
  exact List.mem_map_of_mem (Table.mem_of_get? hf)

/-- No top-level field is named with the separator or a point. -/
def UncutNames (schema : Schema) (s : Char) : Prop :=
  ∀ name ∈ schema.fields.keys, s ∉ name.toList ∧ '.' ∉ name.toList

theorem PlainPaths.uncutNames (h : schema.PlainPaths s) : schema.UncutNames s :=
  fun name hname => ⟨(h.names name hname).separator, (h.names name hname).point⟩

/-- Every canonical path spells names, unless it is empty. -/
theorem canonical_normalize (h : schema.settings.separator = String.singleton s) (hn : schema.UncutNames s)
    (p : String) : Canonical s (schema.normalize p) := by
  unfold normalize
  split
  · rename_i hp
    obtain ⟨hsep, hpoint⟩ := hn p (mem_keys_of_has hp)
    by_cases hempty : p = ""
    · exact .inl hempty
    · have hname : IsName s p.toList := ⟨by simpa using hempty, hsep, hpoint⟩
      exact .inr ⟨[p.toList], by simp, by simpa using hname, by simp⟩
  · rw [segments_eq h, h]
    by_cases hnil : segmentChars [s] p.toList = []
    · left
      simp [hnil, Path.join]
    · exact .inr ⟨_, spells_join hnil fun x hx => isName_of_mem_segmentChars hx⟩

/-- The canonical path of a field spells names. -/
theorem spells_normalize (h : schema.PlainPaths s) {f : Field} (hf : schema.resolve (schema.normalize p) = some f) :
    ∃ xs, Spells s xs (schema.normalize p) := by
  refine (canonical_normalize h.separator h.uncutNames p).resolve_left fun hnil => ?_
  -- the empty path names no field
  have hget : schema.fields.get? "" = none := by
    by_contra hsome
    have hhas : schema.fields.has "" = true := Option.isSome_iff_ne_none.mpr hsome
    exact (h.names "" (mem_keys_of_has hhas)).ne_nil (by simp)
  have hsegs : segmentChars [s] "".toList = [] := by
    rw [String.toList_empty]
    unfold segmentChars
    split <;> rfl
  rw [hnil, resolve, hget, segments_eq h.separator, hsegs] at hf
  cases hf

/-- A path relative to another one has the names of the other one first. -/
theorem spells_normalize_under (h : schema.PlainPaths s) (hx : Spells s xs q) (p : String) :
    ∃ ys, xs <+: ys ∧ Spells s ys (schema.normalize (q ++ schema.settings.separator ++ p)) := by
  have hlist : (q ++ schema.settings.separator ++ p).toList = q.toList ++ s :: p.toList := by
    rw [h.separator]
    simp
  have hno : schema.fields.has (q ++ schema.settings.separator ++ p) = false := by
    rw [Bool.eq_false_iff]
    intro hp
    exact (h.names _ (mem_keys_of_has hp)).separator (by simp [hlist])
  have hsegs : segmentChars [s] (q ++ schema.settings.separator ++ p).toList = xs ++ segmentChars [s] p.toList := by
    rw [hlist, segmentChars_append, segmentChars_of_spells hx]
  refine ⟨xs ++ segmentChars [s] p.toList, List.prefix_append _ _, ?_⟩
  rw [normalize, if_neg (by simp [hno]), segments_eq h.separator, hsegs, h.separator]
  refine spells_join (by simp [hx.ne_nil]) fun x hm => ?_
  rcases List.mem_append.mp hm with hm | hm
  · exact hx.names x hm
  · exact isName_of_mem_segmentChars hm

/-! ## Fields on the way to a field -/

theorem walk_append (f : Field) (as bs : List String) : f.walk (as ++ bs) = (f.walk as).bind (·.walk bs) := by
  induction as generalizing f with
  | nil => rfl
  | cons a rest ih =>
    rw [List.cons_append, Field.walk, Field.walk]
    cases f.subfields.lookup a with
    | none => rfl
    | some g => exact ih g

/-- What is true of the top-level fields, and of the subfields of a field with the field,
is true of every field a path leads to. -/
theorem resolve_induction {P : Field → Prop} (htop : ∀ name f, (name, f) ∈ schema.fields → P f)
    (hsub : ∀ f, P f → ∀ name g, (name, g) ∈ f.subfields → P g) {f : Field} (hf : schema.resolve p = some f) :
    P f := by
  have hwalk : ∀ (names : List String) (g : Field), P g → g.walk names = some f → P f := by
    intro names
    induction names with
    | nil =>
      intro g hg hwalk
      cases hwalk
      exact hg
    | cons name rest ih =>
      intro g hg hwalk
      unfold Field.walk at hwalk
      split at hwalk
      · rename_i sub hlookup
        exact ih sub (hsub g hg name sub (Table.mem_of_get? hlookup)) hwalk
      · cases hwalk
  unfold resolve at hf
  split at hf
  · rename_i g hg
    cases hf
    exact htop p f (Table.mem_of_get? hg)
  · split at hf
    · cases hf
    · obtain ⟨g, hg, hdown⟩ := Option.bind_eq_some_iff.mp hf
      exact hwalk _ g (htop _ g (Table.mem_of_get? hg)) hdown

/-- Where a path leads to a field, so do the first names of it. -/
theorem exists_resolve_of_prefix (h : schema.settings.separator = String.singleton s) (hn : schema.UncutNames s)
    {f : Field} (hx : Spells s xs p) (hf : schema.resolve p = some f) {ys : List (List Char)} (hy : Spells s ys q)
    (hpre : ys <+: xs) : ∃ g, schema.resolve q = some g := by
  obtain ⟨zs, rfl⟩ := hpre
  cases hq : schema.fields.get? q with
  | some g => exact ⟨g, by rw [resolve, hq]⟩
  | none =>
    cases hp : schema.fields.get? p with
    | some g =>
      -- a top-level field has one name, so the two paths are the same
      have hsep := (hn p (List.mem_map_of_mem (Table.mem_of_get? hp))).1
      have hone := hx.splitOn
      rw [List.splitOn_eq_singleton hsep] at hone
      have hnil : zs = [] := by
        cases ys with
        | nil => exact absurd rfl hy.ne_nil
        | cons y ys => simp_all
      rw [hnil, List.append_nil] at hx
      exact ⟨f, hx.path_eq hy ▸ hf⟩
    | none =>
      rw [resolve, hp, segments_eq h, segmentChars_of_spells hx] at hf
      rw [resolve, hq, segments_eq h, segmentChars_of_spells hy]
      cases ys with
      | nil => exact absurd rfl hy.ne_nil
      | cons y ys =>
        have hdown : ((schema.fields.get? (String.ofList y)).bind fun f =>
            f.walk ((ys ++ zs).map String.ofList)) = some f := hf
        obtain ⟨top, htop, hwalk⟩ := Option.bind_eq_some_iff.mp hdown
        rw [List.map_append, walk_append] at hwalk
        obtain ⟨g, hg, -⟩ := Option.bind_eq_some_iff.mp hwalk
        exact ⟨g, Option.bind_eq_some_iff.mpr ⟨top, htop, hg⟩⟩

end Schema
end RuleTree
