/-
  RuleTree.Proofs.OutermostPaths — the outermost of a list of paths.

  Paths are kept shortest first, each unless one kept before it lies over it. A path is longer
  than those it lies under, whatever the separator, so that no path that comes later lies over
  one that is kept: the kept paths are the minimal ones.
  - `outermost_of_pairwise`: paths that come shortest first, none under one before it, are all
    kept as they are.
  - `outermost_perm`: which paths are kept depends on which paths are there, and not on their
    order or on how often each is there.

  Proved of all lists of paths and all separators: `outermost_are_minimal`.
-/

import RuleTree.Proofs.Paths

namespace RuleTree
namespace Path

variable {sep : String} {ps qs : List String}

/-! ## Paths that are kept as they are -/

theorem bySize_of_pairwise (h : ps.Pairwise fun a b => a.utf8ByteSize ≤ b.utf8ByteSize) : bySize ps = ps := by
  induction ps with
  | nil => rfl
  | cons p rest ih =>
    obtain ⟨hp, hrest⟩ := List.pairwise_cons.mp h
    have hcons : bySize (p :: rest) = insertBySize p (bySize rest) := rfl
    rw [hcons, ih hrest]
    cases rest with
    | nil => rfl
    | cons q rest =>
      have hle := hp q (by simp)
      simp [insertBySize, hle]

theorem keepRoots_of_pairwise {kept : List String}
    (h : (kept ++ ps).Pairwise fun a b => isUnder sep b a = false) : keepRoots sep kept ps = kept ++ ps := by
  induction ps generalizing kept with
  | nil => simp [keepRoots]
  | cons p rest ih =>
    have hnone : kept.any (isUnder sep p) = false := by
      rw [List.any_eq_false]
      intro k hk
      have hunder := (List.pairwise_append.mp h).2.2 k hk p (by simp)
      simp [hunder]
    have hsplit : kept ++ p :: rest = (kept ++ [p]) ++ rest := by simp
    rw [hsplit] at h ⊢
    rw [keepRoots, hnone]
    exact ih h

/-- Paths that come shortest first, none under one before it, are all outermost. -/
theorem outermost_of_pairwise
    (h : ps.Pairwise fun a b => a.utf8ByteSize ≤ b.utf8ByteSize ∧ isUnder sep b a = false) :
    outermost sep ps = ps := by
  have hsize := bySize_of_pairwise (h.imp fun hab => hab.1)
  have hroots : keepRoots sep [] ps = ps := keepRoots_of_pairwise (h.imp fun hab => hab.2)
  rw [outermost, hsize, hroots]

theorem outermost_outermost (sep : String) (ps : List String) :
    outermost sep (outermost sep ps) = outermost sep ps :=
  outermost_of_pairwise ((pairwise_outermost sep ps).imp fun hab => ⟨hab.1, hab.2.1⟩)

/-! ## Which paths are kept -/

/-- Lists of the same paths have the same outermost ones, each once. -/
theorem outermost_perm (sep : String) (h : ∀ p, p ∈ ps ↔ p ∈ qs) :
    (outermost sep ps).Perm (outermost sep qs) := by
  rw [List.perm_ext_iff_of_nodup (nodup_outermost sep ps) (nodup_outermost sep qs)]
  intro p
  simp only [mem_outermost_iff, h]

/-- The outermost paths are the minimal ones, each once and shortest first: those that lie under
no other path of the list. So none lies under another one, every path lies under one of them,
they depend on the paths alone and not on their order or their repeats, and they are their own
outermost paths. -/
theorem outermost_are_minimal (sep : String) (ps : List String) :
    (outermost sep ps).Nodup ∧
      (outermost sep ps).Pairwise (fun p q => p.utf8ByteSize ≤ q.utf8ByteSize) ∧
      (∀ p, p ∈ outermost sep ps ↔ p ∈ ps ∧ ∀ q ∈ ps, q ≠ p → isUnder sep p q = false) ∧
      (∀ p ∈ outermost sep ps, ∀ q ∈ outermost sep ps, q ≠ p → isUnder sep p q = false) ∧
      (∀ p ∈ ps, ∃ q ∈ outermost sep ps, isUnder sep p q = true) ∧
      (∀ qs, (∀ p, p ∈ ps ↔ p ∈ qs) → (outermost sep ps).Perm (outermost sep qs)) ∧
      outermost sep (outermost sep ps) = outermost sep ps := by
  have hminimal : ∀ p, p ∈ outermost sep ps ↔ p ∈ ps ∧ ∀ q ∈ ps, q ≠ p → isUnder sep p q = false := by
    intro p
    rw [mem_outermost_iff]
    constructor
    · intro h
      refine ⟨h.1, fun q hq hne => ?_⟩
      rw [Bool.eq_false_iff]
      intro hunder
      exact hne (h.2 q hq hunder)
    · intro h
      refine ⟨h.1, fun q hq hunder => ?_⟩
      by_contra hne
      rw [h.2 q hq hne] at hunder
      cases hunder
  refine ⟨nodup_outermost sep ps, (pairwise_outermost sep ps).imp fun hpq => hpq.1, hminimal, ?_,
    fun p hp => exists_outermost sep hp, fun qs h => outermost_perm sep h, outermost_outermost sep ps⟩
  intro p hp q hq hne
  exact ((hminimal p).mp hp).2 q (mem_of_mem_outermost hq) hne

/-- The empty separator cuts between all characters, so that every text lies under its beginnings. -/
example : outermost "" ["abc", "b", "ab", "ab"] = ["b", "ab"] := by decide

end Path
end RuleTree
