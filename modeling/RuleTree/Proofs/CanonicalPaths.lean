/-
  RuleTree.Proofs.CanonicalPaths — the many paths of a field, and its canonical one.

  A path may be cut by the separator or by points, by several of them side by side or at its
  ends, and it may be given in parts, each relative to the ones before. All that counts are
  the names that stand between the cuts (`namesOf`).
  - `segmentChars_eq`: cutting at the separator, and the pieces at points, is cutting once
    at either of them.
  - `normalize_eq_join`: the canonical path joins the names; `namesOf_normalize`: and it has
    the same names again.
  - `normalize_eq_iff`, `resolve_congr`: paths with the same names have the same canonical
    path, and lead to the same field.
  - `namesOf_append`: a path relative to another one has the names of both.

  Proved of all paths: `paths_with_same_names_agree`.
-/

import RuleTree.Proofs.Rooting

namespace RuleTree
namespace Path

variable {s : Char} {p q : String}

/-! ## Names -/

/-- The names of a path: what stands between its separators and points. -/
def namesOf (s : Char) (p : String) : List (List Char) :=
  (p.toList.splitOnP fun c => c == s || c == '.').filter (!·.isEmpty)

/-- Cutting the pieces again is cutting at either character. -/
theorem flatMap_splitOn (s : Char) (cs : List Char) :
    (cs.splitOn s).flatMap (·.splitOn '.') = cs.splitOnP fun c => c == s || c == '.' := by
  induction cs with
  | nil => simp
  | cons c rest ih =>
    obtain ⟨x, xs, hx⟩ := List.exists_cons_of_ne_nil (List.splitOn_ne_nil s rest)
    rw [List.splitOn_cons_eq_if_modifyHead, List.splitOnP_cons_eq_if_modifyHead, ← ih, hx]
    by_cases hs : c = s
    · simp [hs]
    by_cases hpoint : c = '.'
    · subst hpoint
      simp [hs, List.splitOn_cons_eq_if_modifyHead]
    · obtain ⟨y, ys, hy⟩ := List.exists_cons_of_ne_nil (List.splitOn_ne_nil '.' x)
      simp [hs, hpoint, List.splitOn_cons_eq_if_modifyHead, hy]

theorem segmentChars_eq (s : Char) (p : String) : segmentChars [s] p.toList = namesOf s p := by
  have hpieces : pieces ['.'] = fun cs => cs.splitOn '.' := funext (pieces_eq_splitOn '.')
  unfold segmentChars namesOf
  rw [pieces_eq_splitOn, ← flatMap_splitOn]
  by_cases hs : s = '.'
  · subst hs
    -- the pieces hold no point, so that they are not cut again
    rw [← hpieces, flatMap_splitOn_of_not_mem fun x hx => not_mem_of_mem_splitOn hx]
    simp
  · have hne : ([s] == ['.']) = false := by simpa using hs
    simp only [hne, Bool.false_eq_true, if_false]
    rw [List.filter_flatMap, List.filter_flatMap, hpieces]
    induction p.toList.splitOn s with
    | nil => rfl
    | cons x xs ih =>
      rw [List.filter_cons, List.flatMap_cons, ← ih]
      cases x with
      | nil => simp
      | cons c x => simp

theorem isName_of_mem_namesOf {x : List Char} (h : x ∈ namesOf s p) : IsName s x :=
  isName_of_mem_segmentChars (segmentChars_eq s p ▸ h)

/-- A path relative to another one has the names of both. -/
theorem namesOf_append (p q : String) : namesOf s (p ++ String.singleton s ++ q) = namesOf s p ++ namesOf s q := by
  have hlist : (p ++ String.singleton s ++ q).toList = p.toList ++ s :: q.toList := by simp
  rw [← segmentChars_eq, hlist, segmentChars_append, segmentChars_eq, segmentChars_eq]

theorem namesOf_of_isName {x : List Char} (h : IsName s x) : namesOf s (String.ofList x) = [x] := by
  have hx : Spells s [x] (String.ofList x) := ⟨by simp, by simpa using h, by simp⟩
  rw [← segmentChars_eq, segmentChars_of_spells hx]

/-- Joining names makes a path of these names. -/
theorem namesOf_join {xs : List (List Char)} (h : ∀ x ∈ xs, IsName s x) :
    namesOf s (join (String.singleton s) (xs.map String.ofList)) = xs := by
  by_cases hne : xs = []
  · subst hne
    rfl
  · rw [← segmentChars_eq, segmentChars_of_spells (spells_join hne h)]

end Path

/-! ## Canonical paths -/

namespace Schema

open Path

variable {schema : Schema} {s : Char} {p q : String}

theorem PlainPaths.namesOf_of_has (h : schema.PlainPaths s) (hp : schema.fields.has p = true) :
    namesOf s p = [p.toList] := by
  have hname := namesOf_of_isName (h.names p (mem_keys_of_has hp))
  rwa [String.ofList_toList] at hname

/-- The canonical path joins the names. -/
theorem normalize_eq_join (h : schema.PlainPaths s) (p : String) :
    schema.normalize p = join (String.singleton s) ((namesOf s p).map String.ofList) := by
  unfold normalize
  split
  · rename_i hp
    rw [h.namesOf_of_has hp]
    simp [join]
  · rw [segments_eq h.separator, segmentChars_eq, h.separator]

theorem namesOf_normalize (h : schema.PlainPaths s) (p : String) :
    namesOf s (schema.normalize p) = namesOf s p := by
  rw [normalize_eq_join h, namesOf_join fun x hx => isName_of_mem_namesOf hx]

theorem normalize_eq_iff (h : schema.PlainPaths s) :
    schema.normalize p = schema.normalize q ↔ namesOf s p = namesOf s q := by
  constructor
  · intro heq
    rw [← namesOf_normalize h p, heq, namesOf_normalize h q]
  · intro heq
    rw [normalize_eq_join h, heq, ← normalize_eq_join h]

/-- A path leads to a field by its names alone. -/
theorem resolve_eq_walk (h : schema.PlainPaths s) (p : String) :
    schema.resolve p = match (namesOf s p).map String.ofList with
      | [] => none
      | name :: rest => (schema.fields.get? name).bind fun f => f.walk rest := by
  unfold resolve
  cases hp : schema.fields.get? p with
  | some f =>
    have hhas : schema.fields.has p = true := Option.isSome_iff_exists.mpr ⟨f, hp⟩
    rw [h.namesOf_of_has hhas]
    simp [hp, Field.walk]
  | none =>
    have hsegments : segments schema.settings.separator p = (namesOf s p).map String.ofList := by
      rw [segments_eq h.separator, segmentChars_eq]
    cases hnames : (namesOf s p).map String.ofList <;> simp only [hsegments, hnames]

theorem resolve_congr (h : schema.PlainPaths s) (heq : namesOf s p = namesOf s q) :
    schema.resolve p = schema.resolve q := by
  rw [resolve_eq_walk h, heq, ← resolve_eq_walk h]

end Schema

/-! ## Paths in parts -/

namespace Converter

open Path

variable {c : Converter} {s : Char}

theorem composePath_some (h : c.PlainFields s) (p a : String) :
    c.composePath (some p) a = c.schema.normalize (p ++ String.singleton s ++ a) := by
  rw [composePath, h.fields, separator, h.paths.separator]
  rfl

/-- A canonical path is canonical again and leads where the path leads; a part relative to a
part is relative to both; and only the names count: paths with the same names, however they
are cut and put together, have one canonical path and lead to the same field. -/
theorem paths_with_same_names_agree (h : c.PlainFields s) :
    (∀ p, c.fields.normalize (c.fields.normalize p) = c.fields.normalize p) ∧
      (∀ p, c.fields.resolve (c.fields.normalize p) = c.fields.resolve p) ∧
      (∀ p a b, c.composePath (some (c.composePath (some p) a)) b = c.composePath (some p) (a ++ c.separator ++ b)) ∧
      (∀ p q, c.fields.normalize p = c.fields.normalize q ↔ namesOf s p = namesOf s q) ∧
      (∀ p q, namesOf s p = namesOf s q → c.fields.resolve p = c.fields.resolve q) ∧
      (∀ p a, namesOf s (c.composePath (some p) a) = namesOf s p ++ namesOf s a) := by
  have hp := h.paths
  have hsep : c.separator = String.singleton s := hp.separator
  have hcompose : ∀ p a, namesOf s (c.composePath (some p) a) = namesOf s p ++ namesOf s a := by
    intro p a
    rw [composePath_some h, Schema.namesOf_normalize hp, namesOf_append]
  rw [h.fields]
  refine ⟨fun p => ?_, fun p => ?_, fun p a b => ?_, fun p q => ?_, fun p q heq => ?_, hcompose⟩
  · exact (Schema.normalize_eq_iff hp).mpr (Schema.namesOf_normalize hp p)
  · exact Schema.resolve_congr hp (Schema.namesOf_normalize hp p)
  · rw [composePath_some h, composePath_some h p (a ++ c.separator ++ b), Schema.normalize_eq_iff hp, hsep]
    simp only [namesOf_append, hcompose, List.append_assoc]
  · exact Schema.normalize_eq_iff hp
  · exact Schema.resolve_congr hp heq

/-! ## Cars of a user, in other words -/

/-- Cars, with paths cut by a slash. -/
def slashed : Converter := .ofSchema { Cars.schema with settings := { separator := "/" } } []

theorem slashed_plainFields : slashed.PlainFields '/' := by
  refine ⟨rfl, rfl, fun name hname => ?_⟩
  simp only [slashed, ofSchema, Cars.schema, Table.keys, List.map_cons, List.map_nil, List.mem_cons,
    List.not_mem_nil, or_false] at hname
  rcases hname with rfl | rfl | rfl <;> exact ⟨by decide, by decide, by decide⟩

/-- The vendor of the cars of a user, cut by points and slashes and given in three parts. -/
theorem vendor_by_three_parts :
    slashed.PlainFields '/' ∧
      slashed.composePath (some (slashed.composePath (some "/user.") ".cars")) "vendor//" =
        slashed.composePath (some "/user.") (".cars" ++ slashed.separator ++ "vendor//") ∧
      slashed.fields.normalize (slashed.fields.normalize "user..cars/vendor") =
        slashed.fields.normalize "user..cars/vendor" ∧
      slashed.fields.resolve (slashed.fields.normalize "user..cars/vendor") =
        slashed.fields.resolve "user..cars/vendor" ∧
      (slashed.fields.resolve "user..cars/vendor").isSome = true ∧
      namesOf '/' "user..cars/vendor" = namesOf '/' "/user/cars.vendor." ∧
      slashed.fields.resolve "user..cars/vendor" = slashed.fields.resolve "/user/cars.vendor." := by
  obtain ⟨hnormalize, hresolve, hcompose, -, hnames, -⟩ := paths_with_same_names_agree slashed_plainFields
  have hsame : namesOf '/' "user..cars/vendor" = namesOf '/' "/user/cars.vendor." := by decide
  exact ⟨slashed_plainFields, hcompose _ _ _, hnormalize _, hresolve _, by decide, hsame, hnames _ _ hsame⟩

end Converter
end RuleTree
