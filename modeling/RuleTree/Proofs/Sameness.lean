/-
  RuleTree.Proofs.Sameness — what is the same as itself.

  Equality of values is by value, and of calls by the names of their arguments, so that a call
  is the same as itself when no two of its arguments have one name.
  - `Json.same_refl`: every value of the data is the same as itself.
  - `Operand.same_call`: and so is a call with arguments that are, each of its own name.
  - `Schema.distinctArgs_of_ofDoc?`: functions of a schema that is read declare no two
    arguments of one name.
  - `RuleProps.same_refl`, `RuleGroupProps.same_refl`: and the properties of a node whose
    operands are.
-/

import RuleTree.Node
import RuleTree.Schema.Decode

namespace RuleTree

/-! ## Data -/

theorem Num.same_refl (n : Num) : n.same n = true := by
  cases n <;> simp [Num.same]

namespace Json

mutual

theorem same_refl : ∀ j : Json, j.same j = true
  | .null => rfl
  | .bool b => by simp [same]
  | .num n => by simp [same, Num.same_refl]
  | .str s => by simp [same]
  | .arr items => by rw [same, sameItems_refl items]
  | .obj entries => by rw [same, sameEntries_refl entries]

theorem sameItems_refl : ∀ items : List Json, sameItems items items = true
  | [] => rfl
  | x :: rest => by rw [sameItems, same_refl x, sameItems_refl rest, Bool.and_self]

theorem sameEntries_refl : ∀ entries : List (String × Json), sameEntries entries entries = true
  | [] => rfl
  | (k, x) :: rest => by simp [sameEntries, same_refl x, sameEntries_refl rest]

end

end Json

theorem sameOptional_refl (xs : Option (List Json)) : sameOptional xs xs = true := by
  cases xs with
  | none => rfl
  | some xs => exact Json.sameItems_refl xs

/-! ## Operands -/

/-- A name that is not given twice finds its entry. -/
theorem lookup_of_mem {α : Type} {xs : List (String × α)} (hn : (xs.map Prod.fst).Nodup) {k : String} {x : α}
    (h : (k, x) ∈ xs) : xs.lookup k = some x := by
  induction xs with
  | nil => cases h
  | cons p rest ih =>
    obtain ⟨l, y⟩ := p
    rw [List.map_cons, List.nodup_cons] at hn
    rcases List.mem_cons.mp h with he | h
    · cases he
      exact List.lookup_cons_self
    · have hne : k ≠ l := by
        intro he
        apply hn.1
        exact List.mem_map.mpr ⟨(k, x), h, he⟩
      rw [List.lookup_cons, beq_eq_false_iff_ne.mpr hne]
      exact ih hn.2 h

theorem sameArgs_of_forall {xs ys : List (String × Operand)}
    (h : ∀ p ∈ xs, ys.lookup p.1 = some p.2 ∧ p.2.same p.2 = true) : sameArgs xs ys = true := by
  induction xs with
  | nil => rfl
  | cons p rest ih =>
    obtain ⟨hlookup, hsame⟩ := h p (by simp)
    have hrest := ih fun q hq => h q (by simp [hq])
    obtain ⟨k, x⟩ := p
    rw [sameArgs, hrest]
    simp only [hlookup, hsame, Bool.and_self]

namespace Operand

theorem same_literal (v : Json) (type : Option String) (async : Option (List Json)) :
    (mk (.literal v) type async).same (mk (.literal v) type async) = true := by
  simp [same, Content.same, Json.same_refl, sameOptional_refl]

theorem same_date (i : Instant) (type : Option String) (async : Option (List Json)) :
    (mk (.date i) type async).same (mk (.date i) type async) = true := by
  simp [same, Content.same, sameOptional_refl]

theorem same_field (path type : String) : (field path type).same (field path type) = true := by
  simp [same, field, Content.same, sameOptional]

theorem same_call {func : String} {args : List (String × Operand)} (type : String)
    (hn : (args.map Prod.fst).Nodup) (h : ∀ p ∈ args, p.2.same p.2 = true) :
    (call func args type).same (call func args type) = true := by
  have hargs : sameArgs args args = true := sameArgs_of_forall fun p hp => ⟨lookup_of_mem hn hp, h p hp⟩
  simp [same, call, Content.same, sameOptional, hargs]

end Operand

/-! ## Declared arguments -/

/-- No function of the schema declares two arguments of one name. -/
def Schema.DistinctArgs (s : Schema) : Prop := ∀ key func, (key, func) ∈ s.funcs → func.args.keys.Nodup

namespace Doc

variable {α : Type} {f : Doc → Option α} {t : Table α}

theorem exists_of_mem_mapM {β γ : Type} {F : β → Option γ} {xs : List β} {ys : List γ}
    (h : xs.mapM F = some ys) {y : γ} (hy : y ∈ ys) : ∃ x ∈ xs, F x = some y := by
  induction xs generalizing ys with
  | nil =>
    cases h
    cases hy
  | cons x rest ih =>
    rw [List.mapM_cons] at h
    obtain ⟨z, hz, h⟩ := Option.bind_eq_some_iff.mp h
    obtain ⟨zs, hzs, h⟩ := Option.bind_eq_some_iff.mp h
    cases h
    rcases List.mem_cons.mp hy with rfl | hy
    · exact ⟨x, by simp, hz⟩
    · obtain ⟨x', hx', hF⟩ := ih hzs hy
      exact ⟨x', by simp [hx'], hF⟩

/-- A table that is read holds each name once, with what was read for it. -/
theorem asTable?_spec {d : Doc} (h : asTable? f d = some t) : t.keys.Nodup ∧ ∀ p ∈ t, ∃ e, f e = some p.2 := by
  unfold asTable? at h
  split at h
  · obtain ⟨pairs, hpairs, rfl⟩ := Option.map_eq_some_iff.mp h
    refine ⟨Table.nodup_keys_ofPairs pairs, fun p hp => ?_⟩
    obtain ⟨e, -, he⟩ := exists_of_mem_mapM hpairs (Table.mem_of_mem_ofPairs hp)
    obtain ⟨v, hv, rfl⟩ := Option.map_eq_some_iff.mp he
    exact ⟨e.2, hv⟩
  · split at h
    · cases h
      exact ⟨List.nodup_nil, nofun⟩
    · cases h
  · cases h

theorem readOr_asTable?_spec {d : Option Doc} (h : readOr [] (asTable? f) d = some t) :
    t.keys.Nodup ∧ ∀ p ∈ t, ∃ e, f e = some p.2 := by
  cases d with
  | none =>
    cases h
    exact ⟨List.nodup_nil, nofun⟩
  | some d => exact asTable?_spec h

end Doc

theorem Func.nodup_args_of_ofDoc? {d : Doc} {f : Func} (h : Func.ofDoc? d = some f) : f.args.keys.Nodup := by
  obtain ⟨members, -, h⟩ := Option.bind_eq_some_iff.mp h
  split at h
  · obtain ⟨label, -, h⟩ := Option.bind_eq_some_iff.mp h
    obtain ⟨name, -, h⟩ := Option.bind_eq_some_iff.mp h
    obtain ⟨isMethod, -, h⟩ := Option.bind_eq_some_iff.mp h
    obtain ⟨returnType, -, h⟩ := Option.bind_eq_some_iff.mp h
    obtain ⟨args, hargs, h⟩ := Option.bind_eq_some_iff.mp h
    cases h
    exact (Doc.readOr_asTable?_spec hargs).1
  · cases h

/-- Tables keep each name once, and so do the functions of a schema that is read. -/
theorem Schema.distinctArgs_of_ofDoc? {d : Doc} {s : Schema} (h : Schema.ofDoc? d = some s) : s.DistinctArgs := by
  obtain ⟨members, -, h⟩ := Option.bind_eq_some_iff.mp h
  split at h
  · obtain ⟨conjunctions, -, h⟩ := Option.bind_eq_some_iff.mp h
    obtain ⟨operators, -, h⟩ := Option.bind_eq_some_iff.mp h
    obtain ⟨funcs, hfuncs, h⟩ := Option.bind_eq_some_iff.mp h
    obtain ⟨fields, -, h⟩ := Option.bind_eq_some_iff.mp h
    obtain ⟨widgets, -, h⟩ := Option.bind_eq_some_iff.mp h
    obtain ⟨settings, -, h⟩ := Option.bind_eq_some_iff.mp h
    cases h
    intro key func hm
    obtain ⟨e, he⟩ := (Doc.readOr_asTable?_spec hfuncs).2 (key, func) hm
    exact Func.nodup_args_of_ofDoc? he
  · cases h

/-! ## Properties -/

theorem RuleProps.same_refl {p : RuleProps} (h : sameOperands p.args p.args = true) : p.same p = true := by
  simp [same, h, sameOptional_refl]

theorem RuleGroupProps.same_refl {p : RuleGroupProps} (h : sameOperands p.args p.args = true) :
    p.same p = true := by
  simp [same, h]

end RuleTree
