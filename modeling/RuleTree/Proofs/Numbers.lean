/-
  RuleTree.Proofs.Numbers — numbers of JSON values.

  A number is whole, in 64 bits, or a double that was made by rounding (`Num.Proper`). It is
  compared with zero and one as a double, and that is to compare values (`Num.isZero_iff`,
  `Num.isOne_iff`): no whole number but zero and one rounds to these, and each has one double, or
  one of either sign.

  All numbers of a value that is read from text are such numbers (`JsonText.proper_of_readJson?`).
-/

import RuleTree.Operation
import RuleTree.Proofs.Encoding
import RuleTree.Proofs.Rounding

namespace RuleTree

/-! ## Numbers -/

namespace Num

variable {n : Num}

/-- The exact value. -/
def value : Num → ℚ
  | int n => n
  | float x => x.value

/-- A whole number in 64 bits, signed or not, or a double made by rounding. -/
def Proper : Num → Prop
  | int n => -2 ^ 63 ≤ n ∧ n < 2 ^ 64
  | float x => x.Canonical

theorem natAbs_lt {m : Int} (h : (int m).Proper) : m.natAbs < 2 ^ 64 := by
  obtain ⟨hlow, hhigh⟩ := h
  omega

/-- The double of a number is zero just when the number is. -/
theorem isZero_iff (h : n.Proper) : n.isZero = true ↔ n.value = 0 := by
  cases n with
  | int m =>
    have hzero : (int m).isZero = true ↔ m = 0 := Binary.ofInt_isZero_iff (natAbs_lt h)
    rw [hzero, value, Int.cast_eq_zero]
  | float x => exact Binary.value_eq_zero_iff.symm

/-- The double of a number is one just when the number is. -/
theorem isOne_iff (h : n.Proper) : n.isOne = true ↔ n.value = 1 := by
  cases n with
  | int m =>
    have hone : (int m).isOne = true ↔ m = 1 := beq_iff_eq.trans (Binary.ofInt_eq_one_iff (natAbs_lt h))
    rw [hone, value, Int.cast_eq_one]
  | float x =>
    have hone : (float x).isOne = true ↔ x = Binary.ofInt 1 := beq_iff_eq
    rw [hone, value]
    constructor
    · rintro rfl
      exact Binary.value_one
    · intro hvalue
      have heq : (Binary.ofInt 1).value = x.value := Binary.value_one.trans hvalue.symm
      exact (Binary.eq_of_value_eq (Binary.canonical_ofInt 1) h (by decide) heq).symm

end Num

/-! ## Values -/

namespace Json

variable {e a : Json} {op : Operation}

/-- All numbers inside are proper. -/
inductive Proper : Json → Prop
  | null : Proper .null
  | bool (b : Bool) : Proper (.bool b)
  | num {n : Num} (h : n.Proper) : Proper (.num n)
  | str (s : String) : Proper (.str s)
  | arr {items : List Json} (h : ∀ x ∈ items, Proper x) : Proper (.arr items)
  | obj {entries : List (String × Json)} (h : ∀ p ∈ entries, Proper p.2) : Proper (.obj entries)

attribute [simp] Proper.null Proper.bool Proper.str

@[simp] theorem proper_num {n : Num} : (num n).Proper ↔ n.Proper := by
  constructor
  · intro h
    cases h
    assumption
  · exact .num

@[simp] theorem proper_arr {items : List Json} : (arr items).Proper ↔ ∀ x ∈ items, x.Proper := by
  constructor
  · intro h
    cases h
    assumption
  · exact .arr

@[simp] theorem proper_obj {entries : List (String × Json)} : (obj entries).Proper ↔ ∀ p ∈ entries, p.2.Proper := by
  constructor
  · intro h
    cases h
    assumption
  · exact .obj

theorem Proper.of_mem_args (h : e.Proper) (he : e.operation? = some op) (ha : a ∈ op.args) : a.Proper := by
  unfold operation? at he
  split at he
  · rename_i name raw
    cases he
    have hraw : raw.Proper := by simpa using h
    cases raw with
    | arr items => exact proper_arr.mp hraw a ha
    | _ => rwa [List.mem_singleton.mp ha]
  · cases he

/-- The members of an object are among those it was made of. -/
theorem exists_object_eq (entries : List (String × Json)) :
    ∃ members, object entries = .obj members ∧ ∀ p ∈ members, p ∈ entries := by
  have run : ∀ (todo acc : List (String × Json)), ∀ p ∈ todo.foldl (fun acc q => putEntry q.1 q.2 acc) acc,
      p ∈ todo ∨ p ∈ acc := by
    intro todo
    induction todo with
    | nil => exact fun acc p hp => .inr hp
    | cons q rest ih =>
      intro acc p hp
      have hput := ih (putEntry q.1 q.2 acc) p hp
      by_cases hrest : p ∈ rest
      · exact .inl (by simp [hrest])
      · cases mem_of_mem_putEntry (hput.resolve_left hrest) with
        | inl heq => exact .inl (by simp [heq])
        | inr hacc => exact .inr hacc
  exact ⟨_, rfl, fun p hp => (run entries [] p hp).resolve_right (by simp)⟩

end Json

/-! ## Values of text -/

namespace JsonText

theorem absorb_lt {sig : Nat} (cs : List Char) (h : sig < 2 ^ 64) : (absorb sig cs).1 < 2 ^ 64 := by
  fun_induction absorb sig cs with
  | case1 => exact h
  | case2 sig c rest sig' hlt ih => exact ih hlt
  | case3 => exact h

theorem proper_wholeNumber {neg : Bool} {sig : Nat} (h : sig < 2 ^ 64) : (wholeNumber neg sig).Proper := by
  unfold wholeNumber
  split
  · simp only [Num.Proper]
    omega
  split
  · exact (Binary.canonical_ofInt sig).withSign true
  · rename_i hsmall
    simp only [Nat.pow_eq, Bool.or_eq_true, beq_iff_eq, decide_eq_true_eq, not_or] at hsmall
    simp only [Num.Proper]
    omega

theorem proper_of_scaled {neg : Bool} {sig : Nat} {exp : Int} {after rest : List Char} {n : Num}
    (h : some ((Binary.ofScaled neg sig exp).map Num.float, after) = some (some n, rest)) : n.Proper := by
  obtain ⟨x, hx, rfl⟩ := Option.map_eq_some_iff.mp (congrArg Prod.fst (Option.some.inj h))
  exact Binary.canonical_of_ofScaled hx

theorem proper_of_exponent {exponent : Option (Int × List Char)} {neg : Bool} {sig : Nat} {shift : Int}
    {rest : List Char} {n : Num}
    (h : (exponent.bind fun e => some ((Binary.ofScaled neg sig (shift + e.1)).map Num.float, e.2)) =
      some (some n, rest)) : n.Proper := by
  obtain ⟨e, -, h⟩ := Option.bind_eq_some_iff.mp h
  exact proper_of_scaled h

theorem proper_of_number? {neg : Bool} {cs rest : List Char} {n : Num} (h : number? neg cs = some (some n, rest)) :
    n.Proper := by
  have hwhole : (absorb 0 (cs.takeWhile Scalar.isDigit)).1 < 2 ^ 64 := absorb_lt _ (by norm_num)
  unfold number? at h
  simp only at h
  split at h
  · cases h
  · cases h
  split at h
  · -- a point with digits behind it
    split at h
    · cases h
    split at h
    · split at h
      · exact proper_of_exponent h
      · exact proper_of_exponent h
    · exact proper_of_exponent h
  · split at h
    · exact proper_of_exponent h
    split at h
    · cases h
      exact proper_wholeNumber hwhole
    · exact proper_of_scaled h
  · split at h
    · cases h
      exact proper_wholeNumber hwhole
    · exact proper_of_scaled h

end JsonText

namespace Doc

theorem itemsToJson?_eq (items : List Doc) : itemsToJson? items = items.mapM toJson? := by
  induction items with
  | nil => rfl
  | cons d rest ih => rw [itemsToJson?, List.mapM_cons, ih]

theorem entriesToJson?_eq (entries : List (String × Doc)) :
    entriesToJson? entries = entries.mapM fun p => do return (p.1, ← p.2.toJson?) := by
  induction entries with
  | nil => rfl
  | cons p rest ih =>
    rw [entriesToJson?, List.mapM_cons, ih]
    cases p.2.toJson? <;> rfl

end Doc

namespace JsonText

/-- A document that is read has a proper value, if any. -/
theorem hereditary_proper : Doc.Hereditary fun d => ∀ j, d.toJson? = some j → j.Proper where
  null := by
    intro j hj
    cases hj
    exact .null
  bool := by
    intro b j hj
    cases hj
    exact .bool b
  str := by
    intro s j hj
    cases hj
    exact .str s
  num := by
    intro neg cs rest n hn j hj
    cases hj
    exact .num (proper_of_number? hn)
  list := by
    intro items hitems j hj
    obtain ⟨xs, hxs, rfl⟩ := Option.map_eq_some_iff.mp hj
    refine .arr fun x hx => ?_
    obtain ⟨d, hd, hread⟩ := Doc.exists_of_mem_mapM (Doc.itemsToJson?_eq items ▸ hxs) hx
    exact hitems d hd x hread
  map := by
    intro entries hentries j hj
    obtain ⟨ps, hps, rfl⟩ := Option.map_eq_some_iff.mp hj
    obtain ⟨members, hmembers, hsub⟩ := Json.exists_object_eq ps
    rw [hmembers]
    refine .obj fun p hp => ?_
    obtain ⟨q, hq, hread⟩ := Doc.exists_of_mem_mapM (Doc.entriesToJson?_eq entries ▸ hps) (hsub p hp)
    obtain ⟨x, hx, heq⟩ := Option.bind_eq_some_iff.mp hread
    cases heq
    exact hentries q hq x hx
  unreadable := nofun

/-- All numbers of a value of JSON text are proper. -/
theorem proper_of_readJson? {text : String} {j : Json} (h : readJson? text = some j) : j.Proper := by
  obtain ⟨d, hd, hj⟩ := Option.bind_eq_some_iff.mp h
  exact hereditary_proper.of_readDoc? hd j hj

end JsonText
end RuleTree
