/-
  RuleTree.Proofs.Rounding — doubles and the values they stand for.

  A ratio is rounded at the place that leaves 53 bits of it, or at the lowest place there is. So
  a double comes out in one form only (`Binary.Canonical`), and then its value tells which one it
  is, but for the sign of zero.
  - `floorLog2_eq`: the place is found from the first bit of the ratio.
  - `ofRatio_spec`: what is rounded is canonical, at that place or the next; so is all that is
  made by rounding, whole numbers, products, quotients and decimals (`canonical_of_ofScaled`).
  - `eq_of_value_eq`: canonical doubles of one value that is not zero are equal.
  - `ofInt_isZero_iff`, `ofInt_eq_one_iff`: of the whole numbers in 64 bits, zero alone rounds to
  zero and one alone to one.
-/

import Mathlib
import RuleTree.Number.Binary

namespace RuleTree
namespace Binary

/-- The exact value. -/
def value (x : Binary) : ℚ := (if x.neg then -1 else 1) * (x.mant * 2 ^ x.exp)

/-- The form in which a double is made: at most 53 bits, and fewer only at the lowest place. -/
structure Canonical (x : Binary) : Prop where
  mant_lt : x.mant < 2 ^ 53
  exp_ge : -1074 ≤ x.exp
  exp_le : x.exp ≤ 971
  full : 2 ^ 52 ≤ x.mant ∨ x.exp = -1074

variable {x y : Binary} {neg : Bool} {num den : Nat}

theorem canonical_zero (neg : Bool) : (zero neg).Canonical := by
  refine ⟨?_, ?_, ?_, .inr rfl⟩ <;> simp [zero]

/-! ## Values -/

theorem value_eq_zero_iff : x.value = 0 ↔ x.isZero = true := by
  have hpow : (2 : ℚ) ^ x.exp ≠ 0 := by positivity
  cases hneg : x.neg <;> simp [value, isZero, hneg, hpow]

theorem neg_eq_of_value_eq (hx : x.mant ≠ 0) (hy : y.mant ≠ 0) (h : x.value = y.value) : x.neg = y.neg := by
  have hpos : ∀ z : Binary, z.mant ≠ 0 → 0 < (z.mant : ℚ) * 2 ^ z.exp := by
    intro z hz
    have hmant : 0 < (z.mant : ℚ) := by exact_mod_cast Nat.pos_of_ne_zero hz
    positivity
  have hxpos := hpos x hx
  have hypos := hpos y hy
  unfold value at h
  cases hneg : x.neg <;> cases hneg' : y.neg <;> simp only [hneg, hneg', if_true, if_false, Bool.false_eq_true] at h ⊢
  · linarith
  · linarith

/-- At a lower place, a canonical mantissa would need more bits. -/
theorem exp_le_of_scaled_eq (hx : x.Canonical) (hy : y.Canonical)
    (h : (x.mant : ℚ) * 2 ^ x.exp = y.mant * 2 ^ y.exp) : y.exp ≤ x.exp := by
  by_contra hlt
  push Not at hlt
  have hfull : 2 ^ 52 ≤ y.mant := by
    have hlow := hx.exp_ge
    have hy' := hy.full
    omega
  obtain ⟨k, hk⟩ : ∃ k : Nat, y.exp = x.exp + 1 + k := ⟨(y.exp - x.exp - 1).toNat, by omega⟩
  have hmant : (x.mant : ℚ) = y.mant * 2 ^ k * 2 := by
    have hpow : (2 : ℚ) ^ x.exp ≠ 0 := by positivity
    rw [hk, zpow_add₀ (by norm_num), zpow_add₀ (by norm_num), zpow_one, zpow_natCast] at h
    apply mul_right_cancel₀ hpow
    rw [h]
    ring
  have hmant' : x.mant = y.mant * 2 ^ k * 2 := by exact_mod_cast hmant
  have hk' : 1 ≤ 2 ^ k := Nat.one_le_two_pow
  have hbig : y.mant ≤ y.mant * 2 ^ k := Nat.le_mul_of_pos_right _ hk'
  have hlt' := hx.mant_lt
  omega

/-- Canonical doubles are told apart by their values, if these are not zero. -/
theorem eq_of_value_eq (hx : x.Canonical) (hy : y.Canonical) (hne : x.isZero = false) (h : x.value = y.value) :
    x = y := by
  have hmant : ∀ z : Binary, z.isZero = false → z.mant ≠ 0 := by
    intro z hz
    simpa [isZero] using hz
  have hney : y.isZero = false := by
    rw [Bool.eq_false_iff, ne_eq, ← value_eq_zero_iff, ← h, value_eq_zero_iff, hne]
    decide
  have hneg := neg_eq_of_value_eq (hmant x hne) (hmant y hney) h
  have hscaled : (x.mant : ℚ) * 2 ^ x.exp = y.mant * 2 ^ y.exp := by
    unfold value at h
    rw [hneg] at h
    apply mul_left_cancel₀ _ h
    cases y.neg <;> simp
  have hexp : x.exp = y.exp := by
    have hle := exp_le_of_scaled_eq hx hy hscaled
    have hge := exp_le_of_scaled_eq hy hx hscaled.symm
    omega
  have hmants : x.mant = y.mant := by
    rw [hexp] at hscaled
    have hpow : (2 : ℚ) ^ y.exp ≠ 0 := by positivity
    exact_mod_cast mul_right_cancel₀ hpow hscaled
  cases x
  cases y
  simp_all

/-! ## The place of the first bit -/

theorem unscale_spec (num : Nat) (hden : 0 < den) (e : Int) :
    0 < (unscale num den e).2 ∧
      ((unscale num den e).1 : ℚ) / (unscale num den e).2 = (num : ℚ) / den / 2 ^ e := by
  have hden' : (den : ℚ) ≠ 0 := by positivity
  unfold unscale
  by_cases he : 0 ≤ e
  · obtain ⟨k, rfl⟩ := Int.eq_ofNat_of_zero_le he
    simp only [he, if_true, Int.toNat_natCast, Nat.pow_eq, zpow_natCast]
    refine ⟨by positivity, ?_⟩
    push_cast
    field_simp
  · obtain ⟨k, hk⟩ : ∃ k : Nat, e = -k := ⟨(-e).toNat, by omega⟩
    subst hk
    simp only [he, if_false, neg_neg, Int.toNat_natCast, Nat.pow_eq, zpow_neg, zpow_natCast]
    refine ⟨hden, ?_⟩
    push_cast
    field_simp

/-- By the first bits of both, a ratio lies between two powers of two with one between them. -/
theorem ratio_between (hnum : 0 < num) (hden : 0 < den) :
    (2 : ℚ) ^ ((Nat.log2 num : Int) - Nat.log2 den - 1) < (num : ℚ) / den ∧
      (num : ℚ) / den < 2 ^ ((Nat.log2 num : Int) - Nat.log2 den + 1) := by
  have hnumLow : (2 : ℚ) ^ Nat.log2 num ≤ num := by exact_mod_cast Nat.log2_self_le (by omega)
  have hnumHigh : (num : ℚ) < 2 ^ (Nat.log2 num + 1) := by exact_mod_cast Nat.lt_log2_self
  have hdenLow : (2 : ℚ) ^ Nat.log2 den ≤ den := by exact_mod_cast Nat.log2_self_le (by omega)
  have hdenHigh : (den : ℚ) < 2 ^ (Nat.log2 den + 1) := by exact_mod_cast Nat.lt_log2_self
  have hden' : (0 : ℚ) < den := by exact_mod_cast hden
  have hnum' : (0 : ℚ) < num := by exact_mod_cast hnum
  have hlow : (2 : ℚ) ^ ((Nat.log2 num : Int) - Nat.log2 den - 1) =
      2 ^ Nat.log2 num / 2 ^ (Nat.log2 den + 1) := by
    rw [sub_sub, zpow_sub₀ (by norm_num), zpow_natCast]
    norm_cast
  have hhigh : (2 : ℚ) ^ ((Nat.log2 num : Int) - Nat.log2 den + 1) =
      2 ^ (Nat.log2 num + 1) / 2 ^ Nat.log2 den := by
    rw [sub_add_eq_add_sub, zpow_sub₀ (by norm_num), zpow_natCast]
    norm_cast
  rw [hlow, hhigh]
  constructor
  · calc (2 : ℚ) ^ Nat.log2 num / 2 ^ (Nat.log2 den + 1) ≤ num / 2 ^ (Nat.log2 den + 1) := by gcongr
      _ < num / den := by gcongr
  · calc (num : ℚ) / den < 2 ^ (Nat.log2 num + 1) / den := by gcongr
      _ ≤ 2 ^ (Nat.log2 num + 1) / 2 ^ Nat.log2 den := by gcongr

theorem floorLog2_eq (hnum : 0 < num) (hden : 0 < den) : floorLog2 num den = Int.log 2 ((num : ℚ) / den) := by
  have hratio : (0 : ℚ) < (num : ℚ) / den := by positivity
  obtain ⟨hlow, hhigh⟩ := ratio_between hnum hden
  obtain ⟨hpos, hscaled⟩ := unscale_spec num hden ((Nat.log2 num : Int) - Nat.log2 den)
  have hpow : (0 : ℚ) < 2 ^ ((Nat.log2 num : Int) - Nat.log2 den) := by positivity
  have hpos' : (0 : ℚ) < (unscale num den ((Nat.log2 num : Int) - Nat.log2 den)).2 := by exact_mod_cast hpos
  have hlog : ∀ t : Int, (2 : ℚ) ^ t ≤ (num : ℚ) / den → (num : ℚ) / den < 2 ^ (t + 1) →
      t = Int.log 2 ((num : ℚ) / den) := by
    intro t hle hlt
    have h1 := (Int.zpow_le_iff_le_log (b := 2) (by decide) hratio).mp (by exact_mod_cast hle)
    have h2 := (Int.lt_zpow_iff_log_lt (b := 2) (by decide) hratio).mp (by exact_mod_cast hlt)
    omega
  unfold floorLog2
  simp only
  split
  · rename_i h
    apply hlog _ _ hhigh
    have hone : (1 : ℚ) ≤ (num : ℚ) / den / 2 ^ ((Nat.log2 num : Int) - Nat.log2 den) := by
      rw [← hscaled, one_le_div hpos']
      exact_mod_cast h
    rwa [one_le_div hpow] at hone
  · rename_i h
    apply hlog _ hlow.le
    have hone : (num : ℚ) / den / 2 ^ ((Nat.log2 num : Int) - Nat.log2 den) < 1 := by
      rw [← hscaled, div_lt_one hpos']
      exact_mod_cast Nat.lt_of_not_le h
    rw [div_lt_one hpow] at hone
    rwa [sub_add_cancel]

/-! ## Rounding -/

theorem le_roundDiv {k : Nat} (hden : 0 < den) (h : k * den ≤ num) : k ≤ roundDiv num den := by
  have hquot : k ≤ num / den := (Nat.le_div_iff_mul_le hden).mpr h
  unfold roundDiv
  simp only
  split_ifs <;> omega

theorem roundDiv_le {k : Nat} (h : num < k * den) : roundDiv num den ≤ k := by
  have hquot : num / den < k := Nat.div_lt_of_lt_mul (by rwa [Nat.mul_comm])
  unfold roundDiv
  simp only
  split_ifs <;> omega

/-- At no lower place than the last of 53 bits, a ratio rounds to 53 bits, or just past them. -/
theorem roundDiv_unscale_le {e : Int} (hden : 0 < den) (he : Int.log 2 ((num : ℚ) / den) - 52 ≤ e) :
    roundDiv (unscale num den e).1 (unscale num den e).2 ≤ 2 ^ 53 := by
  obtain ⟨hpos, hscaled⟩ := unscale_spec num hden e
  have hpos' : (0 : ℚ) < (unscale num den e).2 := by exact_mod_cast hpos
  have hpow : (0 : ℚ) < 2 ^ e := by positivity
  have hratio : (num : ℚ) / den < 2 ^ 53 * 2 ^ e := by
    calc (num : ℚ) / den < 2 ^ (Int.log 2 ((num : ℚ) / den) + 1) := by
          exact_mod_cast Int.lt_zpow_succ_log_self (b := 2) (by decide) ((num : ℚ) / den)
      _ ≤ 2 ^ (53 + e) := zpow_le_zpow_right₀ (by norm_num) (by omega)
      _ = 2 ^ 53 * 2 ^ e := by rw [zpow_add₀ (by norm_num)]; norm_cast
  apply roundDiv_le
  rw [← div_lt_iff₀ hpow, ← hscaled, div_lt_iff₀ hpos'] at hratio
  exact_mod_cast hratio

/-- At the place of the last of 53 bits, a ratio rounds to no fewer. -/
theorem le_roundDiv_unscale {e : Int} (hnum : 0 < num) (hden : 0 < den)
    (he : Int.log 2 ((num : ℚ) / den) - 52 = e) :
    2 ^ 52 ≤ roundDiv (unscale num den e).1 (unscale num den e).2 := by
  obtain ⟨hpos, hscaled⟩ := unscale_spec num hden e
  have hpos' : (0 : ℚ) < (unscale num den e).2 := by exact_mod_cast hpos
  have hpow : (0 : ℚ) < 2 ^ e := by positivity
  have hpositive : (0 : ℚ) < (num : ℚ) / den := by positivity
  have hratio : (2 : ℚ) ^ 52 * 2 ^ e ≤ num / den := by
    calc (2 : ℚ) ^ 52 * 2 ^ e = 2 ^ Int.log 2 ((num : ℚ) / den) := by
          rw [← he, zpow_sub₀ (by norm_num)]
          norm_num
          ring
      _ ≤ num / den := by exact_mod_cast Int.zpow_log_le_self (b := 2) (by decide) hpositive
  apply le_roundDiv hpos
  rw [← le_div_iff₀ hpow, ← hscaled, le_div_iff₀ hpos'] at hratio
  exact_mod_cast hratio

/-- What is rounded has its sign and its place, or the next one, and is canonical. -/
theorem ofRatio_spec (hnum : 0 < num) (hden : 0 < den) (h : ofRatio neg num den = some x) :
    x.neg = neg ∧ max (Int.log 2 ((num : ℚ) / den) - 52) (-1074) ≤ x.exp ∧
      x.exp ≤ max (Int.log 2 ((num : ℚ) / den) - 52) (-1074) + 1 ∧ x.Canonical := by
  unfold ofRatio at h
  rw [if_neg (by simpa using hnum.ne'), floorLog2_eq hnum hden] at h
  generalize hL : Int.log 2 ((num : ℚ) / den) = L at h ⊢
  have hhigh : ∀ e, L - 52 ≤ e → roundDiv (unscale num den e).1 (unscale num den e).2 ≤ 2 ^ 53 :=
    fun e he => roundDiv_unscale_le hden (by rwa [hL])
  have hlow : ∀ e, L - 52 = e → 2 ^ 52 ≤ roundDiv (unscale num den e).1 (unscale num den e).2 :=
    fun e he => le_roundDiv_unscale hnum hden (by rwa [hL])
  generalize he : max (L - 52) (-1074) = e at h ⊢
  specialize hhigh e (by omega)
  specialize hlow e
  simp only [Nat.pow_eq, beq_iff_eq] at h
  generalize roundDiv (unscale num den e).1 (unscale num den e).2 = m at h hhigh hlow
  by_cases hm : m = 2 ^ 53
  · -- rounded up past 53 bits: the next place
    rw [if_pos hm] at h
    obtain ⟨hexp, h⟩ := Option.ite_none_left_eq_some.mp h
    cases h
    refine ⟨rfl, ?_, ?_, ?_, ?_, ?_, ?_⟩ <;> simp only <;> omega
  · rw [if_neg hm] at h
    obtain ⟨hexp, h⟩ := Option.ite_none_left_eq_some.mp h
    cases h
    refine ⟨rfl, ?_, ?_, ?_, ?_, ?_, ?_⟩ <;> simp only <;> omega

theorem exists_ofRatio (neg : Bool) (hnum : 0 < num) (hden : 0 < den) (hlog : Int.log 2 ((num : ℚ) / den) ≤ 1022) :
    ∃ x, ofRatio neg num den = some x := by
  unfold ofRatio
  rw [if_neg (by simpa using hnum.ne'), floorLog2_eq hnum hden]
  simp only
  rw [if_neg (by split <;> simp only <;> omega)]
  exact ⟨_, rfl⟩

theorem canonical_of_ofRatio (hden : 0 < den) (h : ofRatio neg num den = some x) : x.Canonical := by
  by_cases hnum : num = 0
  · rw [hnum] at h
    cases h
    exact canonical_zero neg
  · obtain ⟨-, -, -, hcanonical⟩ := ofRatio_spec (Nat.pos_of_ne_zero hnum) hden h
    exact hcanonical

/-! ## Whole numbers -/

theorem canonical_ofInt (n : Int) : (ofInt n).Canonical := by
  unfold ofInt
  cases h : ofRatio (n < 0) n.natAbs 1 with
  | none => exact canonical_zero false
  | some x => exact canonical_of_ofRatio Nat.one_pos h

theorem ofInt_spec {n : Int} (hn : n ≠ 0) (hlt : n.natAbs < 2 ^ 64) :
    (ofInt n).neg = decide (n < 0) ∧ (Nat.log 2 n.natAbs : Int) - 52 ≤ (ofInt n).exp ∧
      (ofInt n).exp ≤ (Nat.log 2 n.natAbs : Int) - 51 := by
  have hpos : 0 < n.natAbs := Int.natAbs_pos.mpr hn
  have hlog : Int.log 2 ((n.natAbs : ℚ) / (1 : Nat)) = Nat.log 2 n.natAbs := by
    rw [Nat.cast_one, div_one, Int.log_natCast]
  have hsize : Nat.log 2 n.natAbs < 64 := Nat.log_lt_of_lt_pow hpos.ne' hlt
  obtain ⟨x, hx⟩ := exists_ofRatio (n < 0) hpos Nat.one_pos (by rw [hlog]; omega)
  obtain ⟨hneg, hlow, hhigh, -⟩ := ofRatio_spec hpos Nat.one_pos hx
  have hofInt : ofInt n = x := by rw [ofInt, hx]; rfl
  rw [hlog] at hlow hhigh
  rw [hofInt]
  exact ⟨hneg, by omega, by omega⟩

/-- A whole number in range rounds to zero just when it is zero. -/
theorem ofInt_isZero_iff {n : Int} (hlt : n.natAbs < 2 ^ 64) : (ofInt n).isZero = true ↔ n = 0 := by
  constructor
  · intro hzero
    by_contra hn
    obtain ⟨-, hexp, -⟩ := ofInt_spec hn hlt
    have hfull := (canonical_ofInt n).full
    have hmant : (ofInt n).mant = 0 := by simpa [isZero] using hzero
    omega
  · rintro rfl
    rfl

/-- A whole number in range rounds to one just when it is one. -/
theorem ofInt_eq_one_iff {n : Int} (hlt : n.natAbs < 2 ^ 64) : ofInt n = ofInt 1 ↔ n = 1 := by
  constructor
  · intro hone
    have hn : n ≠ 0 := by
      rintro rfl
      revert hone
      decide
    obtain ⟨hneg, hexp, -⟩ := ofInt_spec hn hlt
    have hneg' : (ofInt 1).neg = false := by decide
    have hexp' : (ofInt 1).exp = -52 := by decide
    rw [hone, hneg'] at hneg
    rw [hone, hexp'] at hexp
    have hsign : ¬n < 0 := by simpa using hneg
    have hlog : Nat.log 2 n.natAbs = 0 := by omega
    have hsmall : n.natAbs < 2 := by
      have h := Nat.log_eq_zero_iff.mp hlog
      omega
    omega
  · rintro rfl
    rfl

theorem value_one : (ofInt 1).value = 1 := by
  have hone : ofInt 1 = ⟨false, 2 ^ 52, -52⟩ := by decide
  rw [hone, value]
  norm_num

/-! ## Products, quotients and decimals -/

theorem ratio_den_pos (x : Binary) : 0 < x.ratio.2 := by
  unfold ratio
  split
  · exact Nat.one_pos
  · exact Nat.pow_pos Nat.two_pos

theorem canonical_of_mul {z : Binary} (h : x.mul y = some z) : z.Canonical :=
  canonical_of_ofRatio (Nat.mul_pos (ratio_den_pos x) (ratio_den_pos y)) h

theorem canonical_of_div {z : Binary} (h : x.div y = some z) : z.Canonical := by
  obtain ⟨hne, h⟩ := Option.ite_none_left_eq_some.mp h
  have hpos : 0 < y.ratio.1 := Nat.pos_of_ne_zero fun hzero => hne (beq_iff_eq.mpr hzero)
  exact canonical_of_ofRatio (Nat.mul_pos (ratio_den_pos x) hpos) h

theorem Canonical.getD_div (hx : x.Canonical) (y : Binary) : ((x.div y).getD x).Canonical := by
  cases h : x.div y with
  | none => exact hx
  | some z => exact canonical_of_div h

theorem Canonical.divTen (hx : x.Canonical) (e : Nat) : (x.divTen e).Canonical := by
  fun_induction Binary.divTen x e with
  | case1 => exact hx
  | case2 => exact hx.getD_div _
  | case3 x e _ _ ih => exact ih (hx.getD_div _)

theorem Canonical.withSign (hx : x.Canonical) (neg : Bool) : Canonical { x with neg := neg } :=
  ⟨hx.mant_lt, hx.exp_ge, hx.exp_le, hx.full⟩

/-- A number read from its digits and a power of ten is canonical. -/
theorem canonical_of_ofScaled {sig : Nat} {exp : Int} (h : ofScaled neg sig exp = some x) : x.Canonical := by
  have hsig : Canonical { ofInt sig with neg := neg } := (canonical_ofInt sig).withSign neg
  unfold ofScaled at h
  simp only at h
  split at h
  · cases h
    exact hsig
  split at h
  · cases h
    exact hsig.divTen _
  split at h
  · cases h
  · exact canonical_of_mul h

end Binary
end RuleTree
