/-
  RuleTree.Proofs.DateTexts — dates and the one text each is written in.

  A date is taken as one when its text is the full form (`fullForm`): four digits of the year,
  two for each part after it, and the milliseconds, in UTC. The readers take much more, but
  what they read in other texts is printed otherwise.
  - `digits` are so many last digits of a number; `fixed?_digits` reads them and
    `padded_eq_digits` prints them.
  - `strict?_fullForm`: the full form of an instant is read as the instant;
    `isoMillis_eq_fullForm`: and it is printed so.
  - `isMillis_of_read?`: an instant that is printed as the text it was read from is in whole
    milliseconds and in a year of four digits. For what is printed ends in a `Z`, a text with a
    `Z` is read by the strict reader or by none (`read?_of_mem`), and there the `Z` is the offset
    (`exists_of_strict?`).

  Proved of all texts and instants: `dates_are_full_forms`.
-/

import Mathlib.Data.List.TakeWhile
import RuleTree.Proofs.Cars
import RuleTree.Proofs.Parts
import RuleTree.Proofs.Rewriting

namespace RuleTree

open Scalar (isDigit digitValue fromDigits?)

/-! ## Digits -/

/-- So many digits of a number, the last ones. -/
def digits : Nat → Nat → List Char
  | 0, _ => []
  | width + 1, n => digits width (n / 10) ++ [(n % 10).digitChar]

section Digits

variable {width n : Nat} {rest : List Char}

theorem digitChar_spec : ∀ d < 10, isDigit d.digitChar = true ∧ digitValue d.digitChar = d := by
  decide

@[simp] theorem length_digits (width n : Nat) : (digits width n).length = width := by
  induction width generalizing n with
  | zero => rfl
  | succ width ih => simp [digits, ih]

theorem isDigit_of_mem_digits {c : Char} (h : c ∈ digits width n) : isDigit c = true := by
  induction width generalizing n with
  | zero => cases h
  | succ width ih =>
    rcases List.mem_append.mp h with h | h
    · exact ih h
    · rw [List.mem_singleton.mp h]
      exact (digitChar_spec (n % 10) (by omega)).1

theorem digits_zero (width : Nat) : digits width 0 = List.replicate width '0' := by
  induction width with
  | zero => rfl
  | succ width ih =>
    rw [digits, ih, List.replicate_succ']
    rfl

/-- A number below the power of ten of the width is printed by its digits. -/
theorem padded_eq_digits (hpos : 0 < width) (hn : n < 10 ^ width) : padded width n = digits width n := by
  induction width generalizing n with
  | zero => omega
  | succ width ih =>
    unfold padded digits
    by_cases hsmall : n < 10
    · have hdiv : n / 10 = 0 := by omega
      have hmod : n % 10 = n := by omega
      rw [Nat.toDigits_of_lt_base hsmall, hdiv, hmod, digits_zero]
      simp
    · have hwidth : 0 < width := by
        by_contra hzero
        have hw : width = 0 := by omega
        rw [hw] at hn
        omega
      have hdiv : n / 10 < 10 ^ width := by
        rw [Nat.pow_succ] at hn
        omega
      rw [Nat.toDigits_of_base_le (by omega) (by omega), ← ih hwidth hdiv, padded]
      simp

/-- One more digit of a number that is read. -/
def addDigit (acc : Option Nat) (c : Char) : Option Nat :=
  acc.bind fun n => if digitValue c < 10 then some (n * 10 + digitValue c) else none

theorem fromDigits?_eq (cs : List Char) :
    fromDigits? 10 cs = if cs.isEmpty then none else cs.foldl addDigit (some 0) := rfl

theorem foldl_digits (acc : Nat) (hn : n < 10 ^ width) :
    (digits width n).foldl addDigit (some acc) = some (acc * 10 ^ width + n) := by
  induction width generalizing n with
  | zero =>
    have hzero : n = 0 := by simpa using hn
    simp [digits, hzero]
  | succ width ih =>
    have hdiv : n / 10 < 10 ^ width := by
      rw [Nat.pow_succ] at hn
      omega
    have hdigit := (digitChar_spec (n % 10) (by omega)).2
    rw [digits, List.foldl_append, ih hdiv, List.foldl_cons, List.foldl_nil, addDigit, Option.bind_some, hdigit,
      if_pos (by omega), Nat.pow_succ, ← Nat.mul_assoc]
    congr 1
    omega

theorem fromDigits?_digits (hpos : 0 < width) (hn : n < 10 ^ width) : fromDigits? 10 (digits width n) = some n := by
  have hne : (digits width n).isEmpty = false := by
    rw [List.isEmpty_eq_false_iff_exists_mem]
    refine List.exists_mem_of_length_pos ?_
    simpa using hpos
  rw [fromDigits?_eq, hne, foldl_digits 0 hn]
  simp

theorem foldl_addDigit_none (cs : List Char) : cs.foldl addDigit none = none := by
  induction cs with
  | nil => rfl
  | cons c cs ih => exact ih

theorem foldl_addDigit_lt {cs : List Char} {acc : Nat} (h : cs.foldl addDigit (some acc) = some n) :
    n < (acc + 1) * 10 ^ cs.length := by
  induction cs generalizing acc with
  | nil =>
    cases h
    simp
  | cons c cs ih =>
    rw [List.foldl_cons, addDigit, Option.bind_some] at h
    split at h
    · rename_i hlt
      refine Nat.lt_of_lt_of_le (ih h) ?_
      rw [List.length_cons, Nat.pow_succ, Nat.mul_comm (10 ^ cs.length), ← Nat.mul_assoc]
      exact Nat.mul_le_mul_right _ (by omega)
    · rw [foldl_addDigit_none] at h
      cases h

theorem lt_of_fromDigits? {cs : List Char} (h : fromDigits? 10 cs = some n) : n < 10 ^ cs.length := by
  rw [fromDigits?_eq] at h
  split at h
  · cases h
  · simpa using foldl_addDigit_lt h

end Digits

namespace Instant

variable {width n : Nat} {cs rest : List Char} {i : Instant}

/-! ## The full form -/

/-- An instant that exists: its day and the time of day do, and a leap second is at the end of
a minute. -/
structure Exists (i : Instant) : Prop where
  date : i.date.exists? = true
  hour : i.hour < 24
  minute : i.minute < 60
  second : i.second < 60
  nano : i.nano < 2000000000
  leap : 1000000000 ≤ i.nano → i.second = 59

/-- An instant in whole milliseconds, in a year of four digits. -/
structure IsMillis (i : Instant) : Prop extends Exists i where
  year_nonneg : 0 ≤ i.date.year
  year_le : i.date.year ≤ 9999
  whole : i.nano % 1000000 = 0

/-- `YYYY-MM-DDTHH:MM:SS.mmmZ`, with 60 for a leap second. -/
def fullForm (i : Instant) : String :=
  String.ofList (digits 4 i.date.year.toNat ++ '-' :: (digits 2 i.date.month ++ '-' :: (digits 2 i.date.day ++
    'T' :: (digits 2 i.hour ++ ':' :: (digits 2 i.minute ++
      ':' :: (digits 2 (if i.nano < 1000000000 then i.second else 60) ++
        '.' :: (digits 3 (i.nano / 1000000 % 1000) ++ ['Z'])))))))

theorem ne_fullForm_of_length {text : String} (i : Instant) (h : text.toList.length ≠ 24) : text ≠ i.fullForm := by
  rintro rfl
  exact h (by simp [fullForm])

theorem daysInMonth_le (y : Int) (m : Nat) : Date.daysInMonth y m ≤ 31 := by
  unfold Date.daysInMonth
  split
  · split <;> omega
  · split <;> omega

/-! The numbers of the full form have no more digits than it gives them. -/

theorem IsMillis.year_lt (h : i.IsMillis) : i.date.year.toNat < 10 ^ 4 := by
  have hle := h.year_le
  omega

theorem Exists.month_lt (h : i.Exists) : i.date.month < 10 ^ 2 := by
  have hdate := h.date
  simp only [Date.exists?, Bool.and_eq_true, decide_eq_true_eq] at hdate
  omega

theorem Exists.day_lt (h : i.Exists) : i.date.day < 10 ^ 2 := by
  have hdate := h.date
  have hdays := daysInMonth_le i.date.year i.date.month
  simp only [Date.exists?, Bool.and_eq_true, decide_eq_true_eq] at hdate
  omega

theorem Exists.hour_lt (h : i.Exists) : i.hour < 10 ^ 2 := Nat.lt_trans h.hour (by omega)

theorem Exists.minute_lt (h : i.Exists) : i.minute < 10 ^ 2 := Nat.lt_trans h.minute (by omega)

theorem Exists.second_lt (h : i.Exists) : (if i.nano < 1000000000 then i.second else 60) < 10 ^ 2 := by
  have hlt := h.second
  split <;> omega

/-! ## Reading it and printing it -/

/-- Reading the digits of a number. -/
theorem fixed?_digits (hpos : 0 < width) (hn : n < 10 ^ width) (rest : List Char) :
    fixed? width (digits width n ++ rest) = some (n, rest) := by
  have htake : (digits width n ++ rest).take width = digits width n := by simp
  have hdrop : (digits width n ++ rest).drop width = rest := by simp
  have hall : (digits width n).all isDigit = true := List.all_eq_true.mpr fun c hc => isDigit_of_mem_digits hc
  unfold fixed?
  simp only [htake, hdrop, length_digits, beq_self_eq_true, hall, Bool.and_self, if_true,
    fromDigits?_digits hpos hn, Option.map_some]

theorem mark?_eq_some_iff {c : Char} : mark? c cs = some rest ↔ cs = c :: rest := by
  cases cs with
  | nil => simp [mark?]
  | cons d cs => simp [mark?, eq_comm]

theorem fraction?_digits (hn : n < 1000) : fraction? ('.' :: (digits 3 n ++ ['Z'])) = some (n * 1000000, ['Z']) := by
  have htake : (digits 3 n ++ ['Z']).take 9 = digits 3 n ++ ['Z'] := List.take_of_length_le (by simp)
  have hz : isDigit 'Z' = false := by decide
  have hdigits : (digits 3 n ++ ['Z']).takeWhile isDigit = digits 3 n := by
    rw [List.takeWhile_append_of_pos fun c hc => isDigit_of_mem_digits hc]
    simp [hz]
  have hrest : (digits 3 n ++ ['Z']).dropWhile isDigit = ['Z'] := by
    rw [List.dropWhile_append_of_pos fun c hc => isDigit_of_mem_digits hc]
    simp [hz]
  have hnum : fromDigits? 10 (digits 3 n) = some n := fromDigits?_digits (by omega) hn
  simp only [fraction?, htake, hdigits, hrest, hnum, length_digits, Option.map_some]

theorem shift_zero (hh : i.hour < 24) (hm : i.minute < 60) (hs : i.second < 60) : i.shift 0 = i := by
  have hhour : (i.hour * 3600 + i.minute * 60 + i.second) / 3600 = i.hour := by omega
  have hminute : (i.hour * 3600 + i.minute * 60 + i.second) / 60 % 60 = i.minute := by omega
  have hsecond : (i.hour * 3600 + i.minute * 60 + i.second) % 60 = i.second := by omega
  unfold shift
  simp only [Int.sub_zero]
  have hnonneg : ¬ ((i.hour * 3600 + i.minute * 60 + i.second : Nat) : Int) < 0 := by omega
  have hbelow : ¬ 86400 ≤ ((i.hour * 3600 + i.minute * 60 + i.second : Nat) : Int) := by omega
  have hrest : (((i.hour * 3600 + i.minute * 60 + i.second : Nat) : Int) % 86400).toNat =
      i.hour * 3600 + i.minute * 60 + i.second := by omega
  rw [if_neg hnonneg, if_neg hbelow, hrest, hhour, hminute, hsecond]

/-- What the strict reader reads, one after the other. -/
inductive StrictlyRead (cs : List Char) : Instant → Prop
  | intro {c₁ c₂ c₃ c₄ c₅ c₆ c₇ : List Char} {y mo d h mi s nano : Nat} {mark : Char} {offset : Int} {i : Instant}
      (year : fixed? 4 cs = some (y, '-' :: c₁)) (month : fixed? 2 c₁ = some (mo, '-' :: c₂))
      (day : fixed? 2 c₂ = some (d, mark :: c₃)) (between : (mark == 'T' || mark == 't' || mark == ' ') = true)
      (hour : fixed? 2 c₃ = some (h, ':' :: c₄)) (minute : fixed? 2 c₄ = some (mi, ':' :: c₅))
      (second : fixed? 2 c₅ = some (s, c₆)) (fraction : fraction? c₆ = some (nano, c₇))
      (zone : offset? c₇ = some (offset, [])) (parts : ofParts? ⟨y, mo, d⟩ h mi s nano = some i) :
      StrictlyRead cs (i.shift offset)

theorem strict?_eq_some_iff : strict? cs = some i ↔ StrictlyRead cs i := by
  constructor
  · intro hread
    unfold strict? at hread
    obtain ⟨⟨y, r₁⟩, hy, hread⟩ := Option.bind_eq_some_iff.mp hread
    obtain ⟨c₁, hmark, hread⟩ := Option.bind_eq_some_iff.mp hread
    obtain ⟨⟨mo, r₂⟩, hmo, hread⟩ := Option.bind_eq_some_iff.mp hread
    obtain ⟨c₂, hmark', hread⟩ := Option.bind_eq_some_iff.mp hread
    obtain ⟨⟨d, rest⟩, hd, hread⟩ := Option.bind_eq_some_iff.mp hread
    cases rest with
    | nil => cases hread
    | cons mark c₃ =>
      simp only at hread
      split at hread
      · rename_i hbetween
        obtain ⟨_, ⟨⟩, hread⟩ := Option.bind_eq_some_iff.mp hread
        obtain ⟨⟨h, r₄⟩, hh, hread⟩ := Option.bind_eq_some_iff.mp hread
        obtain ⟨c₄, hcolon, hread⟩ := Option.bind_eq_some_iff.mp hread
        obtain ⟨⟨mi, r₅⟩, hmi, hread⟩ := Option.bind_eq_some_iff.mp hread
        obtain ⟨c₅, hcolon', hread⟩ := Option.bind_eq_some_iff.mp hread
        obtain ⟨⟨s, c₆⟩, hs, hread⟩ := Option.bind_eq_some_iff.mp hread
        obtain ⟨⟨nano, c₇⟩, hnano, hread⟩ := Option.bind_eq_some_iff.mp hread
        obtain ⟨⟨offset, left⟩, hoffset, hread⟩ := Option.bind_eq_some_iff.mp hread
        obtain ⟨j, hj, hread⟩ := Option.bind_eq_some_iff.mp hread
        split at hread
        · rename_i hleft
          cases hread
          obtain rfl : r₁ = '-' :: c₁ := mark?_eq_some_iff.mp hmark
          obtain rfl : r₂ = '-' :: c₂ := mark?_eq_some_iff.mp hmark'
          obtain rfl : r₄ = ':' :: c₄ := mark?_eq_some_iff.mp hcolon
          obtain rfl : r₅ = ':' :: c₅ := mark?_eq_some_iff.mp hcolon'
          obtain rfl : left = [] := List.isEmpty_iff.mp hleft
          exact .intro hy hmo hd hbetween hh hmi hs hnano hoffset hj
        · cases hread
      · cases hread
  · rintro ⟨hy, hmo, hd, hbetween, hh, hmi, hs, hnano, hoffset, hj⟩
    unfold strict?
    refine Option.bind_eq_some_iff.mpr ⟨_, hy, Option.bind_eq_some_iff.mpr ⟨_, mark?_eq_some_iff.mpr rfl, ?_⟩⟩
    refine Option.bind_eq_some_iff.mpr ⟨_, hmo, Option.bind_eq_some_iff.mpr ⟨_, mark?_eq_some_iff.mpr rfl, ?_⟩⟩
    refine Option.bind_eq_some_iff.mpr ⟨_, hd, ?_⟩
    simp only
    rw [if_pos hbetween]
    refine Option.bind_eq_some_iff.mpr ⟨_, rfl, ?_⟩
    refine Option.bind_eq_some_iff.mpr ⟨_, hh, Option.bind_eq_some_iff.mpr ⟨_, mark?_eq_some_iff.mpr rfl, ?_⟩⟩
    refine Option.bind_eq_some_iff.mpr ⟨_, hmi, Option.bind_eq_some_iff.mpr ⟨_, mark?_eq_some_iff.mpr rfl, ?_⟩⟩
    refine Option.bind_eq_some_iff.mpr ⟨_, hs, Option.bind_eq_some_iff.mpr ⟨_, hnano, ?_⟩⟩
    exact Option.bind_eq_some_iff.mpr ⟨_, hoffset, Option.bind_eq_some_iff.mpr ⟨_, hj, rfl⟩⟩

/-- The parts of an existing instant in whole milliseconds are those of the instant. -/
theorem ofParts?_of_isMillis (h : i.IsMillis) :
    ofParts? ⟨i.date.year.toNat, i.date.month, i.date.day⟩ i.hour i.minute
      (if i.nano < 1000000000 then i.second else 60) (i.nano / 1000000 % 1000 * 1000000) = some i := by
  obtain ⟨⟨y, mo, d⟩, hour, minute, second, nano⟩ := i
  have hyear : ((y.toNat : Nat) : Int) = y := Int.toNat_of_nonneg h.year_nonneg
  have hdate : Date.exists? ⟨y, mo, d⟩ = true := h.date
  have hhour : hour < 24 := h.hour
  have hminute : minute < 60 := h.minute
  have hsecond : second < 60 := h.second
  have hnano : nano < 2000000000 := h.nano
  have hwhole : nano % 1000000 = 0 := h.whole
  have hleap : 1000000000 ≤ nano → second = 59 := h.leap
  simp only [ofParts?, hyear]
  by_cases hl : nano < 1000000000
  · have hms : nano / 1000000 % 1000 * 1000000 = nano := by omega
    have hle : second ≤ 60 := by omega
    have hne : (second == 60) = false := by
      rw [beq_eq_false_iff_ne]
      omega
    simp [hl, hdate, hhour, hminute, hle, hne, hms]
  · have hms : nano / 1000000 % 1000 * 1000000 + 1000000000 = nano := by omega
    have hlast : second = 59 := hleap (by omega)
    simp [hl, hdate, hhour, hminute, hms, hlast]

/-- An instant in whole milliseconds is printed in its full form. -/
theorem isoMillis_eq_fullForm (h : i.IsMillis) : i.isoMillis = i.fullForm := by
  have hyear : yearChars i.date.year = digits 4 i.date.year.toNat := by
    rw [yearChars, if_pos (by simp [h.year_nonneg, h.year_le]), padded_eq_digits (by omega) h.year_lt]
  have hsecond : i.shownSecond = if i.nano < 1000000000 then i.second else 60 := by
    have hleap := h.leap
    unfold shownSecond
    split <;> split <;> omega
  have hmillis : i.shownNano / 1000000 = i.nano / 1000000 % 1000 := by
    have hnano := h.nano
    unfold shownNano
    omega
  have hbelow : i.nano / 1000000 % 1000 < 10 ^ 3 := by omega
  rw [isoMillis, isoChars, clockChars, Date.chars, hyear, hsecond, hmillis,
    padded_eq_digits (by omega) h.month_lt, padded_eq_digits (by omega) h.day_lt,
    padded_eq_digits (by omega) h.hour_lt, padded_eq_digits (by omega) h.minute_lt,
    padded_eq_digits (by omega) h.second_lt, padded_eq_digits (by omega) hbelow, fullForm]
  simp only [List.append_assoc, List.cons_append]

/-- The full form of an instant is read as the instant. -/
theorem strict?_fullForm (h : i.IsMillis) : strict? i.fullForm.toList = some i := by
  have hmillis : i.nano / 1000000 % 1000 < 1000 := by omega
  have hread : StrictlyRead i.fullForm.toList (i.shift 0) := by
    rw [fullForm, String.toList_ofList]
    exact .intro (fixed?_digits (by omega) h.year_lt _) (fixed?_digits (by omega) h.month_lt _)
      (fixed?_digits (by omega) h.day_lt _) rfl (fixed?_digits (by omega) h.hour_lt _)
      (fixed?_digits (by omega) h.minute_lt _) (fixed?_digits (by omega) h.second_lt _)
      (fraction?_digits hmillis) rfl (ofParts?_of_isMillis h)
  rw [shift_zero h.hour h.minute h.second] at hread
  exact strict?_eq_some_iff.mpr hread

theorem read?_fullForm (h : i.IsMillis) : read? i.fullForm = some i := by
  rw [read?, strict?_fullForm h]
  rfl

/-! ## Texts with a `Z`

No reader passes a `Z` but the one of offsets. -/

theorem mem_dropWhile {p : Char → Bool} (hp : p 'Z' = false) (h : 'Z' ∈ cs) : 'Z' ∈ cs.dropWhile p := by
  rw [← List.takeWhile_append_dropWhile (p := p) (l := cs)] at h
  refine (List.mem_append.mp h).resolve_left fun htake => ?_
  rw [List.mem_takeWhile_imp htake] at hp
  cases hp

theorem mem_drop_of_all {ds : List Char} (hpre : ds <+: cs) (hall : ∀ c ∈ ds, isDigit c = true) (h : 'Z' ∈ cs) :
    'Z' ∈ cs.drop ds.length := by
  obtain ⟨rest, rfl⟩ := hpre
  rw [List.drop_left]
  refine (List.mem_append.mp h).resolve_left fun hds => ?_
  exact absurd (hall 'Z' hds) (by decide)

theorem mem_of_fixed? (h : fixed? width cs = some (n, rest)) (hz : 'Z' ∈ cs) : 'Z' ∈ rest ∧ n < 10 ^ width := by
  unfold fixed? at h
  simp only [Bool.and_eq_true, beq_iff_eq, List.all_eq_true] at h
  split at h
  · rename_i hds
    obtain ⟨m, hm, heq⟩ := Option.map_eq_some_iff.mp h
    obtain ⟨rfl, rfl⟩ := Prod.mk.inj heq
    have hrest := mem_drop_of_all (List.take_prefix width cs) hds.2 hz
    have hlt := lt_of_fromDigits? hm
    rw [hds.1] at hrest hlt
    exact ⟨hrest, hlt⟩
  · cases h

theorem mem_of_upTo? (h : upTo? width cs = some (n, rest)) (hz : 'Z' ∈ cs) : 'Z' ∈ rest := by
  obtain ⟨m, -, heq⟩ := Option.map_eq_some_iff.mp h
  obtain ⟨rfl, rfl⟩ := Prod.mk.inj heq
  refine mem_drop_of_all ((List.takeWhile_prefix _).trans (List.take_prefix _ _))
    (fun c hc => List.mem_takeWhile_imp hc) ?_
  exact mem_dropWhile (by decide) hz

theorem mem_of_mark? {c : Char} (hc : 'Z' ≠ c) (h : mark? c cs = some rest) (hz : 'Z' ∈ cs) : 'Z' ∈ rest := by
  rw [mark?_eq_some_iff.mp h] at hz
  exact (List.mem_cons.mp hz).resolve_left hc

theorem mem_of_fraction? (h : fraction? cs = some (n, rest)) (hz : 'Z' ∈ cs) : 'Z' ∈ rest ∧ n < 1000000000 := by
  unfold fraction? at h
  split at h
  · rename_i cs
    obtain ⟨m, hm, heq⟩ := Option.map_eq_some_iff.mp h
    obtain ⟨rfl, rfl⟩ := Prod.mk.inj heq
    have hz' : 'Z' ∈ cs := (List.mem_cons.mp hz).resolve_left (by decide)
    refine ⟨mem_dropWhile (by decide) hz', ?_⟩
    have hlt := lt_of_fromDigits? hm
    have hlen : ((cs.take 9).takeWhile isDigit).length ≤ 9 :=
      ((List.takeWhile_prefix _).length_le).trans (List.length_take_le 9 cs)
    calc m * Nat.pow 10 (9 - ((cs.take 9).takeWhile isDigit).length)
        < 10 ^ ((cs.take 9).takeWhile isDigit).length * 10 ^ (9 - ((cs.take 9).takeWhile isDigit).length) :=
          Nat.mul_lt_mul_of_pos_right hlt (Nat.pow_pos (by omega))
      _ = 10 ^ 9 := by rw [← Nat.pow_add, Nat.add_sub_cancel' hlen]
      _ = 1000000000 := rfl
  · obtain ⟨rfl, rfl⟩ := Prod.mk.inj (Option.some.inj h)
    exact ⟨hz, by omega⟩

/-- The hours and minutes of an offset, behind its sign. -/
def behindSign? (neg : Bool) (cs : List Char) : Option (Int × List Char) := do
  let (hours, cs) ← fixed? 2 cs
  let cs ← mark? ':' cs
  let (minutes, cs) ← fixed? 2 cs
  if hours < 24 && minutes < 60 then
    let secs : Int := (hours * 3600 + minutes * 60 : Nat)
    some (if neg then -secs else secs, cs)
  else none

theorem mem_of_behindSign? {neg : Bool} {offset : Int} (h : behindSign? neg cs = some (offset, rest))
    (hz : 'Z' ∈ cs) : 'Z' ∈ rest := by
  unfold behindSign? at h
  obtain ⟨⟨hours, c₁⟩, hhours, h⟩ := Option.bind_eq_some_iff.mp h
  obtain ⟨c₂, hmark, h⟩ := Option.bind_eq_some_iff.mp h
  obtain ⟨⟨minutes, c₃⟩, hminutes, h⟩ := Option.bind_eq_some_iff.mp h
  have hleft := (mem_of_fixed? hminutes (mem_of_mark? (by decide) hmark (mem_of_fixed? hhours hz).1)).1
  simp only at h
  split at h
  · obtain ⟨-, rfl⟩ := Prod.mk.inj (Option.some.inj h)
    exact hleft
  · cases h

theorem offset?_of_sign {sign : Char} (hz : sign ≠ 'Z') (hz' : sign ≠ 'z') (cs : List Char) :
    offset? (sign :: cs) = if sign == '+' then behindSign? false cs
      else if sign == '-' || sign.toNat == 0x2212 then behindSign? true cs else none := by
  rw [offset?]
  · split
    · rfl
    split <;> rfl
  · exact hz
  · exact hz'

/-- At the end of a text with a `Z` there is no other offset. -/
theorem offset?_eq_zero {offset : Int} (h : offset? cs = some (offset, [])) (hz : 'Z' ∈ cs) : offset = 0 := by
  cases cs with
  | nil => cases hz
  | cons sign cs =>
    by_cases hutc : sign = 'Z' ∨ sign = 'z'
    · rcases hutc with rfl | rfl <;> cases h <;> rfl
    · rw [not_or] at hutc
      have hds : 'Z' ∈ cs := (List.mem_cons.mp hz).resolve_left (Ne.symm hutc.1)
      rw [offset?_of_sign hutc.1 hutc.2] at h
      split at h
      · cases mem_of_behindSign? h hds
      split at h
      · cases mem_of_behindSign? h hds
      · cases h

theorem mem_of_year? {y : Int} (h : year? cs = some (y, rest)) (hz : 'Z' ∈ cs) : 'Z' ∈ rest := by
  have hblank : 'Z' ∈ Text.trimStart cs := mem_dropWhile (by decide) hz
  unfold year? at h
  split at h
  · rename_i cs' heq
    rw [heq] at hblank
    obtain ⟨m, -, heq⟩ := Option.map_eq_some_iff.mp h
    obtain ⟨-, rfl⟩ := Prod.mk.inj heq
    exact mem_dropWhile (by decide) ((List.mem_cons.mp hblank).resolve_left (by decide))
  · rename_i cs' heq
    rw [heq] at hblank
    obtain ⟨m, -, heq⟩ := Option.map_eq_some_iff.mp h
    obtain ⟨-, rfl⟩ := Prod.mk.inj heq
    exact mem_dropWhile (by decide) ((List.mem_cons.mp hblank).resolve_left (by decide))
  · obtain ⟨⟨m, ds⟩, hm, heq⟩ := Option.map_eq_some_iff.mp h
    obtain ⟨-, rfl⟩ := Prod.mk.inj heq
    exact mem_of_upTo? hm hblank

theorem mem_of_date? {d : Date} (h : date? cs = some (d, rest)) (hz : 'Z' ∈ cs) : 'Z' ∈ rest := by
  unfold date? at h
  obtain ⟨⟨y, c₁⟩, hy, h⟩ := Option.bind_eq_some_iff.mp h
  obtain ⟨c₂, hmark, h⟩ := Option.bind_eq_some_iff.mp h
  obtain ⟨⟨mo, c₃⟩, hmo, h⟩ := Option.bind_eq_some_iff.mp h
  obtain ⟨c₄, hmark', h⟩ := Option.bind_eq_some_iff.mp h
  obtain ⟨⟨d, c₅⟩, hd, h⟩ := Option.bind_eq_some_iff.mp h
  obtain ⟨-, rfl⟩ := Prod.mk.inj (Option.some.inj h)
  have hmonth := mem_of_mark? (by decide) hmark (mem_of_year? hy hz)
  exact mem_of_upTo? hd (mem_of_mark? (by decide) hmark' (mem_of_upTo? hmo hmonth))

theorem clock?_eq_none (d : Date) (hz : 'Z' ∈ cs) : clock? d cs = none := by
  by_contra hne
  obtain ⟨i, h⟩ := Option.ne_none_iff_exists'.mp hne
  unfold clock? at h
  obtain ⟨⟨hours, c₁⟩, hhours, h⟩ := Option.bind_eq_some_iff.mp h
  obtain ⟨c₂, hmark, h⟩ := Option.bind_eq_some_iff.mp h
  obtain ⟨⟨minutes, c₃⟩, hminutes, h⟩ := Option.bind_eq_some_iff.mp h
  obtain ⟨c₄, hmark', h⟩ := Option.bind_eq_some_iff.mp h
  obtain ⟨⟨seconds, c₅⟩, hseconds, h⟩ := Option.bind_eq_some_iff.mp h
  obtain ⟨⟨nano, c₆⟩, hnano, h⟩ := Option.bind_eq_some_iff.mp h
  have hmin := mem_of_mark? (by decide) hmark (mem_of_upTo? hhours hz)
  have hsec := mem_of_mark? (by decide) hmark' (mem_of_upTo? hminutes hmin)
  have hleft := (mem_of_fraction? hnano (mem_of_upTo? hseconds hsec)).1
  cases c₆ with
  | nil => cases hleft
  | cons c c₆ => cases h

/-- A text with a `Z` is read by the strict reader or by none. -/
theorem read?_of_mem {text : String} (hz : 'Z' ∈ text.toList) : read? text = strict? text.toList := by
  have hlenient : lenientT? text.toList = none := by
    by_contra hne
    obtain ⟨i, h⟩ := Option.ne_none_iff_exists'.mp hne
    obtain ⟨⟨d, c₁⟩, hd, h⟩ := Option.bind_eq_some_iff.mp h
    obtain ⟨c₂, hmark, h⟩ := Option.bind_eq_some_iff.mp h
    rw [clock?_eq_none d (mem_of_mark? (by decide) hmark (mem_of_date? hd hz))] at h
    cases h
  have hblank : lenientBlank? text.toList = none := by
    unfold lenientBlank?
    cases hd : date? text.toList with
    | none => rfl
    | some p => exact clock?_eq_none p.1 (mem_dropWhile (by decide) (mem_of_date? hd hz))
  have halone : dateAlone? text.toList = none := by
    unfold dateAlone?
    cases hd : date? text.toList with
    | none => rfl
    | some p =>
      obtain ⟨d, rest⟩ := p
      cases rest with
      | nil => cases mem_of_date? hd hz
      | cons c rest => rfl
  rw [read?]
  simp only [hlenient, hblank, halone]
  cases strict? text.toList <;> rfl

/-- An instant put together of its parts exists. -/
theorem exists_of_ofParts? {d : Date} {h m s nano : Nat} (hi : ofParts? d h m s nano = some i)
    (hnano : nano < 1000000000) : i.Exists ∧ i.date = d := by
  unfold ofParts? at hi
  split at hi
  · rename_i hparts
    simp only [Bool.and_eq_true, decide_eq_true_eq] at hparts
    obtain ⟨⟨⟨hdate, hh⟩, hm⟩, hs⟩ := hparts
    split at hi
    · cases hi
      exact ⟨⟨hdate, hh, hm, by simp, by simp only; omega, fun _ => rfl⟩, rfl⟩
    · rename_i hne
      rw [beq_iff_eq] at hne
      cases hi
      exact ⟨⟨hdate, hh, hm, by simp only; omega, by simp only; omega, by simp only; omega⟩, rfl⟩
  · cases hi

/-- What the strict reader reads from a text with a `Z` exists, in a year of four digits. -/
theorem exists_of_strict? (h : strict? cs = some i) (hz : 'Z' ∈ cs) :
    i.Exists ∧ 0 ≤ i.date.year ∧ i.date.year ≤ 9999 := by
  rw [strict?_eq_some_iff] at h
  obtain ⟨hy, hmo, hd, hbetween, hh, hmi, hs, hnano, hoffset, hj⟩ := h
  rename_i mark _ _
  have hmark : 'Z' ≠ mark := by
    rintro rfl
    simp at hbetween
  obtain ⟨hyear, hlt⟩ := mem_of_fixed? hy hz
  have hmonth := (mem_of_fixed? hmo ((List.mem_cons.mp hyear).resolve_left (by decide))).1
  have hday := (mem_of_fixed? hd ((List.mem_cons.mp hmonth).resolve_left (by decide))).1
  have hhour := (mem_of_fixed? hh ((List.mem_cons.mp hday).resolve_left hmark)).1
  have hminute := (mem_of_fixed? hmi ((List.mem_cons.mp hhour).resolve_left (by decide))).1
  have hsecond := (mem_of_fixed? hs ((List.mem_cons.mp hminute).resolve_left (by decide))).1
  obtain ⟨hfraction, hbelow⟩ := mem_of_fraction? hnano hsecond
  obtain ⟨hexists, hdate⟩ := exists_of_ofParts? hj hbelow
  rw [offset?_eq_zero hoffset hfraction, shift_zero hexists.hour hexists.minute hexists.second, hdate]
  exact ⟨hexists, by simp, by simp only; omega⟩

/-- Milliseconds are printed, and nothing finer. -/
theorem isoMillis_eq_of_nano (i : Instant) : isoMillis { i with nano := i.nano / 1000000 * 1000000 } = i.isoMillis := by
  have hsecond : shownSecond { i with nano := i.nano / 1000000 * 1000000 } = i.shownSecond := by
    unfold shownSecond
    simp only
    split <;> split <;> omega
  have hmillis : shownNano { i with nano := i.nano / 1000000 * 1000000 } / 1000000 = i.shownNano / 1000000 := by
    unfold shownNano
    simp only
    omega
  simp only [isoMillis, isoChars, clockChars, hsecond, hmillis]

theorem mem_isoMillis (i : Instant) : 'Z' ∈ i.isoMillis.toList := by
  simp [isoMillis, isoChars]

/-- An instant that is printed as the text it was read from is in whole milliseconds, and the
text is its full form. -/
theorem isMillis_of_read? {text : String} (h : read? text = some i) (hprinted : i.isoMillis = text) :
    i.IsMillis ∧ text = i.fullForm := by
  have hz : 'Z' ∈ text.toList := hprinted ▸ mem_isoMillis i
  have hstrict := h
  rw [read?_of_mem hz] at hstrict
  obtain ⟨hexists, hyear, hyear'⟩ := exists_of_strict? hstrict hz
  -- the instant without what is finer is printed alike, and read from what is printed
  have hmillis : IsMillis { i with nano := i.nano / 1000000 * 1000000 } := by
    have hnano := hexists.nano
    have hleap := hexists.leap
    exact ⟨⟨hexists.date, hexists.hour, hexists.minute, hexists.second, by simp only; omega,
      fun hle => hleap (by simp only at hle; omega)⟩, hyear, hyear', by simp⟩
  have hagain := read?_fullForm hmillis
  rw [← isoMillis_eq_fullForm hmillis, isoMillis_eq_of_nano, hprinted, h] at hagain
  have heq := Option.some.inj hagain
  rw [← heq] at hmillis
  exact ⟨hmillis, by rw [← hprinted, isoMillis_eq_fullForm hmillis]⟩

end Instant

/-! ## Texts in value position -/

namespace Converter

variable {c : Converter} {t : Target} {w : Widget} {parent : Option String} {n : Nat} {text : String} {i : Instant}
  {x : Content}

/-- In value position the text becomes a literal or a date, and no problem is recorded. -/
def TextBecomes (c : Converter) (t : Target) (w : Widget) (parent : Option String) (n : Nat) (text : String)
    (x : Content) : Prop :=
  c.value (.str text) t parent n = some ⟨some (.mk x (some w.type) (asyncValues t x)), n, []⟩

/-- In value position the text becomes nothing, and one problem is recorded: a malformed value. -/
def TextRefused (c : Converter) (t : Target) (parent : Option String) (n : Nat) (text : String) : Prop :=
  ∃ p, c.value (.str text) t parent n = some ⟨none, n, [p]⟩ ∧ p.kind = .malformedValue

/-- In value position the text becomes some operand that is the date. -/
def YieldsDate (c : Converter) (t : Target) (parent : Option String) (n : Nat) (text : String) (i : Instant) : Prop :=
  ∃ d o, c.value (.str text) t parent n = some d ∧ d.value = some o ∧ o.content = .date i

/-- Text is no operation, so whatever the schema and its hooks it stands for itself. -/
theorem value_text (c : Converter) (text : String) (t : Target) (parent : Option String) :
    c.value (.str text) t parent = .ofExcept (c.literalValue (.str text) t) := by
  obtain ⟨limit, hlimit⟩ : ∃ limit, c.limit (.str text) = limit + 1 :=
    Nat.exists_eq_succ_of_ne_zero (by have hpos := Json.size_pos (.str text); unfold limit; omega)
  rw [value, hlimit, valueN, valueStep_of_literal rfl]

theorem content_text (ht : t.type = "date" ∨ t.type = "datetime") (hne : text ≠ "") :
    c.content (.str text) t w = match Instant.read? text with
      | some i => .ok (if i.isoMillis = text then .date i else .literal (.str text))
      | none => .error (.badDate text) := by
  have htime : (t.type == "time") = false := by rcases ht with ht | ht <;> rw [ht] <;> decide
  have hdate : (t.type == "date" || t.type == "datetime") = true := by rcases ht with ht | ht <;> rw [ht] <;> decide
  have hempty : text.isEmpty = false := by simpa [String.isEmpty_iff] using hne
  cases hread : Instant.read? text <;>
    simp only [content, htime, hdate, hempty, hread, beq_iff_eq, Bool.false_eq_true, if_false, if_true]

theorem content_empty (ht : t.type = "date" ∨ t.type = "datetime") :
    c.content (.str "") t w = .ok (.literal (.str "")) := by
  rcases ht with ht | ht <;> simp [content, ht]

theorem textBecomes_of_content (hw : c.schema.widgets.get? t.widgetName = some w) (hf : w.valueFormat = none)
    (hx : c.content (.str text) t w = .ok x) : c.TextBecomes t w parent n text x := by
  have hshown : c.shown w x = x := by
    unfold shown
    rw [hf]
    split <;> rfl
  have hliteral : c.literalValue (.str text) t = .ok (.mk x (some w.type) (asyncValues t x)) := by
    rw [literalValue, hw]
    simp [Json.isOperation, Json.operation?, hx, hshown]
  rw [TextBecomes, value_text, hliteral]
  rfl

theorem textRefused_of_content (hw : c.schema.widgets.get? t.widgetName = some w)
    (hx : c.content (.str text) t w = .error (.badDate text)) : c.TextRefused t parent n text := by
  have hliteral : c.literalValue (.str text) t = .error (.badDate text) := by
    rw [literalValue, hw]
    simp [Json.isOperation, Json.operation?, hx]
  exact ⟨.badDate text, by rw [value_text, hliteral]; rfl, rfl⟩

/-- A text that becomes something becomes nothing else. -/
theorem eq_date_of_textBecomes (h : c.TextBecomes t w parent n text x) (hy : c.YieldsDate t parent n text i) :
    x = .date i := by
  obtain ⟨d, o, hd, ho, hdate⟩ := hy
  rw [h] at hd
  cases hd
  cases ho
  exact hdate

theorem not_yieldsDate_of_textRefused (h : c.TextRefused t parent n text) : ¬ c.YieldsDate t parent n text i := by
  rintro ⟨d, o, hd, ho, -⟩
  obtain ⟨p, hp, -⟩ := h
  rw [hp] at hd
  cases hd
  cases ho

/-- A text that becomes a date is the full form of the date. -/
theorem isMillis_of_yieldsDate (ht : t.type = "date" ∨ t.type = "datetime")
    (hw : c.schema.widgets.get? t.widgetName = some w) (hf : w.valueFormat = none)
    (h : c.YieldsDate t parent n text i) : i.IsMillis ∧ text = i.fullForm := by
  by_cases hne : text = ""
  · subst hne
    cases eq_date_of_textBecomes (textBecomes_of_content hw hf (content_empty ht)) h
  have hcontent := content_text (c := c) (w := w) ht hne
  cases hread : Instant.read? text with
  | none =>
    rw [hread] at hcontent
    exact absurd h (not_yieldsDate_of_textRefused (textRefused_of_content hw hcontent))
  | some j =>
    simp only [hread] at hcontent
    have hdate := eq_date_of_textBecomes (textBecomes_of_content hw hf hcontent) h
    split at hdate
    · rename_i hprinted
      cases hdate
      exact Instant.isMillis_of_read? hread hprinted
    · cases hdate

/-- For a date without a display pattern, the full form of an instant becomes the instant, no
other text becomes a date, and what is another text is kept as it is when a reader takes it
and else refused. -/
theorem dates_are_full_forms (ht : t.type = "date" ∨ t.type = "datetime")
    (hw : c.schema.widgets.get? t.widgetName = some w) (hf : w.valueFormat = none) (parent : Option String) (n : Nat) :
    (∀ i : Instant, i.IsMillis → c.TextBecomes t w parent n i.fullForm (.date i)) ∧
      (∀ text i, c.YieldsDate t parent n text i → i.IsMillis ∧ text = i.fullForm) ∧
      (∀ text text' i, c.YieldsDate t parent n text i → c.YieldsDate t parent n text' i → text = text') ∧
      ∀ text, text ≠ "" → (∀ i : Instant, i.IsMillis → text ≠ i.fullForm) →
        (∃ i, Instant.read? text = some i) ∧ c.TextBecomes t w parent n text (.literal (.str text)) ∨
          Instant.read? text = none ∧ c.TextRefused t parent n text := by
  have hyields : ∀ text i, c.YieldsDate t parent n text i → i.IsMillis ∧ text = i.fullForm :=
    fun _ _ hy => isMillis_of_yieldsDate ht hw hf hy
  refine ⟨fun i hi => ?_, hyields, fun text text' i h h' => ?_, fun text hne hother => ?_⟩
  · have hne : i.fullForm ≠ "" := by
      intro hempty
      have hlist := congrArg String.toList hempty
      simp [Instant.fullForm] at hlist
    refine textBecomes_of_content hw hf ?_
    rw [content_text ht hne, Instant.read?_fullForm hi]
    simp only [Instant.isoMillis_eq_fullForm hi, if_true]
  · rw [(hyields text i h).2, (hyields text' i h').2]
  · cases hread : Instant.read? text with
    | none =>
      refine .inr ⟨rfl, textRefused_of_content hw ?_⟩
      rw [content_text ht hne, hread]
    | some i =>
      have hnot : i.isoMillis ≠ text := by
        intro hprinted
        obtain ⟨hi, hform⟩ := Instant.isMillis_of_read? hread hprinted
        exact hother i hi hform
      refine .inl ⟨⟨i, rfl⟩, textBecomes_of_content hw hf ?_⟩
      rw [content_text ht hne, hread]
      simp only [hnot, if_false]

/-! ## The end of a year -/

/-- Cars with a widget for days. -/
def dated : Converter := .ofSchema { Cars.schema with widgets := [("date", { type := "date" })] } []

def aDay : Target := ⟨"date", "date", none, false⟩

/-- A quarter of a second into the leap second of a year. -/
def leapSecond : Instant := ⟨⟨2016, 12, 31⟩, 23, 59, 59, 1250000000⟩

theorem leapSecond_isMillis : leapSecond.IsMillis :=
  ⟨⟨by decide, by decide, by decide, by decide, by decide, fun _ => rfl⟩, by decide, by decide, by decide⟩

/-- The leap second becomes a date; its day alone stays text, and the day after it does not
exist. -/
theorem leap_second_and_days :
    (aDay.type = "date" ∨ aDay.type = "datetime") ∧
      dated.schema.widgets.get? aDay.widgetName = some { type := "date" } ∧ leapSecond.IsMillis ∧
      dated.TextBecomes aDay { type := "date" } none 0 "2016-12-31T23:59:60.250Z" (.date leapSecond) ∧
      dated.YieldsDate aDay none 0 "2016-12-31T23:59:60.250Z" leapSecond ∧
      (∀ text, dated.YieldsDate aDay none 0 text leapSecond → text = "2016-12-31T23:59:60.250Z") ∧
      dated.TextBecomes aDay { type := "date" } none 0 "2016-12-31" (.literal (.str "2016-12-31")) ∧
      dated.TextRefused aDay none 0 "2016-12-32" := by
  have htype : aDay.type = "date" ∨ aDay.type = "datetime" := .inl rfl
  have hwidget : dated.schema.widgets.get? aDay.widgetName = some { type := "date" } := by decide
  have hform : leapSecond.fullForm = "2016-12-31T23:59:60.250Z" := by decide
  obtain ⟨hdates, -, honly, hothers⟩ := dates_are_full_forms htype hwidget rfl none 0
  have hdate := hdates leapSecond leapSecond_isMillis
  rw [hform] at hdate
  have hyields : dated.YieldsDate aDay none 0 "2016-12-31T23:59:60.250Z" leapSecond := ⟨_, _, hdate, rfl, rfl⟩
  have hday := hothers "2016-12-31" (by decide) fun i _ => Instant.ne_fullForm_of_length i (by decide)
  have hnext := hothers "2016-12-32" (by decide) fun i _ => Instant.ne_fullForm_of_length i (by decide)
  have hread : Instant.read? "2016-12-31" ≠ none := by decide
  have hread' : Instant.read? "2016-12-32" = none := by decide
  refine ⟨htype, hwidget, leapSecond_isMillis, hdate, hyields, fun text h => honly _ _ _ h hyields, ?_, ?_⟩
  · exact (hday.resolve_right fun h => hread h.1).2
  · exact (hnext.resolve_left fun ⟨⟨i, hi⟩, _⟩ => by rw [hread'] at hi; cases hi).2

end Converter
end RuleTree
