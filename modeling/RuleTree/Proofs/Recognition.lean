/-
  RuleTree.Proofs.Recognition — the grammar of field operands.

  A field is named by a read of its path (`IsRead`), or by a count (`IsCount`): a `reduce` over a
  source that takes the accumulator up by one, from zero on. The source is a read, with or
  without a `filter` around it, whose predicate the count keeps (`IsSource`). Operations are taken
  with their arguments listed or bare (`Json.Applies`), further arguments are passed over where
  the grammar leaves room for them, and one and zero are numbers of that value, however spelled;
  numbers are such as JSON values have (`Json.Proper`).
  - `reads_and_counts_are_recognized`: an expression is recognized as a read of a path just when
  it is one, and as a count just when it is one; all others are refused. Path and predicate are
  parts of the expression.

  Which keys read is for the schema to say, and these names may be among them. Where `reduce` is,
  it reads and nothing counts; a `filter` keeps its place in a source all the same.
-/

import RuleTree.Proofs.Numbers
import RuleTree.Proofs.Parts

namespace RuleTree

/-! ## The grammar -/

namespace Json

/-- An operation of this name on these arguments: an object with the name as its one key, and
the list of the arguments or, unless it is itself a list, the single one. -/
inductive Applies : Json → String → List Json → Prop
  | listed (name : String) (args : List Json) : Applies (.obj [(name, .arr args)]) name args
  | bare (name : String) {arg : Json} (h : ∀ items, arg ≠ .arr items) : Applies (.obj [(name, arg)]) name [arg]

/-- A number of this value, in any spelling. -/
def IsNumber (j : Json) (v : ℚ) : Prop := ∃ n, j = .num n ∧ n.value = v

end Json

namespace FieldOperand

/-- A variable key on a path that is not empty. -/
def IsRead (ix : Index) (j : Json) (path : String) : Prop :=
  ∃ key more, j.Applies key (.str path :: more) ∧ ix.isVarKey key = true ∧ path ≠ ""

/-- The sum of one and the accumulator. -/
def IsIncrement (j : Json) : Prop :=
  ∃ step acc more, j.Applies "+" [step, acc] ∧ step.IsNumber 1 ∧ acc.Applies "var" (.str "accumulator" :: more)

/-- A collection that is read, and the predicate of the `filter` around it, if it has any. -/
inductive IsSource (ix : Index) : Json → String → Option Json → Prop
  | kept {source collection : Json} {path : String} {more : List Json}
      (hfilter : source.Applies "filter" (collection :: more)) (hread : IsRead ix collection path) :
      IsSource ix source path more.head?
  | whole {source : Json} {path : String} (hfilter : ∀ args, ¬source.Applies "filter" args)
      (hread : IsRead ix source path) : IsSource ix source path none

/-- A `reduce` that counts the elements of a source. -/
def IsCount (ix : Index) (j : Json) (path : String) (having : Option Json) : Prop :=
  ix.isVarKey "reduce" = false ∧
    ∃ source step start, j.Applies "reduce" [source, step, start] ∧ IsSource ix source path having ∧
      IsIncrement step ∧ start.IsNumber 0

end FieldOperand

/-! ## Operations and numbers -/

namespace Json

variable {j : Json} {name : String} {args : List Json}

theorem applies_iff : j.Applies name args ↔ j.operation? = some ⟨name, args⟩ := by
  constructor
  · intro h
    cases h with
    | listed => rfl
    | bare _ hbare =>
      rename_i arg
      cases arg with
      | arr items => exact absurd rfl (hbare items)
      | _ => rfl
  · intro h
    unfold operation? at h
    split at h
    · rename_i raw
      cases h
      cases raw with
      | arr items => exact .listed _ items
      | _ => exact .bare _ nofun
    · cases h

theorem Applies.inside {a : Json} (h : j.Applies name args) (ha : a ∈ args) : a.Inside j :=
  inside_of_mem_args (applies_iff.mp h) ha

theorem Applies.proper {a : Json} (h : j.Applies name args) (hj : j.Proper) (ha : a ∈ args) : a.Proper :=
  hj.of_mem_args (applies_iff.mp h) ha

end Json

namespace FieldOperand

variable {ix : Index} {j source : Json} {path : String} {having : Option Json} {args : List Json}

theorem isZeroNum_iff (hj : j.Proper) : isZeroNum j = true ↔ j.IsNumber 0 := by
  unfold Json.IsNumber
  cases hj with
  | num hn => simp [isZeroNum, Num.isZero_iff hn]
  | _ => simp [isZeroNum]

theorem isOneNum_iff (hj : j.Proper) : isOneNum j = true ↔ j.IsNumber 1 := by
  unfold Json.IsNumber
  cases hj with
  | num hn => simp [isOneNum, Num.isOne_iff hn]
  | _ => simp [isOneNum]

/-! ## Reads -/

theorem varPath?_eq_some_iff : varPath? args = some path ↔ path ≠ "" ∧ ∃ more, args = .str path :: more := by
  unfold varPath?
  split
  · rename_i first more
    simp only [Option.ite_none_left_eq_some, Option.some.injEq, List.cons.injEq, Json.str.injEq,
      String.isEmpty_iff]
    constructor
    · intro h
      obtain ⟨hne, rfl⟩ := h
      exact ⟨hne, more, rfl, rfl⟩
    · intro h
      obtain ⟨hne, more, rfl, -⟩ := h
      exact ⟨hne, rfl⟩
  · rename_i hother
    constructor
    · intro h
      cases h
    · intro h
      obtain ⟨-, more, rfl⟩ := h
      exact absurd rfl (hother path more)

theorem readPath?_eq_some_iff : readPath? ix j = some path ↔ IsRead ix j path := by
  constructor
  · intro h
    unfold readPath? at h
    split at h
    · rename_i op hop
      obtain ⟨hkey, hpath⟩ := Option.ite_none_right_eq_some.mp h
      obtain ⟨hne, more, hargs⟩ := varPath?_eq_some_iff.mp hpath
      exact ⟨op.name, more, Json.applies_iff.mpr (by rw [hop, ← hargs]), hkey, hne⟩
    · cases h
  · intro h
    obtain ⟨key, more, happly, hkey, hne⟩ := h
    simp only [readPath?, Json.applies_iff.mp happly, hkey, if_true]
    exact varPath?_eq_some_iff.mpr ⟨hne, more, rfl⟩

theorem IsRead.inside (h : IsRead ix j path) : (Json.str path).Inside j := by
  obtain ⟨key, more, happly, -, -⟩ := h
  exact happly.inside (by simp)

/-! ## Counts -/

theorem isAccumulator_iff : isAccumulator j = true ↔ ∃ more, j.Applies "var" (.str "accumulator" :: more) := by
  constructor
  · intro h
    unfold isAccumulator at h
    split at h
    · rename_i op hop
      obtain ⟨hname, hhead⟩ := Bool.and_eq_true_iff.mp h
      obtain ⟨first, hfirst, htext⟩ := Option.bind_eq_some_iff.mp (beq_iff_eq.mp hhead)
      obtain ⟨more, hargs⟩ := List.head?_eq_some_iff.mp hfirst
      cases first with
      | str s =>
        cases htext
        exact ⟨more, Json.applies_iff.mpr (by rw [hop, ← hargs, ← beq_iff_eq.mp hname])⟩
      | _ => cases htext
    · cases h
  · intro h
    obtain ⟨more, happly⟩ := h
    simp [isAccumulator, Json.applies_iff.mp happly, Json.asString?]

theorem isIncrement_iff (hj : j.Proper) : isIncrement j = true ↔ IsIncrement j := by
  constructor
  · intro h
    unfold isIncrement at h
    split at h
    · rename_i name step acc hop
      obtain ⟨hsum, hacc⟩ := Bool.and_eq_true_iff.mp h
      obtain ⟨hname, hone⟩ := Bool.and_eq_true_iff.mp hsum
      obtain ⟨more, hread⟩ := isAccumulator_iff.mp hacc
      have happly : j.Applies "+" [step, acc] := Json.applies_iff.mpr (by rw [hop, ← beq_iff_eq.mp hname])
      exact ⟨step, acc, more, happly, (isOneNum_iff (happly.proper hj (by simp))).mp hone, hread⟩
    · cases h
  · intro h
    obtain ⟨step, acc, more, happly, hone, hread⟩ := h
    have hone' : isOneNum step = true := (isOneNum_iff (happly.proper hj (by simp))).mpr hone
    have hacc : isAccumulator acc = true := isAccumulator_iff.mpr ⟨more, hread⟩
    simp [isIncrement, Json.applies_iff.mp happly, hone', hacc]

theorem ofSource?_eq_some_iff {operand : FieldOperand} :
    ofSource? ix source = some operand ↔
      ∃ path having, operand = .filtered path having ∧ IsSource ix source path having := by
  constructor
  · intro h
    unfold ofSource? at h
    split at h
    · rename_i op hop
      by_cases hname : op.name = "filter"
      · rw [if_pos (beq_iff_eq.mpr hname)] at h
        obtain ⟨path, hpath, rfl⟩ := Option.map_eq_some_iff.mp h
        obtain ⟨collection, hhead, hread⟩ := Option.bind_eq_some_iff.mp hpath
        obtain ⟨more, hargs⟩ := List.head?_eq_some_iff.mp hhead
        have happly : source.Applies "filter" (collection :: more) :=
          Json.applies_iff.mpr (by rw [hop, ← hname, ← hargs])
        refine ⟨path, more.head?, ?_, .kept happly (readPath?_eq_some_iff.mp hread)⟩
        rw [hargs, List.getElem?_cons_succ, List.head?_eq_getElem?]
      · rw [if_neg (by simpa using hname)] at h
        obtain ⟨path, hpath, rfl⟩ := Option.map_eq_some_iff.mp h
        refine ⟨path, none, rfl, .whole ?_ (readPath?_eq_some_iff.mp hpath)⟩
        intro args happly
        have hop' := hop.symm.trans (Json.applies_iff.mp happly)
        cases hop'
        exact hname rfl
    · cases h
  · intro h
    obtain ⟨path, having, rfl, hsource⟩ := h
    cases hsource with
    | kept happly hread =>
      simp [ofSource?, Json.applies_iff.mp happly, readPath?_eq_some_iff.mpr hread, List.head?_eq_getElem?]
    | whole hfilter hread =>
      obtain ⟨key, more, happly, -, -⟩ := id hread
      have hname : key ≠ "filter" := by
        intro heq
        rw [heq] at happly
        exact hfilter _ happly
      simp [ofSource?, Json.applies_iff.mp happly, hname, readPath?_eq_some_iff.mpr hread]

theorem IsSource.inside (h : IsSource ix source path having) : (Json.str path).Inside source := by
  cases h with
  | kept happly hread => exact hread.inside.trans (happly.inside (by simp))
  | whole _ hread => exact hread.inside

theorem IsCount.inside (h : IsCount ix j path having) : (Json.str path).Inside j := by
  obtain ⟨-, source, step, start, happly, hsource, -, -⟩ := h
  exact hsource.inside.trans (happly.inside (by simp))

/-! ## Recognition -/

theorem recognize?_eq_direct_iff : recognize? ix j = some (.direct path) ↔ IsRead ix j path := by
  constructor
  · intro h
    unfold recognize? at h
    split at h
    · cases h
    rename_i op hop
    by_cases hkey : ix.isVarKey op.name = true
    · rw [if_pos hkey] at h
      obtain ⟨path', hpath, heq⟩ := Option.map_eq_some_iff.mp h
      cases heq
      apply readPath?_eq_some_iff.mp
      simp only [readPath?, hop, hkey, if_true, hpath]
    · -- a count is no read
      rw [if_neg hkey] at h
      obtain ⟨-, h⟩ := Option.ite_none_right_eq_some.mp h
      split at h
      · obtain ⟨-, h⟩ := Option.ite_none_right_eq_some.mp h
        obtain ⟨_, _, heq, -⟩ := ofSource?_eq_some_iff.mp h
        cases heq
      · cases h
  · intro h
    obtain ⟨key, more, happly, hkey, hne⟩ := h
    have hpath : varPath? (.str path :: more) = some path := varPath?_eq_some_iff.mpr ⟨hne, more, rfl⟩
    simp [recognize?, Json.applies_iff.mp happly, hkey, hpath]

theorem recognize?_eq_filtered_iff (hj : j.Proper) :
    recognize? ix j = some (.filtered path having) ↔ IsCount ix j path having := by
  constructor
  · intro h
    unfold recognize? at h
    split at h
    · cases h
    rename_i op hop
    by_cases hkey : ix.isVarKey op.name = true
    · rw [if_pos hkey] at h
      obtain ⟨_, -, heq⟩ := Option.map_eq_some_iff.mp h
      cases heq
    · rw [if_neg hkey] at h
      obtain ⟨hname, h⟩ := Option.ite_none_right_eq_some.mp h
      have hname := beq_iff_eq.mp hname
      split at h
      · rename_i source step start hargs
        obtain ⟨hcond, h⟩ := Option.ite_none_right_eq_some.mp h
        obtain ⟨hzero, hstep⟩ := Bool.and_eq_true_iff.mp hcond
        obtain ⟨_, _, heq, hsource⟩ := ofSource?_eq_some_iff.mp h
        cases heq
        have happly : j.Applies "reduce" [source, step, start] := Json.applies_iff.mpr (by rw [hop, ← hname, ← hargs])
        refine ⟨by rwa [hname, Bool.not_eq_true] at hkey, source, step, start, happly, hsource, ?_, ?_⟩
        · exact (isIncrement_iff (happly.proper hj (by simp))).mp hstep
        · exact (isZeroNum_iff (happly.proper hj (by simp))).mp hzero
      · cases h
  · intro h
    obtain ⟨hkey, source, step, start, happly, hsource, hstep, hstart⟩ := h
    have hzero : isZeroNum start = true := (isZeroNum_iff (happly.proper hj (by simp))).mpr hstart
    have hstep' : isIncrement step = true := (isIncrement_iff (happly.proper hj (by simp))).mpr hstep
    have hsource' := ofSource?_eq_some_iff.mpr ⟨path, having, rfl, hsource⟩
    simp [recognize?, Json.applies_iff.mp happly, hkey, hzero, hstep', hsource']

/-- Reads of a path and counts are recognized as what they are, and nothing else is. The path,
and the predicate if there is one, are parts of the expression. -/
theorem reads_and_counts_are_recognized (ix : Index) (hj : j.Proper) :
    (∀ path, recognize? ix j = some (.direct path) ↔ IsRead ix j path) ∧
      (∀ path having, recognize? ix j = some (.filtered path having) ↔ IsCount ix j path having) ∧
      (recognize? ix j = none ↔ (∀ path, ¬IsRead ix j path) ∧ ∀ path having, ¬IsCount ix j path having) ∧
      ∀ operand, recognize? ix j = some operand →
        (Json.str operand.path).Inside j ∧ ∀ p ∈ operand.having?, p.Inside j := by
  have hdirect : ∀ path, recognize? ix j = some (.direct path) ↔ IsRead ix j path :=
    fun path => recognize?_eq_direct_iff
  have hfiltered : ∀ path having, recognize? ix j = some (.filtered path having) ↔ IsCount ix j path having :=
    fun path having => recognize?_eq_filtered_iff hj
  refine ⟨hdirect, hfiltered, ?_, ?_⟩
  · simp only [← hdirect, ← hfiltered]
    constructor
    · intro hnone
      simp [hnone]
    · intro hother
      cases h : recognize? ix j with
      | none => rfl
      | some operand =>
        cases operand with
        | direct path => exact absurd h (hother.1 path)
        | filtered path having => exact absurd h (hother.2 path having)
  · intro operand h
    refine ⟨?_, fun p hp => Converter.inside_of_recognize? h hp⟩
    cases operand with
    | direct path => exact ((hdirect path).mp h).inside
    | filtered path having => exact ((hfiltered path having).mp h).inside

/-- The paints that are red. -/
def redOnes : Json := .obj [("==", .arr [.obj [("var", .str "color")], .str "red"])]

/-- The count of a car's red paints: bare and listed arguments, a double for one and the
negative zero. -/
def redPaintCount : Json :=
  .obj [("reduce", .arr [
    .obj [("filter", .arr [.obj [("var", .str "paints")], redOnes, .null])],
    .obj [("+", .arr [.num (.float (Binary.ofInt 1)), .obj [("var", .arr [.str "accumulator", .num (.int 0)])]])],
    .num (.float (Binary.zero true))])]

theorem red_paints_are_counted :
    redPaintCount.Proper ∧ IsCount (Index.ofSchema {}) redPaintCount "paints" (some redOnes) := by
  have hproper : redPaintCount.Proper := by
    simp [redPaintCount, redOnes, Num.Proper, Binary.canonical_zero, Binary.canonical_ofInt]
  obtain ⟨-, hcount, -, -⟩ := reads_and_counts_are_recognized (Index.ofSchema {}) hproper
  exact ⟨hproper, (hcount "paints" (some redOnes)).mp rfl⟩

end FieldOperand
end RuleTree
