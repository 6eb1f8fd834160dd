/-
  RuleTree.Proofs.Patterns — display patterns as directive text.

  The scan of a pattern goes character by character and remembers where it stands: in running
  text, within a token, or in brackets. No token holds a bracket (`brackets_not_in_tokens`), so
  a token never reaches over one, and every piece of directive text the scan puts out is read
  as itself, whatever comes next (`Whole`).
  - `directivesFrom_eq_none_iff`: from each place, the scan fails when a bracket stays open.
  - `whole_of_directivesFrom`: what the scan puts out is whole, and has no invalid item.
  - `directivesFrom_append_bracket`: a scan goes on with a bracket behind the pattern as it
    would begin with it; `directivesFrom_bracket_append`: text in brackets is copied, with
    percent signs doubled.
  - `render_append`, `render_doubled`: whole text shows what its parts show, and doubled percent
    signs show as they were.

  Proved of all patterns: `fails_iff_leavesOpen`, `bracketed_text_is_shown_as_it_is`.
-/

import Mathlib.Data.List.Find
import Mathlib.Data.List.Infix
import RuleTree.Date.Pattern

namespace RuleTree

/-! ## Directive text in pieces -/

namespace Directive

variable {cs ds rest : List Char} {d : Directive} {n : Nat} {i : Instant}

theorem itemsFrom_eq_drop (skip : Nat) (cs : List Char) : itemsFrom skip cs = items (cs.drop skip) := by
  induction cs generalizing skip with
  | nil => cases skip <;> rfl
  | cons c cs ih =>
    cases skip with
    | zero => rfl
    | succ skip => exact ih skip

theorem parse?_append (h : parse? cs = some (d, n)) (rest : List Char) : parse? (cs ++ rest) = some (d, n) := by
  unfold parse? at h
  split at h <;> first | exact h | cases h

theorem items_of_ne {c : Char} (h : c ≠ '%') (cs : List Char) : items (c :: cs) = .text c :: items cs := by
  unfold items
  rw [itemsFrom]
  exact h

/-- Text that is read by itself whatever follows, and without an invalid item. -/
structure Whole (ds : List Char) : Prop where
  valid : Item.invalid ∉ items ds
  append : ∀ rest, items (ds ++ rest) = items ds ++ items rest

theorem whole_nil : Whole [] := ⟨List.not_mem_nil, fun _ => rfl⟩

theorem Whole.and_then {ds' : List Char} (h : Whole ds) (h' : Whole ds') : Whole (ds ++ ds') := by
  refine ⟨?_, fun rest => ?_⟩
  · rw [h.append, List.mem_append, not_or]
    exact ⟨h.valid, h'.valid⟩
  · rw [List.append_assoc, h.append, h'.append, h.append, List.append_assoc]

/-- A percent sign and all of a directive. -/
theorem whole_directive (h : parse? cs = some (d, cs.length)) (hne : cs.head? ≠ some '%') : Whole ('%' :: cs) := by
  have hitems : ∀ rest, items ('%' :: cs ++ rest) = .directive d :: items rest := by
    intro rest
    have hmore := parse?_append h rest
    cases cs with
    | nil => cases h
    | cons c cs =>
      have hc : c ≠ '%' := by simpa using hne
      rw [List.cons_append, items, itemsFrom]
      · simp only [hmore]
        rw [itemsFrom_eq_drop, List.drop_left]
      · intro cs' heq
        exact hc (List.cons.inj heq).1
  have halone : items ('%' :: cs) = [.directive d] := by simpa [items, itemsFrom] using hitems []
  refine ⟨by simp [halone], fun rest => ?_⟩
  rw [hitems, halone]
  rfl

theorem render_append (h : Whole ds) (i : Instant) (rest : List Char) :
    render i (ds ++ rest) = render i ds ++ render i rest := by
  rw [render, h.append, List.flatMap_append]
  rfl

end Directive

namespace Pattern

open Directive (Whole)

variable {cs ds more : List Char} {c : Char} {place : Place}

/-! ## Literal text -/

theorem items_literal (c : Char) (rest : List Char) :
    Directive.items (literal c ++ rest) = .text c :: Directive.items rest := by
  unfold literal
  split
  · rename_i hc
    subst hc
    rfl
  · rename_i hc
    exact Directive.items_of_ne hc rest

theorem whole_literal (c : Char) : Whole (literal c) := by
  have halone : Directive.items (literal c) = [.text c] := by
    rw [← List.append_nil (literal c), items_literal]
    rfl
  refine ⟨by simp [halone], fun rest => ?_⟩
  rw [items_literal, halone]
  rfl

/-- Text with every percent sign written twice. -/
def doubled (t : List Char) : List Char := t.flatMap fun c => if c = '%' then [c, c] else [c]

theorem doubled_eq (t : List Char) : doubled t = t.flatMap literal := by
  refine List.flatMap_congr fun c _ => ?_
  unfold literal
  split
  · rename_i hc
    rw [hc]
  · rfl

theorem whole_doubled (t : List Char) : Whole (doubled t) := by
  rw [doubled_eq]
  induction t with
  | nil => exact Directive.whole_nil
  | cons c t ih => exact (whole_literal c).and_then ih

/-- Doubled percent signs are shown as they were. -/
theorem render_doubled (i : Instant) (t : List Char) : Directive.render i (doubled t) = t := by
  rw [doubled_eq]
  induction t with
  | nil => rfl
  | cons c t ih =>
    rw [List.flatMap_cons, Directive.render, items_literal, List.flatMap_cons]
    exact congrArg (c :: ·) ih

/-! ## Tokens -/

theorem brackets_not_in_tokens : ∀ td ∈ tokens, td.1 ≠ [] ∧ '[' ∉ td.1 ∧ ']' ∉ td.1 := by
  decide

theorem tokens_are_directives : ∀ td ∈ tokens, td.2.head? = some '%' ∧ td.2.tail.head? ≠ some '%' ∧
    (Directive.parse? td.2.tail).map Prod.snd = some td.2.tail.length := by
  decide

theorem whole_of_token {t d : List Char} (h : (t, d) ∈ tokens) : Whole d := by
  obtain ⟨hhead, hne, hparse⟩ := tokens_are_directives (t, d) h
  cases d with
  | nil => cases hhead
  | cons c d =>
    obtain ⟨⟨directive, n⟩, hparse, hn⟩ := Option.map_eq_some_iff.mp hparse
    cases hhead
    cases hn
    exact Directive.whole_directive hparse hne

theorem tokenAt?_spec {t d : List Char} (h : tokenAt? cs = some (t, d)) : (t, d) ∈ tokens ∧ t <+: cs := by
  have hprefix := List.find?_some h
  exact ⟨List.mem_of_find?_eq_some h, List.isPrefixOf_iff_prefix.mp hprefix⟩

/-- Text without a bracket is not found across one. -/
theorem prefix_append_bracket_iff {t : List Char} (h : '[' ∉ t) : t <+: cs ++ '[' :: more ↔ t <+: cs := by
  constructor
  · intro hacross
    rcases List.prefix_or_prefix_of_prefix hacross (List.prefix_append cs _) with hpre | ⟨u, rfl⟩
    · exact hpre
    · -- past the text before the bracket there is nothing
      have hu : u <+: '[' :: more := (List.prefix_append_right_inj cs).mp hacross
      cases u with
      | nil => simp
      | cons c u =>
        obtain ⟨rfl, -⟩ := List.cons_prefix_cons.mp hu
        exact absurd (by simp) h
  · exact fun hpre => hpre.trans (List.prefix_append cs _)

/-- So a token does not reach over a bracket. -/
theorem tokenAt?_append_bracket (cs more : List Char) : tokenAt? (cs ++ '[' :: more) = tokenAt? cs := by
  refine List.find?_congr fun td htd => ?_
  obtain ⟨-, hopen, -⟩ := brackets_not_in_tokens td htd
  rw [Bool.eq_iff_iff, List.isPrefixOf_iff_prefix, List.isPrefixOf_iff_prefix, prefix_append_bracket_iff hopen]

/-! ## Brackets that stay open -/

/-- Some bracket is opened and not closed after it. -/
def LeavesOpen (cs : List Char) : Prop := ∃ before after, cs = before ++ '[' :: after ∧ ']' ∉ after

theorem not_leavesOpen_nil : ¬ LeavesOpen [] := by
  rintro ⟨before, after, h, -⟩
  simp at h

theorem leavesOpen_cons : LeavesOpen (c :: cs) ↔ c = '[' ∧ ']' ∉ cs ∨ LeavesOpen cs := by
  constructor
  · rintro ⟨before, after, h, hafter⟩
    cases before with
    | nil =>
      obtain ⟨rfl, rfl⟩ := List.cons.inj h
      exact .inl ⟨rfl, hafter⟩
    | cons b before => exact .inr ⟨before, after, (List.cons.inj h).2, hafter⟩
  · rintro (⟨rfl, hcs⟩ | ⟨before, after, rfl, hafter⟩)
    · exact ⟨[], cs, rfl, hcs⟩
    · exact ⟨c :: before, after, rfl, hafter⟩

theorem leavesOpen_append {t : List Char} (h : '[' ∉ t) : LeavesOpen (t ++ cs) ↔ LeavesOpen cs := by
  induction t with
  | nil => rfl
  | cons c t ih =>
    simp only [List.mem_cons, not_or] at h
    rw [List.cons_append, leavesOpen_cons, ih h.2]
    simp [Ne.symm h.1]

/-- Past a token the same brackets stay open. -/
theorem leavesOpen_drop {t d : List Char} (h : tokenAt? (c :: cs) = some (t, d)) :
    LeavesOpen (cs.drop (t.length - 1)) ↔ LeavesOpen (c :: cs) := by
  obtain ⟨ht, rest, hrest⟩ := tokenAt?_spec h
  obtain ⟨hne, hopen, -⟩ := brackets_not_in_tokens (t, d) ht
  cases t with
  | nil => exact absurd rfl hne
  | cons x t =>
    obtain ⟨rfl, htail⟩ := List.cons.inj hrest
    have hcs : t ++ rest = cs := htail
    subst hcs
    rw [← List.cons_append, leavesOpen_append hopen]
    simp

/-- What is still to be closed at a place of the scan. -/
def Place.LeavesOpen : Place → List Char → Prop
  | .running skip, cs => Pattern.LeavesOpen (cs.drop skip)
  | .bracket, cs => ']' ∉ cs ∨ Pattern.LeavesOpen cs

/-- The scan fails when a bracket stays open. -/
theorem directivesFrom_eq_none_iff (place : Place) (cs : List Char) :
    directivesFrom place cs = none ↔ place.LeavesOpen cs := by
  fun_induction directivesFrom place cs with
  | case1 skip => simp [Place.LeavesOpen, not_leavesOpen_nil]
  | case2 => simp [Place.LeavesOpen]
  | case3 cs ih => simp [ih, Place.LeavesOpen, leavesOpen_cons]
  | case4 c cs hc ih =>
    rw [Option.map_eq_none_iff, ih]
    simp only [Place.LeavesOpen, leavesOpen_cons, List.mem_cons, Ne.symm hc, false_or]
    tauto
  | case5 skip c cs ih => simpa [Place.LeavesOpen] using ih
  | case6 cs ih => simp [ih, Place.LeavesOpen, leavesOpen_cons]
  | case7 c cs hc t d ht ih => simp [ih, Place.LeavesOpen, leavesOpen_drop ht]
  | case8 c cs hc ht ih => simp [ih, Place.LeavesOpen, leavesOpen_cons, hc]

/-! ## What the scan puts out -/

theorem whole_of_directivesFrom (h : directivesFrom place cs = some ds) : Whole ds := by
  fun_induction directivesFrom place cs generalizing ds with
  | case1 skip =>
    cases h
    exact Directive.whole_nil
  | case2 => cases h
  | case3 cs ih => exact ih h
  | case4 c cs hc ih =>
    obtain ⟨ds, hds, rfl⟩ := Option.map_eq_some_iff.mp h
    exact (whole_literal c).and_then (ih hds)
  | case5 skip c cs ih => exact ih h
  | case6 cs ih => exact ih h
  | case7 c cs hc t d ht ih =>
    obtain ⟨ds, hds, rfl⟩ := Option.map_eq_some_iff.mp h
    exact (whole_of_token (tokenAt?_spec ht).1).and_then (ih hds)
  | case8 c cs hc ht ih =>
    obtain ⟨ds, hds, rfl⟩ := Option.map_eq_some_iff.mp h
    exact (whole_literal c).and_then (ih hds)

/-- Directive text of a pattern holds no invalid item, and so it is taken. -/
theorem directives_eq_ok_iff {pattern text : String} :
    directives pattern = .ok text ↔ directivesFrom (.running 0) pattern.toList = some text.toList := by
  unfold directives
  cases hscan : directivesFrom (.running 0) pattern.toList with
  | none => simp
  | some ds =>
    have hvalid : (Directive.items ds).any (· == .invalid) = false := by
      rw [List.any_eq_false]
      intro item hitem hinvalid
      rw [beq_iff_eq] at hinvalid
      exact (whole_of_directivesFrom hscan).valid (hinvalid ▸ hitem)
    simp only [hvalid, Bool.false_eq_true, if_false, Except.ok.injEq, Option.some.injEq]
    rw [← String.toList_inj, String.toList_ofList]

/-- A pattern has no directive text exactly when some bracket is opened and not closed after
it, which is then the reason; directive text that is put out is never refused. -/
theorem fails_iff_leavesOpen (pattern : String) :
    ((∃ e, directives pattern = .error e) ↔ LeavesOpen pattern.toList) ∧
      (∀ e, directives pattern = .error e → e = .unterminated pattern) ∧
      ∀ ds, directivesFrom (.running 0) pattern.toList = some ds →
        Directive.Item.invalid ∉ Directive.items ds ∧ directives pattern = .ok (String.ofList ds) := by
  have hnone := directivesFrom_eq_none_iff (.running 0) pattern.toList
  cases hscan : directivesFrom (.running 0) pattern.toList with
  | none =>
    have hopen : LeavesOpen pattern.toList := hnone.mp hscan
    have herror : directives pattern = .error (.unterminated pattern) := by rw [directives, hscan]
    refine ⟨⟨fun _ => hopen, fun _ => ⟨_, herror⟩⟩, fun e he => ?_, nofun⟩
    rw [herror] at he
    cases he
    rfl
  | some ds =>
    have hclosed : ¬ LeavesOpen pattern.toList := fun h => by
      rw [hnone.mpr h] at hscan
      cases hscan
    have hok : directives pattern = .ok (String.ofList ds) :=
      directives_eq_ok_iff.mpr (by rw [hscan, String.toList_ofList])
    refine ⟨⟨fun ⟨e, he⟩ => ?_, fun h => absurd h hclosed⟩, fun e he => ?_, fun ds' hds => ?_⟩
    · rw [hok] at he
      cases he
    · rw [hok] at he
      cases he
    · cases hds
      exact ⟨(whole_of_directivesFrom hscan).valid, hok⟩

/-- A bracket after one that is closed stays open; and percent signs before a token, and an
opening bracket in brackets, stay text. -/
theorem second_bracket_stays_open :
    LeavesOpen "[%]MM[[ss".toList ∧ directives "[%]MM[[ss" = .error (.unterminated "[%]MM[[ss") ∧
      directivesFrom (.running 0) "[[%]%YYYYM".toList = some "[%%%%%Y%-m".toList ∧
      Directive.Item.invalid ∉ Directive.items "[%%%%%Y%-m".toList ∧
      directives "[[%]%YYYYM" = .ok (String.ofList "[%%%%%Y%-m".toList) := by
  have hopen : LeavesOpen "[%]MM[[ss".toList := ⟨"[%]MM[".toList, "ss".toList, by decide, by decide⟩
  have hscan : directivesFrom (.running 0) "[[%]%YYYYM".toList = some "[%%%%%Y%-m".toList := by decide
  obtain ⟨hfails, hreason, -⟩ := fails_iff_leavesOpen "[%]MM[[ss"
  obtain ⟨e, he⟩ := hfails.mpr hopen
  obtain ⟨-, -, htaken⟩ := fails_iff_leavesOpen "[[%]%YYYYM"
  exact ⟨hopen, hreason e he ▸ he, hscan, htaken _ hscan⟩

/-! ## Text in brackets -/

/-- A place within what is left of a pattern. -/
def Place.Within : Place → List Char → Prop
  | .running skip, cs => skip ≤ cs.length
  | .bracket, _ => True

/-- Behind a pattern that is taken, a bracket is scanned as at a beginning. -/
theorem directivesFrom_append_bracket (hplace : place.Within cs) (h : directivesFrom place cs = some ds) :
    directivesFrom place (cs ++ '[' :: more) = (directivesFrom (.running 0) ('[' :: more)).map (ds ++ ·) := by
  fun_induction directivesFrom place cs generalizing ds with
  | case1 skip =>
    have hskip : skip = 0 := Nat.le_zero.mp hplace
    cases h
    simp [hskip]
  | case2 => cases h
  | case3 cs ih => exact ih (Nat.zero_le _) h
  | case4 c cs hc ih =>
    obtain ⟨ds, hds, rfl⟩ := Option.map_eq_some_iff.mp h
    rw [List.cons_append, directivesFrom, if_neg hc, ih trivial hds, Option.map_map]
    simp [Function.comp_def]
  | case5 skip c cs ih => exact ih (Nat.le_of_succ_le_succ hplace) h
  | case6 cs ih => exact ih trivial h
  | case7 c cs hc t d ht ih =>
    obtain ⟨ds, hds, rfl⟩ := Option.map_eq_some_iff.mp h
    have hwithin : t.length - 1 ≤ cs.length := by
      have hlen := (tokenAt?_spec ht).2.length_le
      rw [List.length_cons] at hlen
      omega
    have hagain : tokenAt? (c :: (cs ++ '[' :: more)) = some (t, d) := by
      rw [← List.cons_append, tokenAt?_append_bracket, ht]
    rw [List.cons_append, directivesFrom, if_neg hc, hagain]
    simp only [ih hwithin hds, Option.map_map]
    simp [Function.comp_def]
  | case8 c cs hc ht ih =>
    obtain ⟨ds, hds, rfl⟩ := Option.map_eq_some_iff.mp h
    have hagain : tokenAt? (c :: (cs ++ '[' :: more)) = none := by
      rw [← List.cons_append, tokenAt?_append_bracket, ht]
    rw [List.cons_append, directivesFrom, if_neg hc, hagain]
    simp only [ih (Nat.zero_le _) hds, Option.map_map]
    simp [Function.comp_def]

/-- Text in brackets is copied, percent signs doubled, up to the first closing bracket. -/
theorem directivesFrom_bracket_append {t : List Char} (h : ']' ∉ t) :
    directivesFrom .bracket (t ++ ']' :: cs) = (directivesFrom (.running 0) cs).map (doubled t ++ ·) := by
  rw [doubled_eq]
  induction t with
  | nil => simp [directivesFrom]
  | cons c t ih =>
    simp only [List.mem_cons, not_or] at h
    rw [List.cons_append, directivesFrom, if_neg (Ne.symm h.1), ih h.2, Option.map_map]
    simp [Function.comp_def]

/-- Around text in brackets the patterns are taken each for itself, and the text is shown as it
is, tokens, opening brackets and percent signs included. -/
theorem bracketed_text_is_shown_as_it_is {p q t dp dq : String} (hp : directives p = .ok dp)
    (hq : directives q = .ok dq) (ht : ']' ∉ t.toList) :
    directives (p ++ "[" ++ t ++ "]" ++ q) = .ok (dp ++ String.ofList (doubled t.toList) ++ dq) ∧
      ∀ i, format i (p ++ "[" ++ t ++ "]" ++ q) = format i p ++ t ++ format i q := by
  have hscan := directives_eq_ok_iff.mp hp
  have hscan' := directives_eq_ok_iff.mp hq
  have hlist : (p ++ "[" ++ t ++ "]" ++ q).toList = p.toList ++ '[' :: (t.toList ++ ']' :: q.toList) := by
    simp
  have hall : directives (p ++ "[" ++ t ++ "]" ++ q) = .ok (dp ++ String.ofList (doubled t.toList) ++ dq) := by
    rw [directives_eq_ok_iff, hlist, directivesFrom_append_bracket (Nat.zero_le _) hscan, directivesFrom,
      if_pos rfl, directivesFrom_bracket_append ht, hscan']
    simp
  refine ⟨hall, fun i => ?_⟩
  have hwhole := whole_of_directivesFrom hscan
  rw [format, format, format, hall, hp, hq]
  simp only [String.toList_append, String.toList_ofList]
  rw [Directive.render_append (hwhole.and_then (whole_doubled _)), Directive.render_append hwhole, render_doubled]
  simp [String.ofList_append, String.append_assoc]

/-- Tokens, an opening bracket and a percent sign in brackets, between a day and a year. -/
theorem day_and_year_around_text :
    directives "DD%" = .ok "%d%%" ∧ directives "YYYY" = .ok "%Y" ∧ ']' ∉ "MM [%".toList ∧
      directives "DD%[MM [%]YYYY" = .ok "%d%%MM [%%%Y" ∧
      ∀ i, format i "DD%[MM [%]YYYY" = format i "DD%" ++ "MM [%" ++ format i "YYYY" := by
  have hday : directives "DD%" = .ok "%d%%" := by decide
  have hyear : directives "YYYY" = .ok "%Y" := by decide
  have hclosing : ']' ∉ "MM [%".toList := by decide
  have hpattern : "DD%" ++ "[" ++ "MM [%" ++ "]" ++ "YYYY" = "DD%[MM [%]YYYY" := by decide
  have htext : "%d%%" ++ String.ofList (doubled "MM [%".toList) ++ "%Y" = "%d%%MM [%%%Y" := by decide
  obtain ⟨hall, hshown⟩ := bracketed_text_is_shown_as_it_is hday hyear hclosing
  rw [hpattern, htext] at hall
  rw [hpattern] at hshown
  exact ⟨hday, hyear, hclosing, hall, hshown⟩

end Pattern
end RuleTree
