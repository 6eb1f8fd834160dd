/-
  RuleTree.Proofs.Reporting — what fails is reported, and reported once.

  A run only adds problems, so it may as well go on behind those of earlier runs
  (`Run.onto`); parts of a run go on one behind the other (`onto_bind`).
  - `Terse`: when a run ends with nothing, it has recorded exactly one problem.
  - `Clean`: when it ends with a value, it has recorded none.
  - `Fruitful`: it never ends with nothing.

  A schema without functions has no defaults to go on with after a failure, so values are
  clean and terse (`valueStep_clean`, `valueStep_terse`). A rule gives up at its first
  failing value, and a conjunction never gives up, so rules are terse (`ruleStep_terse`).

  Proved of conversions behind any problems, and of imports: `failures_reported_once`.
-/

import RuleTree.Proofs.Cars

namespace RuleTree

namespace Run

variable {α β : Type}

/-! ## Problems behind those recorded before -/

/-- The run recording behind what is recorded already. -/
def onto (before : List Problem) (x : Run α) : Run α := fun n =>
  (x n).map fun d => { d with problems := before ++ d.problems }

/-- The second part of a run records behind the first one. -/
theorem onto_bind (before : List Problem) (x : Run α) (f : α → Run β) (n : Nat) :
    (x.bind f).onto before n =
      (x.onto before n).bind fun d => (f d.value).onto d.problems d.next := by
  unfold onto Run.bind
  cases x n with
  | none => rfl
  | some d =>
    simp only [Option.map_some, Option.bind_some]
    cases f d.value d.next with
    | none => rfl
    | some e => simp [List.append_assoc]

/-- Whatever was recorded before stays, with the problems of the run behind it; there is one
when nothing is given, and no more than one if `once`. -/
def Reports (once : Prop) (x : Run (Option α)) : Prop :=
  ∀ before n d, x.onto before n = some d →
    ∃ new, d.problems = before ++ new ∧ (d.value = none → new ≠ [] ∧ (once → new.length = 1))

/-! ## Runs that never give nothing -/

def Fruitful (x : Run (Option α)) : Prop := ∀ n m ps, x n ≠ some ⟨none, m, ps⟩

theorem fruitful_some (a : α) : (Run.pure (some a)).Fruitful := by
  intro n m ps h
  cases h

theorem fruitful_bind {x : Run α} {f : α → Run (Option β)} (hf : ∀ a, (f a).Fruitful) :
    (x.bind f).Fruitful := by
  intro n m ps h
  obtain ⟨d, ⟨b, k, qs⟩, -, hd', he⟩ := bind_eq_some.mp h
  cases he
  exact hf d.value d.next k qs hd'

/-! ## Runs that give a value without a problem -/

def Clean (x : Run (Option α)) : Prop := ∀ n a m ps, x n = some ⟨some a, m, ps⟩ → ps = []

theorem clean_stuck : (stuck : Run (Option α)).Clean := by
  intro n a m ps h
  cases h

theorem clean_pure (a : Option α) : (Run.pure a).Clean := by
  intro n b m ps h
  cases h
  rfl

theorem clean_ofExcept (r : Except Problem α) : (ofExcept r).Clean := by
  cases r with
  | ok a => exact clean_pure (some a)
  | error p =>
    intro n a m ps h
    cases h

theorem clean_andThen {x : Run (Option α)} {f : α → Run (Option β)} (hx : x.Clean)
    (hf : ∀ a, (f a).Clean) : (x.andThen f).Clean := by
  intro n b m ps h
  obtain ⟨⟨a?, k, qs⟩, d', hd, hd', he⟩ := bind_eq_some.mp h
  cases a? with
  | none =>
    cases hd'
    cases he
  | some a =>
    obtain ⟨b', l, rs⟩ := d'
    cases he
    rw [hx n a k qs hd, hf a k b l rs hd']
    rfl

theorem clean_collect {f : α → Run (Option β)} (hf : ∀ a, (f a).Clean) (as : List α) :
    (collect f as).Clean := by
  induction as with
  | nil => exact clean_pure (some [])
  | cons a rest ih =>
    exact clean_andThen (hf a) fun b => clean_andThen ih fun bs => clean_pure (some (b :: bs))

/-! ## Runs that give nothing for one problem -/

def Terse (x : Run (Option α)) : Prop := ∀ n m ps, x n = some ⟨none, m, ps⟩ → ps.length = 1

theorem terse_of_fruitful {x : Run (Option α)} (hx : x.Fruitful) : x.Terse :=
  fun n m ps h => absurd h (hx n m ps)

theorem terse_stuck : (stuck : Run (Option α)).Terse := by
  intro n m ps h
  cases h

theorem terse_fail (p : Problem) : (fail p : Run (Option α)).Terse := by
  intro n m ps h
  cases h
  rfl

theorem terse_ofExcept (r : Except Problem α) : (ofExcept r).Terse := by
  cases r with
  | ok a => exact terse_of_fruitful (fruitful_some a)
  | error p => exact terse_fail p

/-- What comes after the failure of the first part is not run. -/
theorem terse_andThen_fruitful {x : Run (Option α)} {f : α → Run (Option β)} (hx : x.Terse)
    (hf : ∀ a, (f a).Fruitful) : (x.andThen f).Terse := by
  intro n m ps h
  obtain ⟨⟨a?, k, qs⟩, d', hd, hd', he⟩ := bind_eq_some.mp h
  cases a? with
  | none =>
    cases hd'
    cases he
    simpa using hx n k qs hd
  | some a =>
    obtain ⟨b, l, rs⟩ := d'
    cases he
    exact absurd hd' (hf a k l rs)

/-- When the first part succeeds it leaves nothing in front of the failure of the second. -/
theorem terse_andThen_clean {x : Run (Option α)} {f : α → Run (Option β)} (hx : x.Terse)
    (hclean : x.Clean) (hf : ∀ a, (f a).Terse) : (x.andThen f).Terse := by
  intro n m ps h
  obtain ⟨⟨a?, k, qs⟩, d', hd, hd', he⟩ := bind_eq_some.mp h
  cases a? with
  | none =>
    cases hd'
    cases he
    simpa using hx n k qs hd
  | some a =>
    obtain ⟨b, l, rs⟩ := d'
    cases he
    rw [hclean n a k qs hd]
    exact hf a k l rs hd'

theorem terse_collect {f : α → Run (Option β)} (hf : ∀ a, (f a).Terse) (hclean : ∀ a, (f a).Clean)
    (as : List α) : (collect f as).Terse := by
  induction as with
  | nil => exact terse_of_fruitful (fruitful_some [])
  | cons a rest ih =>
    refine terse_andThen_clean (hf a) (hclean a) fun b => ?_
    exact terse_andThen_fruitful ih fun bs => fruitful_some (b :: bs)

/-- A loud run reports its failures, and once if it is terse. -/
theorem reports_of_loud {once : Prop} {x : Run (Option α)} (hx : x.Loud) (ht : once → x.Terse) :
    x.Reports once := by
  intro before n d h
  obtain ⟨⟨a?, m, ps⟩, hd, rfl⟩ := Option.map_eq_some_iff.mp h
  refine ⟨ps, rfl, fun hnone => ?_⟩
  have hnone : a? = none := hnone
  subst hnone
  exact ⟨hx n m ps hd, fun ho => ht ho n m ps hd⟩

end Run

namespace Converter

variable {c : Converter} {sub : SubRuns}

/-! ## Values without functions -/

/-- Hooks belong to functions of the schema, so without these nothing is a call. -/
theorem call?_eq_none (hf : c.schema.funcs = []) (e : Json) (type : String) : c.call? e type = none := by
  have hdeclared : ∀ sig, c.declaredFunc? sig type = none := by
    intro sig
    unfold declaredFunc?
    rw [List.findSome?_eq_none_iff]
    intro key _
    rw [hf]
    rfl
  have hhooked : c.hookedCall? e type = none := by
    unfold hookedCall?
    rw [hf]
    rfl
  unfold call?
  split
  · rfl
  · rw [hdeclared]
    exact hhooked

/-- The conversions of the parts fail for one problem, and values succeed without any. -/
structure TerseParts (sub : SubRuns) : Prop where
  rule : ∀ e negated parent, (sub.rule e negated parent).Terse
  value : ∀ e t parent, (sub.value e t parent).Terse
  clean : ∀ e t parent, (sub.value e t parent).Clean

theorem valueStep_clean (hf : c.schema.funcs = []) (h : TerseParts sub) (e : Json) (t : Target)
    (parent : Option String) : (c.valueStep sub e t parent).Clean := by
  unfold valueStep
  split
  · exact h.clean _ _ _
  split
  · exact Run.clean_ofExcept _
  rw [call?_eq_none hf]
  exact Run.clean_ofExcept _

theorem valueStep_terse (hf : c.schema.funcs = []) (h : TerseParts sub) (e : Json) (t : Target)
    (parent : Option String) : (c.valueStep sub e t parent).Terse := by
  unfold valueStep
  split
  · exact h.value _ _ _
  split
  · exact Run.terse_ofExcept _
  rw [call?_eq_none hf]
  exact Run.terse_ofExcept _

/-! ## Rules -/

/-- A conjunction is a node however many of its arguments fail. -/
theorem convertConjunction_fruitful (conjunction : String) (args : List Json) (negated : Bool)
    (parent : Option String) : (c.convertConjunction sub conjunction args negated parent).Fruitful := by
  refine Run.fruitful_bind fun children => ?_
  exact Run.fruitful_bind fun n => Run.fruitful_some n

theorem convertHaving_terse (h : TerseParts sub) (having : Json) (path : String) (f : Field) :
    (c.convertHaving sub having path f).Terse := by
  unfold convertHaving
  split
  · refine Run.terse_of_fruitful (Run.fruitful_bind fun children => ?_)
    refine Run.fruitful_bind fun n => ?_
    exact Run.fruitful_bind fun g => Run.fruitful_some g
  · refine Run.terse_andThen_fruitful (h.rule _ _ _) fun n => ?_
    refine Run.fruitful_bind fun g => ?_
    exact Run.fruitful_bind fun g => Run.fruitful_some g

theorem groupBody_terse (h : TerseParts sub) (r : ParsedRule) : (c.groupBody sub r).Terse := by
  unfold groupBody
  split
  · exact convertHaving_terse h _ _ _
  · exact Run.terse_of_fruitful (Run.fruitful_bind fun id => Run.fruitful_some _)

theorem ruleNode_terse (h : TerseParts sub) (r : ParsedRule) (op : String) (negated : Bool)
    (operands : List Operand) : (c.ruleNode sub r op negated operands).Terse := by
  unfold ruleNode
  split
  · exact Run.terse_andThen_fruitful (groupBody_terse h r) fun g => Run.fruitful_some _
  · exact Run.terse_of_fruitful (Run.fruitful_bind fun id => Run.fruitful_some _)

theorem finishRule_terse (h : TerseParts sub) (r : ParsedRule) (negated : Bool) (parent : Option String) :
    (c.finishRule sub r negated parent).Terse := by
  -- values that were converted have left no problem when the having clause fails
  refine Run.terse_andThen_clean (Run.terse_collect (fun a => h.value a _ parent) (fun a => h.clean a _ parent) _)
    (Run.clean_collect (fun a => h.clean a _ parent) _) fun operands => ?_
  refine Run.terse_andThen_fruitful (ruleNode_terse h _ _ _ _) fun n => ?_
  split
  · exact Run.fruitful_bind fun t => Run.fruitful_some _
  · exact Run.fruitful_some n

theorem ruleStep_terse (h : TerseParts sub) (e : Json) (negated : Bool) (parent : Option String) :
    (c.ruleStep sub e negated parent).Terse := by
  unfold ruleStep
  split
  · exact Run.terse_fail _
  split
  · exact h.rule _ _ _
  split
  · exact Run.terse_of_fruitful (convertConjunction_fruitful _ _ _ _)
  · unfold convertOp
    split
    · exact Run.terse_fail _
    · rw [assembleRule_eq]
      exact finishRule_terse h _ _ _

theorem terseParts (hf : c.schema.funcs = []) (limit : Nat) : TerseParts ⟨c.ruleN limit, c.valueN limit⟩ := by
  induction limit with
  | zero => exact ⟨fun _ _ _ => Run.terse_stuck, fun _ _ _ => Run.terse_stuck, fun _ _ _ => Run.clean_stuck⟩
  | succ limit ih => exact ⟨ruleStep_terse ih, valueStep_terse hf ih, valueStep_clean hf ih⟩

/-! ## Imports -/

/-- Only what says nothing has neither a tree nor problems. -/
theorem treeN_says_nothing_iff {limit n : Nat} {e : Json} {d : Done (Option (Tree Nat))}
    (h : c.treeN limit e n = some d) : d.value = none ∧ d.problems = [] ↔ e.isTruthy = false := by
  unfold treeN at h
  by_cases ht : e.isTruthy = true
  · rw [if_pos ht] at h
    have hloud : ((c.ruleN limit e false none).andThen fun n => (c.rootOf n).bind fun t => Run.pure (some t)).Loud := by
      refine Run.loud_andThen (ruleN_loud limit e false none) fun n => ?_
      exact Run.loud_bind fun t => Run.loud_some t
    obtain ⟨value, m, ps⟩ := d
    constructor
    · rintro ⟨rfl, rfl⟩
      exact absurd rfl (hloud n m [] h)
    · intro hfalse
      rw [ht] at hfalse
      cases hfalse
  · rw [if_neg ht] at h
    cases h
    simpa using ht

/-- A conversion leaves what was recorded before as it is and reports when it gives nothing,
once when the schema has no functions; only what says nothing is imported without a tree and
without a report. -/
theorem failures_reported_once (c : Converter) :
    (∀ limit e negated parent, (c.ruleN limit e negated parent).Reports (c.schema.funcs = [])) ∧
      (∀ limit e t parent, (c.valueN limit e t parent).Reports (c.schema.funcs = [])) ∧
      ∀ {ι : Type} (ids : Nat → ι) (start : Nat) (e : Json) (o : Outcome ι),
        c.importTree ids start e = some o → (o.tree = none ∧ o.diagnostics = [] ↔ e.isTruthy = false) := by
  refine ⟨fun limit e negated parent => ?_, fun limit e t parent => ?_, fun ids start e o ho => ?_⟩
  · exact Run.reports_of_loud (ruleN_loud limit e negated parent) fun hf => (terseParts hf limit).rule e negated parent
  · exact Run.reports_of_loud (valueN_loud limit e t parent) fun hf => (terseParts hf limit).value e t parent
  · obtain ⟨d, hd, rfl⟩ := exists_treeN_of_importTree ho
    rw [← treeN_says_nothing_iff hd]
    simp [Outcome.diagnostics]

/-- A clause about a field that cars do not have, behind a problem recorded before; and `false`. -/
theorem failing_clause_reported_once :
    let e := Cars.not (Cars.ofCars "some" (Cars.equals "colour" "red"))
    Cars.converter.schema.funcs = [] ∧
      (∃ d new, (Cars.converter.rule e false none).onto [.noField "engine"] 5 = some d ∧ d.value = none ∧
        d.problems = .noField "engine" :: new ∧ new.length = 1) ∧
      ∃ o, Cars.converter.importTree (fun n => n) 1 (.bool false) = some o ∧ o.tree = none ∧ o.diagnostics = [] := by
  intro e
  obtain ⟨hrule, -, himport⟩ := failures_reported_once Cars.converter
  have hfails :
      ((Cars.converter.rule e false none).onto [.noField "engine"] 5).any (fun d => d.value.isNone) = true := by
    decide +kernel
  obtain ⟨d, hd, hnone⟩ := (Option.any_eq_true _ _).mp hfails
  have hvalue : d.value = none := by simpa using hnone
  obtain ⟨new, hnew, hone⟩ := hrule _ e false none _ 5 d hd
  obtain ⟨o, ho⟩ : ∃ o, Cars.converter.importTree (fun n => n) 1 (.bool false) = some o := ⟨_, rfl⟩
  obtain ⟨htree, hdiags⟩ := (himport _ 1 _ o ho).mpr rfl
  exact ⟨rfl, ⟨d, new, hd, hvalue, hnew, (hone hvalue).2 rfl⟩, o, ho, htree, hdiags⟩

end Converter
end RuleTree
