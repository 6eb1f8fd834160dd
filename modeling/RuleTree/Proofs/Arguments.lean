/-
  RuleTree.Proofs.Arguments — the arguments a call is given, and those it ends up with.

  Arguments are declared in order and given by position, and a conversion that fails is no
  failure of the call as long as there is a default. Nothing in value position draws a
  number, and more nesting changes nothing once a conversion ends (`valueN_echoes`), so that
  it can be said what an expression becomes (`HasValue`), whatever came before it.
  - `convertsTo_iff`: a conversion that ended gives what the expression becomes.
  - `callArgs_spec`: going through the declared arguments, all take a value (`Takes`) up to
    the first one that has neither a value nor a default.
  - `callEnds_of_convertCall`: so a call ends by what its arguments become (`CallEnds`).
  - `convertCall_of_valueN`: a call in an argument ends as it does on its own, with less
    nesting.

  Proved of calls, with all calls that were converted for their arguments:
  `calls_end_by_arguments`.
-/

import RuleTree.Proofs.Renaming
import RuleTree.Proofs.Sources

namespace RuleTree

/-! ## Runs that draw no number -/

namespace Run

variable {α β : Type}

/-- Where the first run ends, the second one does from any number: with the same value, the
same problems and no number drawn. -/
def Echoes (x y : Run α) : Prop := ∀ n d, x n = some d → ∀ m, y m = some ⟨d.value, m, d.problems⟩

theorem echoes_stuck (y : Run α) : stuck.Echoes y := by
  intro n d h
  cases h

theorem echoes_pure (a : α) : (Run.pure a).Echoes (Run.pure a) := by
  intro n d h m
  cases h
  rfl

theorem echoes_fail (p : Problem) : (fail p : Run (Option α)).Echoes (fail p) := by
  intro n d h m
  cases h
  rfl

theorem echoes_ofExcept (r : Except Problem α) : (ofExcept r).Echoes (ofExcept r) := by
  cases r with
  | ok a => exact echoes_pure (some a)
  | error p => exact echoes_fail p

theorem echoes_bind {x y : Run α} {f g : α → Run β} (hx : x.Echoes y) (hf : ∀ a, (f a).Echoes (g a)) :
    (x.bind f).Echoes (y.bind g) := by
  intro n e h m
  obtain ⟨d, d', hd, hd', rfl⟩ := bind_eq_some.mp h
  exact bind_eq_some.mpr ⟨_, _, hx n d hd m, hf d.value d.next d' hd' m, rfl⟩

theorem echoes_andThen {x y : Run (Option α)} {f g : α → Run (Option β)} (hx : x.Echoes y)
    (hf : ∀ a, (f a).Echoes (g a)) : (x.andThen f).Echoes (y.andThen g) := by
  refine echoes_bind hx fun a? => ?_
  cases a? with
  | none => exact echoes_pure none
  | some a => exact hf a

end Run

namespace Converter

variable {c : Converter} {parent : Option String} {sub sub' : SubRuns} {limit n : Nat}

/-- The conversions of the parts in value position draw no number, and go on to end where they
ended. -/
def EchoingValues (sub sub' : SubRuns) : Prop := ∀ e t parent, (sub.value e t parent).Echoes (sub'.value e t parent)

theorem givenArg_echoes (h : EchoingValues sub sub') (a : FuncArg) (given : Option Json) :
    (givenArg sub a parent given).Echoes (givenArg sub' a parent given) := by
  cases given with
  | none => exact Run.echoes_pure none
  | some v => exact h v _ parent

theorem callArgs_echoes (h : EchoingValues sub sub') (func : String) (args : Table FuncArg) (given : List Json) :
    (callArgs sub func parent args given).Echoes (callArgs sub' func parent args given) := by
  induction args generalizing given with
  | nil => exact Run.echoes_pure _
  | cons declared rest ih =>
    refine Run.echoes_bind (givenArg_echoes h _ _) fun converted => ?_
    cases converted.or (declared.2.default.map fun v => .literal v declared.2.type) with
    | none => exact Run.echoes_fail _
    | some o => exact Run.echoes_andThen (ih given.tail) fun os => Run.echoes_pure _

theorem convertCall_echoes (h : EchoingValues sub sub') (call : Call) (parent : Option String) :
    (convertCall sub call parent).Echoes (convertCall sub' call parent) := by
  unfold convertCall
  split
  · exact Run.echoes_fail _
  · exact Run.echoes_andThen (callArgs_echoes h _ _ _) fun os => Run.echoes_pure _

theorem valueStep_echoes (h : EchoingValues sub sub') (e : Json) (t : Target) (parent : Option String) :
    (c.valueStep sub e t parent).Echoes (c.valueStep sub' e t parent) := by
  unfold valueStep
  split
  · exact h _ _ _
  split
  · exact Run.echoes_ofExcept _
  split
  · exact convertCall_echoes h _ _
  · exact Run.echoes_ofExcept _

/-- In value position a conversion that ends draws no number, and ends alike from any number
and with any more nesting. -/
theorem valueN_echoes (c : Converter) (limit more : Nat) :
    EchoingValues ⟨c.ruleN limit, c.valueN limit⟩ ⟨c.ruleN (limit + more), c.valueN (limit + more)⟩ := by
  induction limit with
  | zero => exact fun _ _ _ => Run.echoes_stuck _
  | succ limit ih =>
    rw [Nat.succ_add]
    exact fun e t parent => valueStep_echoes ih e t parent

/-! ## What a value becomes -/

/-- In value position the expression becomes the operand. -/
def HasValue (c : Converter) (parent : Option String) (e : Json) (t : Target) (o : Operand) : Prop :=
  ∃ limit, (c.valueN limit e t parent).Yields o

theorem hasValue_iff {e : Json} {t : Target} {d : Done (Option Operand)} {o : Operand}
    (h : c.valueN limit e t parent n = some d) : c.HasValue parent e t o ↔ d.value = some o := by
  constructor
  · intro ho
    obtain ⟨limit', n', d', hd', hvalue⟩ := ho
    -- both conversions end alike when there is room for both
    have hboth := valueN_echoes c limit limit' e t parent n d h 0
    have hboth' := valueN_echoes c limit' limit e t parent n' d' hd' 0
    rw [Nat.add_comm] at hboth'
    have hsame := congrArg Done.value (Option.some.inj (hboth.symm.trans hboth'))
    exact hsame.trans hvalue
  · intro ho
    exact ⟨limit, n, d, h, ho⟩

/-- An expression is given for an argument, and becomes the operand. -/
def ConvertsTo (c : Converter) (parent : Option String) (a : FuncArg) (given : Option Json) (o : Operand) : Prop :=
  ∃ v ∈ given, c.HasValue parent v (.ofArg a) o

/-- An argument has a value of its own or a default. -/
def Covered (c : Converter) (parent : Option String) (a : FuncArg) (given : Option Json) : Prop :=
  (∃ o, c.ConvertsTo parent a given o) ∨ a.default.isSome = true

/-- The operand of an argument: what is given for it, if that becomes an operand, else the
default with the argument's type. -/
def Takes (c : Converter) (parent : Option String) (a : FuncArg) (given : Option Json) (o : Operand) : Prop :=
  c.ConvertsTo parent a given o ∨
    (¬ ∃ o', c.ConvertsTo parent a given o') ∧ ∃ v ∈ a.default, o = .literal v a.type

section Argument

variable {a : FuncArg} {given : Option Json} {d : Done (Option Operand)}

theorem convertsTo_iff (h : givenArg ⟨c.ruleN limit, c.valueN limit⟩ a parent given n = some d) (o : Operand) :
    c.ConvertsTo parent a given o ↔ d.value = some o := by
  unfold ConvertsTo
  cases given with
  | none =>
    cases h
    simp
  | some v =>
    have hv : c.valueN limit v (.ofArg a) parent n = some d := h
    simp only [Option.mem_some_iff, exists_eq_left', hasValue_iff hv]

/-- What is taken for an argument is its value or else its default. -/
theorem takes_of_or (h : givenArg ⟨c.ruleN limit, c.valueN limit⟩ a parent given n = some d) {o : Operand}
    (ho : d.value.or (a.default.map fun v => .literal v a.type) = some o) :
    c.Takes parent a given o ∧ c.Covered parent a given := by
  unfold Takes Covered
  simp only [convertsTo_iff h]
  cases hvalue : d.value with
  | some o' =>
    rw [hvalue] at ho
    exact ⟨.inl ho, .inl ⟨o', rfl⟩⟩
  | none =>
    rw [hvalue, Option.none_or] at ho
    obtain ⟨v, hv, rfl⟩ := Option.map_eq_some_iff.mp ho
    exact ⟨.inr ⟨by simp, v, hv, rfl⟩, .inr (by rw [hv]; rfl)⟩

theorem not_covered_of_or (h : givenArg ⟨c.ruleN limit, c.valueN limit⟩ a parent given n = some d)
    (ho : d.value.or (a.default.map fun v => Operand.literal v a.type) = none) : ¬ c.Covered parent a given := by
  unfold Covered
  simp only [convertsTo_iff h]
  obtain ⟨hvalue, hdefault⟩ := Option.or_eq_none_iff.mp ho
  simp [hvalue, Option.map_eq_none_iff.mp hdefault]

end Argument

/-! ## The arguments of a call -/

section Arguments

variable {func key : String} {a : FuncArg} {args : Table FuncArg} {given : List Json} {os : Table Operand}
  {o : Operand}

/-- All declared arguments have a value or a default. -/
def AllCovered (c : Converter) (parent : Option String) (args : Table FuncArg) (given : List Json) : Prop :=
  ∀ (i : Nat) key a, args[i]? = some (key, a) → c.Covered parent a given[i]?

/-- The operands are those of the declared arguments, each under its name and in its place. -/
structure TakesAll (c : Converter) (parent : Option String) (args : Table FuncArg) (given : List Json)
    (os : Table Operand) : Prop where
  names : os.keys = args.keys
  takes : ∀ (i : Nat) key a, args[i]? = some (key, a) → ∃ o, os[i]? = some (key, o) ∧ c.Takes parent a given[i]? o

/-- The first declared argument that has neither a value nor a default. -/
def FirstMissing (c : Converter) (parent : Option String) (args : Table FuncArg) (given : List Json)
    (key : String) : Prop :=
  ∃ (i : Nat) (a : FuncArg), args[i]? = some (key, a) ∧ ¬ c.Covered parent a given[i]? ∧
    ∀ j < i, ∀ key' b, args[j]? = some (key', b) → c.Covered parent b given[j]?

theorem getElem?_tail (given : List Json) (i : Nat) : given.tail[i]? = given[i + 1]? := by
  cases given <;> simp

theorem allCovered_cons (ha : c.Covered parent a given.head?) (h : c.AllCovered parent args given.tail) :
    c.AllCovered parent ((key, a) :: args) given := by
  intro i key' b hb
  cases i with
  | zero =>
    cases hb
    rwa [← List.head?_eq_getElem?]
  | succ i =>
    have hrest := h i key' b hb
    rwa [getElem?_tail] at hrest

theorem takesAll_cons (ha : c.Takes parent a given.head? o) (h : c.TakesAll parent args given.tail os) :
    c.TakesAll parent ((key, a) :: args) given ((key, o) :: os) := by
  refine ⟨congrArg (key :: ·) h.names, fun i key' b hb => ?_⟩
  cases i with
  | zero =>
    cases hb
    exact ⟨o, rfl, by rwa [← List.head?_eq_getElem?]⟩
  | succ i =>
    obtain ⟨o', ho', htakes⟩ := h.takes i key' b hb
    rw [getElem?_tail] at htakes
    exact ⟨o', ho', htakes⟩

theorem firstMissing_cons {missing : String} (ha : c.Covered parent a given.head?)
    (h : c.FirstMissing parent args given.tail missing) : c.FirstMissing parent ((key, a) :: args) given missing := by
  obtain ⟨i, b, hb, hnot, hbefore⟩ := h
  rw [getElem?_tail] at hnot
  refine ⟨i + 1, b, hb, hnot, fun j hj key' b' hb' => ?_⟩
  cases j with
  | zero =>
    cases hb'
    rwa [← List.head?_eq_getElem?]
  | succ j =>
    have hrest := hbefore j (by omega) key' b' hb'
    rwa [getElem?_tail] at hrest

/-- With some argument missing not all are covered. -/
theorem not_allCovered (h : c.FirstMissing parent args given key) : ¬ c.AllCovered parent args given := by
  intro hall
  obtain ⟨i, a, ha, hnot, -⟩ := h
  exact hnot (hall i key a ha)

/-- The declared arguments all take an operand, or the first one that is missing is reported
last. -/
theorem callArgs_spec {d : Done (Option (Table Operand))}
    (h : callArgs ⟨c.ruleN limit, c.valueN limit⟩ func parent args given n = some d) :
    (∃ os, d.value = some os ∧ c.TakesAll parent args given os ∧ c.AllCovered parent args given) ∨
      d.value = none ∧ ∃ key, c.FirstMissing parent args given key ∧
        d.problems.getLast? = some (.missingArg key func) := by
  induction args generalizing given n d with
  | nil =>
    cases h
    exact .inl ⟨[], rfl, ⟨rfl, by simp⟩, fun i key a ha => by simp at ha⟩
  | cons declared rest ih =>
    obtain ⟨key, a⟩ := declared
    obtain ⟨d₁, d₂, hd₁, hd₂, rfl⟩ := Run.bind_eq_some.mp h
    cases hor : d₁.value.or (a.default.map fun v => .literal v a.type) with
    | none =>
      simp only [hor] at hd₂
      cases hd₂
      refine .inr ⟨rfl, key, ⟨0, a, rfl, ?_, fun j hj => absurd hj (Nat.not_lt_zero j)⟩, by simp⟩
      rw [← List.head?_eq_getElem?]
      exact not_covered_of_or hd₁ hor
    | some o =>
      simp only [hor] at hd₂
      obtain ⟨htakes, hcovered⟩ := takes_of_or hd₁ hor
      obtain ⟨d₃, d₄, hd₃, hd₄, rfl⟩ := Run.bind_eq_some.mp hd₂
      rcases ih hd₃ with ⟨os, hos, hrest, hall⟩ | ⟨hnone, missing, hmissing, hlast⟩
      · rw [hos] at hd₄
        cases hd₄
        exact .inl ⟨_, rfl, takesAll_cons htakes hrest, allCovered_cons hcovered hall⟩
      · rw [hnone] at hd₄
        cases hd₄
        refine .inr ⟨rfl, missing, firstMissing_cons hcovered hmissing, ?_⟩
        simp [List.getLast?_append, hlast]

end Arguments

/-! ## Calls -/

/-- What a call ends with, as its arguments say. -/
structure CallEnds (c : Converter) (parent : Option String) (call : Call) (d : Done (Option Operand)) : Prop where
  succeeds : d.value.isSome = true ↔
    call.args.length ≤ call.func.args.length ∧ c.AllCovered parent call.func.args call.args
  operand : ∀ o, d.value = some o → ∃ os, o = .call call.key os call.func.returnType ∧
    c.TakesAll parent call.func.args call.args os
  /-- The last problem is about the function, and about what it was given too much of or
  what it misses. -/
  problem : d.value = none →
    call.func.args.length < call.args.length ∧ d.problems.getLast? = some (.tooManyArgs call.key) ∨
      ∃ key, c.FirstMissing parent call.func.args call.args key ∧
        d.problems.getLast? = some (.missingArg key call.key)

theorem callEnds_of_convertCall {call : Call} {d : Done (Option Operand)}
    (h : convertCall ⟨c.ruleN limit, c.valueN limit⟩ call parent n = some d) : c.CallEnds parent call d := by
  unfold convertCall at h
  by_cases hlen : call.func.args.length < call.args.length
  · rw [if_pos hlen] at h
    cases h
    refine ⟨?_, nofun, fun _ => .inl ⟨hlen, rfl⟩⟩
    constructor
    · intro hsome
      cases hsome
    · intro hall
      omega
  · rw [if_neg hlen] at h
    obtain ⟨d₁, d₂, hd₁, hd₂, rfl⟩ := Run.bind_eq_some.mp h
    rcases callArgs_spec hd₁ with ⟨os, hos, htakes, hall⟩ | ⟨hnone, key, hmissing, hlast⟩
    · rw [hos] at hd₂
      cases hd₂
      refine ⟨⟨fun _ => ⟨by omega, hall⟩, fun _ => rfl⟩, fun o ho => ?_, nofun⟩
      cases ho
      exact ⟨os, rfl, htakes⟩
    · rw [hnone] at hd₂
      cases hd₂
      refine ⟨⟨nofun, fun h => absurd h.2 (not_allCovered hmissing)⟩, nofun, fun _ => .inr ⟨key, hmissing, ?_⟩⟩
      simpa using hlast

/-! ## Calls in arguments -/

/-- The call that an expression in value position is, under its negations. -/
def calledBy? (c : Converter) (parent : Option String) (e : Json) (t : Target) : Option Call :=
  match c.fieldValue? (c.underNegations e) parent with
  | some _ => none
  | none => c.call? (c.underNegations e) t.type

/-- A call in value position is converted with less nesting. -/
theorem convertCall_of_valueN {e : Json} {t : Target} {call : Call} {d : Done (Option Operand)}
    (hcall : c.calledBy? parent e t = some call) (h : c.valueN limit e t parent n = some d) :
    ∃ k < limit, convertCall ⟨c.ruleN k, c.valueN k⟩ call parent n = some d := by
  obtain ⟨k, hk, hunder⟩ := valueN_underNegations h
  refine ⟨k, hk, ?_⟩
  have hfield : c.fieldValue? (c.underNegations e) parent = none := by
    cases hf : c.fieldValue? (c.underNegations e) parent with
    | none => rfl
    | some field => simp [calledBy?, hf] at hcall
  have hinner : c.call? (c.underNegations e) t.type = some call := by simpa [calledBy?, hfield] using hcall
  simpa only [valueN, valueStep, c.negated_underNegations e, hfield, hinner] using hunder

/-- A call ends as its arguments say, and so do all calls that were converted for them, to
any depth. -/
def CallsEnd (c : Converter) (parent : Option String) : Nat → Call → Done (Option Operand) → Prop
  | 0, call, d => c.CallEnds parent call d
  | limit + 1, call, d => c.CallEnds parent call d ∧
      ∀ (i : Nat) v key a inner n d', call.args[i]? = some v → call.func.args[i]? = some (key, a) →
        c.calledBy? parent v (.ofArg a) = some inner → c.valueN (limit + 1) v (.ofArg a) parent n = some d' →
          CallsEnd c parent limit inner d'

/-- The conversion of a call that ends succeeds when no more is given than declared and every
declared argument has a value or a default; it makes an operand of these, or says what there
is too much or too little of. So do the conversions of the calls in its arguments. -/
theorem calls_end_by_arguments (c : Converter) (parent : Option String) (limit : Nat) (call : Call) (n : Nat)
    {d : Done (Option Operand)} (h : convertCall ⟨c.ruleN limit, c.valueN limit⟩ call parent n = some d) :
    c.CallsEnd parent limit call d := by
  induction limit generalizing call n d with
  | zero => exact callEnds_of_convertCall h
  | succ limit ih =>
    refine ⟨callEnds_of_convertCall h, fun i v key a inner m d' _ _ hinner hd' => ?_⟩
    obtain ⟨k, hk, hcall⟩ := convertCall_of_valueN hinner hd'
    -- there is room for the same conversion in all that is left
    have hmore := convertCall_echoes (valueN_echoes c k (limit - k)) inner parent m d' hcall
    rw [show k + (limit - k) = limit by omega] at hmore
    have hself := convertCall_echoes (valueN_echoes c k 0) inner parent m d' hcall m
    have hnext : d' = ⟨d'.value, m, d'.problems⟩ := Option.some.inj (hcall.symm.trans hself)
    rw [hnext]
    exact ih inner m (hmore m)

/-- A text joined to a joined one, with the default for what is not given: both calls end so. -/
theorem joined_calls_end :
    let e := Cars.call "join" [Cars.call "join" [.str "red"]]
    ∃ call d, joining.call? e "text" = some call ∧
      convertCall ⟨joining.ruleN 3, joining.valueN 3⟩ call none 0 = some d ∧ d.value.isSome = true ∧
      joining.CallsEnd none 3 call d := by
  intro e
  have hends : (joining.call? e "text").any (fun call =>
      (convertCall ⟨joining.ruleN 3, joining.valueN 3⟩ call none 0).any fun d => d.value.isSome) = true := by
    decide +kernel
  obtain ⟨call, hcall, hends⟩ := (Option.any_eq_true _ _).mp hends
  obtain ⟨d, hd, hsome⟩ := (Option.any_eq_true _ _).mp hends
  exact ⟨call, d, hcall, hd, hsome, calls_end_by_arguments joining none 3 call 0 hd⟩

end Converter
end RuleTree
