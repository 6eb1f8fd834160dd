/-
  RuleTree.Proofs.Ending — conversions end, unless hooks keep them going.

  A conversion is nested steps, and a run with too little nesting is stuck. It settles when
  from some nesting on no run is stuck and all end with the same. A request is one such
  conversion, in rule or in value position, and asks for others (`asked`).
  - `step_settles`: a request settles when those it asks for do.
  - `inside_or_answers_of_mem_asked`: what is asked for stands inside of the expression
    that asks, or a hook has answered that expression with it. Only the second can go on
    for ever.
  - `import_settles_or_hooks_go_on`: an import settles, or it starts an endless sequence of
    requests, each asking for the next, none of which ever ends, and over and over a hook
    answers one of the expressions with one that is no smaller.
  - `importTree_isSome`: with hooks that only answer with something smaller, or no hooks at
    all, the nesting an import allows is enough.
  - `import_stuck_with_echo`: a hook that answers every expression with the same call of its
    own function leaves an import stuck however much nesting is allowed.
-/

import Mathlib
import RuleTree.Convert.Collaborators
import RuleTree.Proofs.Cars
import RuleTree.Proofs.Parts

namespace RuleTree

open Filter

namespace Run

variable {α β : Type} {l l' : Filter Nat}

/-! ## Runs that settle -/

/-- From any number, almost all of the runs end, and with the same. -/
def Settles (l : Filter Nat) (x : Nat → Run α) : Prop := ∀ n, ∃ d, ∀ᶠ k in l, x k n = some d

/-- Runs that settle do so one step later too. -/
theorem settles_of_succ {x : Nat → Run α} (h : l' ≤ l.map Nat.succ) (hx : Settles l fun k => x (k + 1)) :
    Settles l' x := by
  intro n
  obtain ⟨d, hd⟩ := hx n
  exact ⟨d, h (eventually_map.mpr hd)⟩

theorem settles_const {x : Run α} (h : ∀ n, ∃ d, x n = some d) : Settles l fun _ => x := by
  intro n
  obtain ⟨d, hd⟩ := h n
  exact ⟨d, .of_forall fun _ => hd⟩

theorem settles_pure (a : α) : Settles l fun _ => Run.pure a := settles_const fun _ => ⟨_, rfl⟩

theorem settles_drawing (f : Nat → α × Nat) : Settles l fun _ => drawing f := settles_const fun _ => ⟨_, rfl⟩

theorem settles_fail (p : Problem) : Settles l fun _ => (fail p : Run (Option α)) :=
  settles_const fun _ => ⟨_, rfl⟩

theorem settles_ofExcept (r : Except Problem α) : Settles l fun _ => ofExcept r := by
  cases r with
  | ok a => exact settles_pure (some a)
  | error p => exact settles_fail p

theorem settles_bind {x : Nat → Run α} {f : Nat → α → Run β} (hx : Settles l x)
    (hf : ∀ a, Settles l fun k => f k a) : Settles l fun k => (x k).bind (f k) := by
  intro n
  obtain ⟨d, hd⟩ := hx n
  obtain ⟨d', hd'⟩ := hf d.value d.next
  refine ⟨⟨d'.value, d'.next, d.problems ++ d'.problems⟩, ?_⟩
  filter_upwards [hd, hd'] with k hk hk'
  exact bind_eq_some.mpr ⟨d, d', hk, hk', rfl⟩

theorem settles_andThen {x : Nat → Run (Option α)} {f : Nat → α → Run (Option β)} (hx : Settles l x)
    (hf : ∀ a, Settles l fun k => f k a) : Settles l fun k => (x k).andThen (f k) := by
  refine settles_bind hx fun a? => ?_
  cases a? with
  | none => exact settles_pure none
  | some a => exact hf a

theorem settles_filterMap {f : Nat → α → Run (Option β)} {as : List α}
    (h : ∀ a ∈ as, Settles l fun k => f k a) : Settles l fun k => filterMap (f k) as := by
  induction as with
  | nil => exact settles_pure []
  | cons a rest ih =>
    refine settles_bind (h a (by simp)) fun b? => ?_
    exact settles_bind (ih fun x hx => h x (by simp [hx])) fun bs => settles_pure _

theorem settles_collect {f : Nat → α → Run (Option β)} {as : List α}
    (h : ∀ a ∈ as, Settles l fun k => f k a) : Settles l fun k => collect (f k) as := by
  induction as with
  | nil => exact settles_pure (some [])
  | cons a rest ih =>
    refine settles_andThen (h a (by simp)) fun b => ?_
    exact settles_andThen (ih fun x hx => h x (by simp [hx])) fun bs => settles_pure _

/-! ## Runs stuck at their start -/

theorem bind_eq_none {x : Run α} {f : α → Run β} {n : Nat} (h : x n = none) : x.bind f n = none := by
  simp only [Run.bind, h]

theorem andThen_eq_none {x : Run (Option α)} {f : α → Run (Option β)} {n : Nat} (h : x n = none) :
    x.andThen f n = none := bind_eq_none h

end Run

/-! ## Hooks -/

/-- A hook that answers with values smaller than what it is given. -/
def Hook.Shrinks (hook : Hook) : Prop := ∀ e args, hook e = some args → ∀ a ∈ args, a.size < e.size

theorem Hook.never_shrinks : Hook.never.Shrinks := nofun

theorem Hook.ofKey_shrinks (key : String) : (Hook.ofKey key).Shrinks := by
  intro e args h a ha
  unfold ofKey at h
  split at h
  · rename_i items hitems
    cases h
    cases e with
    | obj entries =>
      have hentry := Json.size_le_sizeEntries (Table.mem_of_get? hitems)
      have hitem := Json.size_le_sizeItems ha
      simp only [Json.size] at hentry ⊢
      omega
    | _ => cases hitems
  · cases h

namespace Converter

variable {c : Converter} {e a : Json} {op : Operation} {parent : Option String}

/-- One of the hooks answers an expression with values among which is this one. -/
def Answers (c : Converter) (e a : Json) : Prop :=
  ∃ key hook args, c.hooks.get? key = some hook ∧ hook e = some args ∧ a ∈ args

def HooksShrink (c : Converter) : Prop := ∀ key hook, c.hooks.get? key = some hook → hook.Shrinks

theorem hooksShrink_of_nil (h : c.hooks = []) : c.HooksShrink := by
  intro key hook hget
  rw [h] at hget
  cases hget

theorem HooksShrink.size_lt (h : c.HooksShrink) (ha : c.Answers e a) : a.size < e.size := by
  obtain ⟨key, hook, args, hget, hargs, ha⟩ := ha
  exact h key hook hget e args hargs a ha

/-! ## Requests -/

/-- A conversion of an expression, in rule position or in value position. -/
inductive Request where
  | rule (e : Json) (negated : Bool) (parent : Option String)
  | value (e : Json) (t : Target) (parent : Option String)

def Request.expr : Request → Json
  | rule e _ _ => e
  | value e _ _ => e

/-- What the having clause of a rule on a collection asks for. -/
def askedByHaving (c : Converter) (having : Json) (path : String) : List Request :=
  match having.operation?.bind fun op => (c.index.conjunction? op.name).map fun k => (k, op.args) with
  | some (_, args) => args.map fun a => .rule a false (some path)
  | none => [.rule having false (some path)]

/-- What a rule asks for: its values and, on a collection, its having clause. -/
def askedByRule (c : Converter) (r : ParsedRule) (negated : Bool) (parent : Option String) : List Request :=
  let settled := c.settleNegation r.field r.op negated
  let target := Target.ofField r.field (c.widgetFor r.path settled.1)
  r.args.map (fun a => .value a target parent) ++
    match r.field.isGroup, r.having with
    | true, some having => c.askedByHaving having r.path
    | _, _ => []

/-- What a step in rule position asks for: what a negation negates, the arguments of a
conjunction, or the parts of a rule. -/
def askedInRule (c : Converter) (e : Json) (negated : Bool) (parent : Option String) : List Request :=
  match e.operation? with
  | none => []
  | some op =>
    match c.negated? op with
    | some inner => [.rule inner (!negated) parent]
    | none =>
      match c.index.conjunction? op.name with
      | some _ => op.args.map fun a => .rule a false parent
      | none =>
        match c.parseRule e (.ofOperation op) parent with
        | .error _ => []
        | .ok r => c.askedByRule (foldHaving r negated).1 (foldHaving r negated).2 parent

/-- What a step in value position asks for: what a negation negates, or the arguments given
for those that a function declares. -/
def askedInValue (c : Converter) (e : Json) (t : Target) (parent : Option String) : List Request :=
  match e.operation?.bind c.negated? with
  | some inner => [.value inner t parent]
  | none =>
    match c.fieldValue? e parent with
    | some _ => []
    | none =>
      match c.call? e t.type with
      | some call => (call.args.zip call.func.args).map fun (v, _, a) => .value v (.ofArg a) parent
      | none => []

/-- What one step of a request asks for. -/
def asked (c : Converter) : Request → List Request
  | .rule e negated parent => c.askedInRule e negated parent
  | .value e t parent => c.askedInValue e t parent

variable {q q' : Request}

/-! ## What is asked for -/

theorem mem_args_of_negated? {x : Json} (h : c.negated? op = some x) : x ∈ op.args := by
  unfold negated? at h
  split at h
  · exact List.mem_of_mem_head? h
  · cases h

theorem inside_of_negated? {x : Json} (h : e.operation?.bind c.negated? = some x) : x.Inside e := by
  obtain ⟨op, he, hneg⟩ := Option.bind_eq_some_iff.mp h
  exact Json.inside_of_mem_args he (mem_args_of_negated? hneg)

theorem mem_args_of_callSignature? {sig : FuncSignature} {args : List Json}
    (h : callSignature? op = some (sig, args)) (ha : a ∈ args) : a ∈ op.args := by
  unfold callSignature? at h
  split at h
  · split at h
    · rename_i obj name opts hargs
      cases h
      rw [hargs]
      rcases List.mem_cons.mp ha with rfl | ha
      · simp
      · simp [ha]
    · cases h
  · cases h
    exact ha

theorem inside_or_answers_of_call? {type : String} {call : Call} (h : c.call? e type = some call)
    (ha : a ∈ call.args) : a.Inside e ∨ c.Answers e a := by
  unfold call? at h
  split at h
  · cases h
  rename_i sig args hsig
  obtain ⟨op, he, hsig⟩ := Option.bind_eq_some_iff.mp hsig
  split at h
  · cases h
    exact .inl (Json.inside_of_mem_args he (mem_args_of_callSignature? hsig ha))
  · obtain ⟨⟨key, f⟩, -, h⟩ := List.exists_of_findSome?_eq_some h
    simp only at h
    split at h
    · rename_i hook hget
      split at h
      · obtain ⟨given, hgiven, rfl⟩ := Option.map_eq_some_iff.mp h
        exact .inr ⟨key, hook, given, hget, hgiven, ha⟩
      · cases h
    · cases h

theorem inside_of_parseRule {r : ParsedRule} (he : e.operation? = some op)
    (h : c.parseRule e (.ofOperation op) parent = .ok r) :
    (∀ a ∈ r.args, a.Inside e) ∧ ∀ having ∈ r.having, having.Inside e := by
  obtain ⟨reversed, hfound⟩ := foundRule?_of_parseRule h
  refine ⟨?_, fun having hhaving => ?_⟩
  · have htry : c.tryParse (.ofOperation op) parent reversed = .ok r := by
      unfold foundRule? at hfound
      split at hfound <;> cases hfound <;> assumption
    obtain ⟨_, _, operand, field, key, -, -, -, -, -, -, rfl⟩ := tryParse_eq_ok.mp htry
    intro a ha
    simp only [found] at ha
    split at ha
    · cases ha
    · exact inside_of_mem_values he (mem_values_of_layout (.inr ha))
  · rw [having_of_foundRule? hfound] at hhaving
    exact inside_of_mem_clauses he (List.mem_of_mem_head? hhaving)

theorem inside_of_foldHaving {r : ParsedRule} {negated : Bool} (hr : ∀ having ∈ r.having, having.Inside e) :
    ∀ having ∈ (foldHaving r negated).1.having, having.Inside e := by
  intro inner hinner
  unfold foldHaving at hinner
  split at hinner
  · rename_i args _ hop
    obtain ⟨having, hhaving, hop⟩ := Option.bind_eq_some_iff.mp hop
    have hin : inner.Inside having := Json.inside_of_mem_args hop (List.mem_of_mem_head? hinner)
    exact hin.trans (hr having hhaving)
  · exact hr inner hinner

theorem inside_of_mem_askedByRule {r : ParsedRule} {negated : Bool} (hargs : ∀ a ∈ r.args, a.Inside e)
    (hhaving : ∀ having ∈ r.having, having.Inside e) (h : q ∈ c.askedByRule r negated parent) :
    q.expr.Inside e := by
  rcases List.mem_append.mp h with h | h
  · obtain ⟨a, ha, rfl⟩ := List.mem_map.mp h
    exact hargs a ha
  · split at h
    · rename_i having _ hr
      have hin := hhaving having hr
      unfold askedByHaving at h
      split at h
      · rename_i hk
        obtain ⟨op, ho, -, rfl⟩ := exists_conjunction_of_having hk
        obtain ⟨a, ha, rfl⟩ := List.mem_map.mp h
        exact (Json.inside_of_mem_args ho ha).trans hin
      · rw [List.mem_singleton.mp h]
        exact hin
    · cases h

theorem inside_of_mem_askedInRule {negated : Bool} (h : q ∈ c.askedInRule e negated parent) : q.expr.Inside e := by
  unfold askedInRule at h
  split at h
  · cases h
  rename_i op he
  split at h
  · rename_i inner hneg
    rw [List.mem_singleton.mp h]
    exact Json.inside_of_mem_args he (mem_args_of_negated? hneg)
  split at h
  · obtain ⟨a, ha, rfl⟩ := List.mem_map.mp h
    exact Json.inside_of_mem_args he ha
  split at h
  · cases h
  · rename_i r hr
    obtain ⟨hargs, hhaving⟩ := inside_of_parseRule he hr
    refine inside_of_mem_askedByRule ?_ (inside_of_foldHaving hhaving) h
    rw [foldHaving_eq]
    exact hargs

theorem inside_or_answers_of_mem_askedInValue {t : Target} (h : q ∈ c.askedInValue e t parent) :
    q.expr.Inside e ∨ c.Answers e q.expr := by
  unfold askedInValue at h
  split at h
  · rename_i inner hneg
    rw [List.mem_singleton.mp h]
    exact .inl (inside_of_negated? hneg)
  split at h
  · cases h
  split at h
  · rename_i call hcall
    obtain ⟨⟨v, key, declared⟩, hv, rfl⟩ := List.mem_map.mp h
    exact inside_or_answers_of_call? hcall (List.of_mem_zip hv).1
  · cases h

/-- What is asked for stands inside of the expression that asks, or a hook has answered this
with it. -/
theorem inside_or_answers_of_mem_asked (h : q' ∈ c.asked q) : q'.expr.Inside q.expr ∨ c.Answers q.expr q'.expr := by
  cases q with
  | rule e negated parent => exact .inl (inside_of_mem_askedInRule h)
  | value e t parent => exact inside_or_answers_of_mem_askedInValue h

theorem size_lt_of_mem_asked (hc : c.HooksShrink) (h : q' ∈ c.asked q) : q'.expr.size < q.expr.size := by
  rcases inside_or_answers_of_mem_asked h with h | h
  · exact h.size_lt
  · exact hc.size_lt h

/-! ## One step -/

/-- The conversions a request is for settle. -/
def Request.Settles (l : Filter Nat) (subs : Nat → SubRuns) : Request → Prop
  | .rule e negated parent => Run.Settles l fun k => (subs k).rule e negated parent
  | .value e t parent => Run.Settles l fun k => (subs k).value e t parent

section Steps

variable {l : Filter Nat} {subs : Nat → SubRuns}

theorem callArgs_settles (func : String) {args : Table FuncArg} {given : List Json}
    (h : ∀ v key a, (v, key, a) ∈ given.zip args → Run.Settles l fun k => (subs k).value v (.ofArg a) parent) :
    Run.Settles l fun k => callArgs (subs k) func parent args given := by
  induction args generalizing given with
  | nil => exact Run.settles_pure (some [])
  | cons declared rest ih =>
    refine Run.settles_bind ?_ fun converted => ?_
    · cases given with
      | nil => exact Run.settles_pure none
      | cons v given => exact h v declared.1 declared.2 (by simp)
    · cases converted.or (declared.2.default.map fun v => .literal v declared.2.type) with
      | none => exact Run.settles_fail _
      | some o =>
        refine Run.settles_andThen (ih fun v key a hv => ?_) fun os => Run.settles_pure _
        cases given with
        | nil => cases hv
        | cons first given => exact h v key a (List.mem_cons_of_mem _ hv)

theorem valueStep_settles {t : Target} (h : ∀ q' ∈ c.askedInValue e t parent, q'.Settles l subs) :
    Run.Settles l fun k => c.valueStep (subs k) e t parent := by
  unfold askedInValue at h
  cases hneg : e.operation?.bind c.negated? with
  | some inner =>
    simp only [hneg, List.mem_singleton, forall_eq] at h
    simp only [valueStep, hneg]
    exact h
  | none =>
    cases hfield : c.fieldValue? e parent with
    | some field =>
      simp only [valueStep, hneg, hfield]
      exact Run.settles_ofExcept field
    | none =>
      cases hcall : c.call? e t.type with
      | none =>
        simp only [valueStep, hneg, hfield, hcall]
        exact Run.settles_ofExcept _
      | some call =>
        simp only [hneg, hfield, hcall, List.forall_mem_map] at h
        simp only [valueStep, hneg, hfield, hcall, convertCall]
        split
        · exact Run.settles_fail _
        · refine Run.settles_andThen (callArgs_settles call.key fun v key a hv => ?_) fun os => Run.settles_pure _
          exact h (v, key, a) hv

theorem rehome_settles (path : String) (f : Field) (n : Node Nat) : Run.Settles l fun _ => c.rehome path f n := by
  refine Run.settles_const fun m => ?_
  unfold rehome
  split
  · split <;> exact ⟨_, rfl⟩
  · exact ⟨_, rfl⟩
  · exact ⟨_, rfl⟩

theorem convertHaving_settles {having : Json} {path : String} (f : Field)
    (h : ∀ q' ∈ c.askedByHaving having path, q'.Settles l subs) :
    Run.Settles l fun k => c.convertHaving (subs k) having path f := by
  unfold askedByHaving at h
  unfold convertHaving
  cases hk : having.operation?.bind fun op => (c.index.conjunction? op.name).map fun k => (k, op.args) with
  | some found =>
    simp only [hk, List.forall_mem_map] at h
    refine Run.settles_bind (Run.settles_filterMap h) fun children => ?_
    refine Run.settles_bind (Run.settles_drawing _) fun n => ?_
    exact Run.settles_bind (rehome_settles path f n) fun g => Run.settles_pure _
  | none =>
    simp only [hk, List.mem_singleton, forall_eq] at h
    refine Run.settles_andThen h fun n => ?_
    refine Run.settles_bind (Run.settles_const fun _ => ⟨_, rfl⟩) fun g => ?_
    exact Run.settles_bind (rehome_settles path f g.toNode) fun g => Run.settles_pure _

theorem finishRule_settles {r : ParsedRule} {negated : Bool}
    (h : ∀ q' ∈ c.askedByRule r negated parent, q'.Settles l subs) :
    Run.Settles l fun k => c.finishRule (subs k) r negated parent := by
  obtain ⟨hargs, hhaving⟩ := List.forall_mem_append.mp h
  rw [List.forall_mem_map] at hargs
  refine Run.settles_andThen (Run.settles_collect hargs) fun operands => ?_
  refine Run.settles_andThen ?_ fun n => ?_
  · unfold ruleNode
    cases hg : r.field.isGroup with
    | false => exact Run.settles_const fun _ => ⟨_, rfl⟩
    | true =>
      refine Run.settles_andThen ?_ fun g => Run.settles_pure _
      unfold groupBody
      cases hr : r.having with
      | none => exact Run.settles_const fun _ => ⟨_, rfl⟩
      | some having =>
        simp only [hg, hr] at hhaving
        exact convertHaving_settles r.field hhaving
  · split
    · exact Run.settles_const fun _ => ⟨_, rfl⟩
    · exact Run.settles_pure _

theorem ruleStep_settles {negated : Bool} (h : ∀ q' ∈ c.askedInRule e negated parent, q'.Settles l subs) :
    Run.Settles l fun k => c.ruleStep (subs k) e negated parent := by
  unfold askedInRule at h
  cases he : e.operation? with
  | none =>
    simp only [ruleStep, he]
    exact Run.settles_fail _
  | some op =>
    cases hx : c.negated? op with
    | some x =>
      simp only [he, hx, List.mem_singleton, forall_eq] at h
      simp only [ruleStep_negation he hx]
      exact h
    | none =>
      cases hk : c.index.conjunction? op.name with
      | some key =>
        simp only [he, hx, hk, List.forall_mem_map] at h
        simp only [ruleStep_conjunction he hx hk, convertConjunction]
        refine Run.settles_bind (Run.settles_filterMap h) fun children => ?_
        exact Run.settles_bind (Run.settles_drawing _) fun n => Run.settles_pure _
      | none =>
        simp only [ruleStep_rule he hx hk, convertOp]
        cases hp : c.parseRule e (.ofOperation op) parent with
        | error p => exact Run.settles_fail p
        | ok r =>
          simp only [he, hx, hk, hp] at h
          simp only [assembleRule_eq]
          exact finishRule_settles h

/-- A request settles when those it asks for do. -/
theorem step_settles (h : ∀ q' ∈ c.asked q, q'.Settles l subs) :
    q.Settles l fun k => ⟨c.ruleStep (subs k), c.valueStep (subs k)⟩ := by
  cases q with
  | rule e negated parent => exact ruleStep_settles h
  | value e t parent => exact valueStep_settles h

end Steps

/-! ## All steps -/

/-- The request settles as a conversion of nested steps. -/
def Request.Ends (l : Filter Nat) (c : Converter) (q : Request) : Prop :=
  q.Settles l fun k => ⟨c.ruleN k, c.valueN k⟩

theorem ends_of_asked {l l' : Filter Nat} (hl : l' ≤ l.map Nat.succ) (h : ∀ q' ∈ c.asked q, q'.Ends l c) :
    q.Ends l' c := by
  have hstep := step_settles h
  cases q with
  | rule e negated parent => exact Run.settles_of_succ hl hstep
  | value e t parent => exact Run.settles_of_succ hl hstep

theorem treeN_settles {l : Filter Nat} (h : (Request.rule e false none).Ends l c) :
    Run.Settles l fun k => c.treeN k e := by
  unfold treeN
  by_cases ht : e.isTruthy = true
  · simp only [ht, if_true]
    refine Run.settles_andThen h fun n => Run.settles_const fun _ => ?_
    unfold rootOf
    split <;> exact ⟨_, rfl⟩
  · simp only [ht]
    exact Run.settles_pure none

/-! ## With hooks that shrink what they answer -/

/-- Nestings that are at least the size are enough. -/
theorem ends_of_size_le (hc : c.HooksShrink) {s : Nat} (hs : q.expr.size ≤ s) : q.Ends (𝓟 (Set.Ici s)) c := by
  induction s generalizing q with
  | zero =>
    have hpos := Json.size_pos q.expr
    omega
  | succ s ih =>
    have hmap : 𝓟 (Set.Ici (s + 1)) ≤ (𝓟 (Set.Ici s)).map Nat.succ := by
      rw [map_principal, principal_mono]
      intro k hk
      obtain ⟨j, rfl⟩ := Nat.exists_eq_add_of_le hk
      exact ⟨s + j, Nat.le_add_right s j, by omega⟩
    refine ends_of_asked hmap fun q' hq' => ih ?_
    have hlt := size_lt_of_mem_asked hc hq'
    omega

/-- A conversion in rule position ends with the nesting it is allowed. -/
theorem exists_rule (hc : c.HooksShrink) (e : Json) (negated : Bool) (parent : Option String) (n : Nat) :
    ∃ d, c.rule e negated parent n = some d := by
  obtain ⟨d, hd⟩ := ends_of_size_le (q := .rule e negated parent) hc (Nat.le_refl _) n
  exact ⟨d, eventually_principal.mp hd (c.limit e) (Nat.le_add_right _ _)⟩

/-- And so does one in value position. -/
theorem exists_value (hc : c.HooksShrink) (e : Json) (t : Target) (parent : Option String) (n : Nat) :
    ∃ d, c.value e t parent n = some d := by
  obtain ⟨d, hd⟩ := ends_of_size_le (q := .value e t parent) hc (Nat.le_refl _) n
  exact ⟨d, eventually_principal.mp hd (c.limit e) (Nat.le_add_right _ _)⟩

/-- An import ends with the nesting it is allowed. -/
theorem importTree_isSome {ι : Type} (hc : c.HooksShrink) (ids : Nat → ι) (start : Nat) (e : Json) :
    (c.importTree ids start e).isSome = true := by
  obtain ⟨d, hd⟩ := treeN_settles (ends_of_size_le hc (Nat.le_refl e.size)) 0
  have hlimit : c.treeN (c.limit e) e 0 = some d := eventually_principal.mp hd _ (Nat.le_add_right _ _)
  simp [importTree, importN, hlimit]

/-! ## With any hooks -/

theorem exists_asked_of_not_ends (h : ¬ q.Ends atTop c) : ∃ q' ∈ c.asked q, ¬ q'.Ends atTop c := by
  by_contra hall
  push Not at hall
  exact h (ends_of_asked (map_add_atTop_eq_nat 1).ge hall)

/-- Sizes cannot fall for ever. -/
theorem exists_size_le (s : Nat → Json) (i : Nat) : ∃ j ≥ i, (s j).size ≤ (s (j + 1)).size := by
  by_contra hall
  push Not at hall
  have hfalls : StrictAnti fun k => (s (i + k)).size :=
    strictAnti_nat_of_succ_lt fun k => hall (i + k) (Nat.le_add_right _ _)
  exact not_strictAnti_of_wellFoundedLT _ hfalls

/-- An import ends, and with the same whatever further nesting is allowed; or it starts a
sequence of requests, each asking for the next and none of them ever ending, in which over
and over a hook answers an expression with the next one, which is no smaller. -/
theorem import_settles_or_hooks_go_on (c : Converter) (e : Json) :
    (∃ limit o, ∀ more ≥ limit, c.importN more e = some o) ∨
      ∃ s : Nat → Request, s 0 = .rule e false none ∧
        (∀ i, s (i + 1) ∈ c.asked (s i) ∧ ¬ (s i).Ends atTop c) ∧
        ∀ i, ∃ j ≥ i, c.Answers (s j).expr (s (j + 1)).expr ∧ (s j).expr.size ≤ (s (j + 1)).expr.size := by
  by_cases hends : (Request.rule e false none).Ends atTop c
  · refine .inl ?_
    obtain ⟨d, hd⟩ := treeN_settles hends 0
    obtain ⟨limit, hlimit⟩ := eventually_atTop.mp hd
    refine ⟨limit, ⟨d.value, d.problems, d.next⟩, fun more hmore => ?_⟩
    have hmore : c.treeN more e 0 = some d := hlimit more hmore
    rw [importN, hmore, Option.map_some]
  · -- every request that never ends asks for one that never ends
    choose next hnext hgoes using fun q : { q : Request // ¬ q.Ends atTop c } => exists_asked_of_not_ends q.2
    let run : Nat → { q : Request // ¬ q.Ends atTop c } := fun i =>
      (fun q => ⟨next q, hgoes q⟩)^[i] ⟨.rule e false none, hends⟩
    have hrun : ∀ i, (run (i + 1)).1 ∈ c.asked (run i).1 := by
      intro i
      simp only [run, Function.iterate_succ_apply']
      exact hnext _
    refine .inr ⟨fun i => (run i).1, rfl, fun i => ⟨hrun i, (run i).2⟩, fun i => ?_⟩
    obtain ⟨j, hj, hle⟩ := exists_size_le (fun i => (run i).1.expr) i
    refine ⟨j, hj, (inside_or_answers_of_mem_asked (hrun j)).resolve_left fun hin => ?_, hle⟩
    have hlt := hin.size_lt
    omega

end Converter

/-! ## A hook that goes on -/

namespace Cars

open Converter

/-- A call that the hook below answers with itself. -/
def echo : Json := call "echo" []

def echoFunc : Func := { returnType := "text", args := [("of", { type := "text" })] }

/-- Cars with a function whose hook answers every expression with a call of the function. -/
def echoing : Converter :=
  .ofSchema { schema with funcs := [("ECHO", echoFunc)] } [("ECHO", Hook.constant (some [echo]) none)]

theorem valueN_echo (k n : Nat) {t : Target} (ht : t.type = "text") (parent : Option String) :
    echoing.valueN k echo t parent n = none := by
  induction k generalizing t with
  | zero => rfl
  | succ k ih =>
    have hneg : echo.operation?.bind echoing.negated? = none := by rfl
    have hfield : echoing.fieldValue? echo parent = none := by rfl
    have hcall : echoing.call? echo t.type = some ⟨"ECHO", echoFunc, [echo]⟩ := by
      rw [ht]
      rfl
    have harg : echoing.valueN k echo (.ofArg { type := "text" }) parent n = none := ih rfl
    simp only [valueN, valueStep, hneg, hfield, hcall]
    exact Run.andThen_eq_none (Run.bind_eq_none harg)

/-- No nesting is enough for a colour that is compared with the call. -/
theorem import_stuck_with_echo : ¬ ∃ limit o, echoing.importN limit (call "==" [read "color", echo]) = some o := by
  rintro ⟨limit, o, ho⟩
  have hrule : echoing.ruleN limit (call "==" [read "color", echo]) false none 0 = none := by
    cases limit with
    | zero => rfl
    | succ k =>
      have hneg : echoing.negated? ⟨"==", [read "color", echo]⟩ = none := by rfl
      have hconj : echoing.index.conjunction? "==" = none := by rfl
      have hparse : echoing.parseRule (call "==" [read "color", echo])
          (.ofOperation ⟨"==", [read "color", echo]⟩) none =
            .ok ⟨"color", { type := "text" }, "equal", [echo], none⟩ := by rfl
      rw [ruleN, ruleStep_rule rfl hneg hconj, convertOp, hparse]
      exact Run.andThen_eq_none (Run.andThen_eq_none (valueN_echo k 0 rfl none))
  have hstuck : echoing.treeN limit (call "==" [read "color", echo]) 0 = none := Run.andThen_eq_none hrule
  rw [importN, hstuck] at ho
  cases ho

end Cars
end RuleTree
