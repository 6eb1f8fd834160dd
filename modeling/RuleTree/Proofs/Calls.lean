/-
  RuleTree.Proofs.Calls — which function an expression is a call of.

  An operation in value position that is no field read and no negation is a call, and two
  searches look for its function: one among the functions of its signature, and if that finds
  none one among those with a hook. Both go by the order of declaration and pass over
  functions that return another type.
  - `Table.First` says that an entry is the first one with a property, `Table.None` that there
    is none. `declaredFunc?_eq_some_iff` and `hookedCall?_eq_some_iff` say so of the two
    searches, the first of which goes through the index.
  - `CalledAs` is how an operation is written as a call (`callSignature?_eq_some_iff`); a
    `method` that gives no name is not, and then neither search is made.

  Proved of every operation in value position: `calls_resolved_in_order`.
  `method_without_name_is_kept_from_hooks` is one that a hook would answer, and that is
  rejected.
-/

import Mathlib.Data.List.Basic
import RuleTree.Convert.Collaborators
import RuleTree.Proofs.Cars
import RuleTree.Proofs.Operators
import RuleTree.Proofs.Sameness

namespace RuleTree

/-! ## The first of a table -/

namespace Table

variable {α : Type} {t rest : Table α} {P : String → α → Prop} {key : String} {v : α}

/-- The first entry that has a property, in order of declaration. -/
def First (t : Table α) (P : String → α → Prop) (key : String) (v : α) : Prop :=
  ∃ before after, t = before ++ (key, v) :: after ∧ P key v ∧ ∀ p ∈ before, ¬ P p.1 p.2

/-- No entry has the property. -/
def None (t : Table α) (P : String → α → Prop) : Prop := ∀ p ∈ t, ¬ P p.1 p.2

theorem find?_eq_some_iff_first [∀ p : String × α, Decidable (P p.1 p.2)] :
    t.find? (fun p => P p.1 p.2) = some (key, v) ↔ t.First P key v := by
  rw [List.find?_eq_some_iff_append]
  simp only [decide_eq_true_eq, Bool.not_eq_true', decide_eq_false_iff_not]
  constructor
  · rintro ⟨hv, before, after, ht, hbefore⟩
    exact ⟨before, after, ht, hv, hbefore⟩
  · rintro ⟨before, after, ht, hv, hbefore⟩
    exact ⟨hv, before, after, ht, hbefore⟩

theorem find?_eq_none_iff_none [∀ p : String × α, Decidable (P p.1 p.2)] :
    t.find? (fun p => P p.1 p.2) = none ↔ t.None P := by
  rw [List.find?_eq_none]
  simp only [decide_eq_true_eq]
  rfl

/-- Going by the keys of some entries and looking each one up is going by these entries. -/
theorem findSome?_keys_filter (h : ∀ p ∈ rest, t.get? p.1 = some p.2) (q r : String × α → Bool) :
    (keys (rest.filter q)).findSome? (fun k => (t.get? k).bind fun v => if r (k, v) then some (k, v) else none) =
      rest.find? fun p => q p && r p := by
  induction rest with
  | nil => rfl
  | cons p rest ih =>
    have hp : t.get? p.1 = some p.2 := h p (by simp)
    have hrest := ih fun p' hp' => h p' (by simp [hp'])
    by_cases hq : q p = true
    · rw [List.filter_cons_of_pos hq, keys, List.map_cons, List.findSome?_cons, hp, Option.bind_some]
      by_cases hr : r p = true
      · rw [if_pos hr, List.find?_cons_of_pos (by rw [hq, hr]; rfl)]
      · rw [if_neg hr, List.find?_cons_of_neg (by simpa [hq] using hr), ← hrest, keys]
    · rw [List.filter_cons_of_neg hq, List.find?_cons_of_neg (by simp [hq]), hrest]

end Table

/-! ## Functions by signature -/

namespace Func

variable {f : Func} {sig : FuncSignature}

/-- The name, as a function or a method, and the type it returns are as wanted. -/
def Answers (f : Func) (sig : FuncSignature) (type : String) : Prop :=
  f.name = some sig.name ∧ f.isMethod = sig.isMethod ∧ f.returnType = type

instance (f : Func) (sig : FuncSignature) (type : String) : Decidable (f.Answers sig type) :=
  inferInstanceAs (Decidable (_ ∧ _ ∧ _))

theorem signature?_eq_some_iff :
    f.signature? = some sig ↔ f.name = some sig.name ∧ f.isMethod = sig.isMethod := by
  obtain ⟨name, isMethod⟩ := sig
  unfold signature?
  cases f.name with
  | none => simp
  | some name' => simp

end Func

/-- The index files the functions by signature, in order of declaration. -/
theorem Index.funcKeys_ofSchema (s : Schema) (sig : FuncSignature) :
    (ofSchema s).funcKeys sig = Table.keys (s.funcs.filter fun p => p.2.signature? = some sig) := by
  refine Groups.find_foldl (fun g p => ?_) s.funcs []
  obtain ⟨key, f⟩ := p
  cases hs : f.signature? with
  | none => simp [hs]
  | some sig' => simp only [hs, Groups.find_add, Option.some.injEq]

/-- An operation is written as a call by a name, with these arguments. -/
inductive CalledAs : Operation → FuncSignature → List Json → Prop
  | plain {name args} (hne : name ≠ "method") : CalledAs ⟨name, args⟩ ⟨name, false⟩ args
  | method (obj name opts) : CalledAs ⟨"method", obj :: .str name :: opts⟩ ⟨name, true⟩ (obj :: opts)

namespace Converter

variable {c : Converter} {e : Json} {op : Operation} {sig : FuncSignature} {type key : String} {f : Func}
  {args : List Json} {parent : Option String} {t : Target}

theorem callSignature?_eq_some_iff : callSignature? op = some (sig, args) ↔ CalledAs op sig args := by
  constructor
  · intro h
    unfold callSignature? at h
    obtain ⟨name, given⟩ := op
    split at h
    · rename_i hname
      cases beq_iff_eq.mp hname
      split at h
      · rename_i obj name opts hargs
        cases h
        cases hargs
        exact .method obj name opts
      · cases h
    · rename_i hname
      cases h
      exact .plain (by simpa using hname)
  · intro h
    cases h with
    | plain hne => simp [callSignature?, hne]
    | method obj name opts => rfl

/-! ## The two searches -/

/-- The search through the index goes by the declared functions. -/
theorem declaredFunc?_eq (hix : c.index = Index.ofSchema c.schema) (hn : c.schema.funcs.keys.Nodup)
    (sig : FuncSignature) (type : String) :
    c.declaredFunc? sig type = c.schema.funcs.find? fun p => p.2.Answers sig type := by
  have hlookup : ∀ p ∈ c.schema.funcs, c.schema.funcs.get? p.1 = some p.2 := fun p hp => lookup_of_mem hn hp
  have hsearch := Table.findSome?_keys_filter hlookup (fun p => p.2.signature? = some sig)
    fun p => p.2.returnType == type
  have hanswers : ∀ p : String × Func,
      (decide (p.2.signature? = some sig) && p.2.returnType == type) = decide (p.2.Answers sig type) := by
    intro p
    rw [Bool.eq_iff_iff, Bool.and_eq_true, decide_eq_true_eq, decide_eq_true_eq, beq_iff_eq,
      Func.signature?_eq_some_iff, and_assoc, Func.Answers]
  simp only [hanswers] at hsearch
  rw [← hsearch, ← Index.funcKeys_ofSchema, ← hix, declaredFunc?]
  congr 1
  funext key
  cases c.schema.funcs.get? key <;> rfl

theorem declaredFunc?_eq_some_iff (hix : c.index = Index.ofSchema c.schema) (hn : c.schema.funcs.keys.Nodup) :
    c.declaredFunc? sig type = some (key, f) ↔ c.schema.funcs.First (fun _ f => f.Answers sig type) key f := by
  rw [declaredFunc?_eq hix hn, ← Table.find?_eq_some_iff_first]

theorem declaredFunc?_eq_none_iff (hix : c.index = Index.ofSchema c.schema) (hn : c.schema.funcs.keys.Nodup) :
    c.declaredFunc? sig type = none ↔ c.schema.funcs.None fun _ f => f.Answers sig type := by
  rw [declaredFunc?_eq hix hn, ← Table.find?_eq_none_iff_none]

/-- A function has a hook that answers the expression with these arguments. -/
def HookGives (c : Converter) (e : Json) (key : String) (args : List Json) : Prop :=
  ∃ hook, c.hooks.get? key = some hook ∧ hook e = some args

/-- A function returns the type and has a hook that takes the expression: one that neither fails
nor declines. -/
def TakenByHook (c : Converter) (e : Json) (type key : String) (f : Func) : Prop :=
  f.returnType = type ∧ ∃ args, c.HookGives e key args

/-- What the search among the hooks makes of one function. -/
theorem hooked_eq_some_iff {key' : String} {f' : Func} :
    (match c.hooks.get? key with
      | some hook => if f.returnType == type then (hook e).map fun args => (⟨key, f, args⟩ : Call) else none
      | none => none) = some ⟨key', f', args⟩ ↔
      f.returnType = type ∧ c.HookGives e key args ∧ key' = key ∧ f' = f := by
  constructor
  · intro h
    split at h
    · rename_i hook hget
      split at h
      · rename_i htype
        obtain ⟨given, hgiven, hcall⟩ := Option.map_eq_some_iff.mp h
        cases hcall
        exact ⟨beq_iff_eq.mp htype, ⟨hook, hget, hgiven⟩, rfl, rfl⟩
      · cases h
    · cases h
  · rintro ⟨htype, ⟨hook, hget, hgiven⟩, rfl, rfl⟩
    simp only [hget, beq_iff_eq.mpr htype, if_true, hgiven, Option.map_some]

theorem hookedCall?_eq_some_iff :
    c.hookedCall? e type = some ⟨key, f, args⟩ ↔
      c.schema.funcs.First (c.TakenByHook e type) key f ∧ c.HookGives e key args := by
  unfold hookedCall?
  rw [List.findSome?_eq_some_iff]
  constructor
  · rintro ⟨before, ⟨key', f'⟩, after, hfuncs, hcall, hbefore⟩
    obtain ⟨htype, hgives, rfl, rfl⟩ := hooked_eq_some_iff.mp hcall
    refine ⟨⟨before, after, hfuncs, ⟨htype, args, hgives⟩, fun p hp htaken => ?_⟩, hgives⟩
    obtain ⟨htype', given, hgiven⟩ := htaken
    have hsome := hooked_eq_some_iff.mpr ⟨htype', hgiven, rfl, rfl⟩
    cases hsome.symm.trans (hbefore p hp)
  · rintro ⟨⟨before, after, hfuncs, ⟨htype, -⟩, hbefore⟩, hgives⟩
    refine ⟨before, (key, f), after, hfuncs, hooked_eq_some_iff.mpr ⟨htype, hgives, rfl, rfl⟩, fun p hp => ?_⟩
    rw [Option.eq_none_iff_forall_ne_some]
    intro call hcall
    obtain ⟨htype', hgiven, -, -⟩ := hooked_eq_some_iff.mp hcall
    exact hbefore p hp ⟨htype', call.args, hgiven⟩

theorem hookedCall?_eq_none (h : c.schema.funcs.None (c.TakenByHook e type)) : c.hookedCall? e type = none := by
  rw [Option.eq_none_iff_forall_ne_some]
  intro call hcall
  obtain ⟨⟨before, after, hfuncs, htaken, -⟩, -⟩ := hookedCall?_eq_some_iff.mp hcall
  exact h (call.key, call.func) (by rw [hfuncs]; simp) htaken

/-! ## Conversion of an operation in value position -/

/-- The expression is converted as a call, whatever nesting is left. -/
def ConvertsAs (c : Converter) (e : Json) (t : Target) (parent : Option String) (call : Call) : Prop :=
  ∀ limit, c.valueN (limit + 1) e t parent = convertCall ⟨c.ruleN limit, c.valueN limit⟩ call parent

/-- The expression is rejected for being an operation, or for want of a widget. -/
def Rejects (c : Converter) (e : Json) (t : Target) (parent : Option String) : Prop :=
  ∀ limit, c.valueN (limit + 1) e t parent =
    .fail (if (c.schema.widgets.get? t.widgetName).isSome then .logicInValue e else .noWidget t.type)

section Operation

variable (he : e.operation? = some op) (hneg : c.negated? op = none) (hfield : c.fieldValue? e parent = none)

include he hneg hfield

theorem convertsAs_of_call? {call : Call} (h : c.call? e t.type = some call) : c.ConvertsAs e t parent call := by
  intro limit
  simp only [valueN, valueStep, he, Option.bind_some, hneg, hfield, h]

theorem rejects_of_call? (h : c.call? e t.type = none) : c.Rejects e t parent := by
  intro limit
  have hop : e.isOperation = true := by rw [Json.isOperation, he]; rfl
  simp only [valueN, valueStep, he, Option.bind_some, hneg, hfield, h, literalValue]
  cases c.schema.widgets.get? t.widgetName with
  | none => rfl
  | some w => simp only [hop, if_true]; rfl

end Operation

/-- An operation in value position that is neither a negation nor a field read is a call of the
first declared function of its signature and type, whatever the hooks are; if there is none, of
the first function of the type whose hook takes the expression, with the arguments this gives;
and if there is none of these either it is rejected. A `method` that gives no name is rejected
at once. -/
theorem calls_resolved_in_order (c : Converter) (hix : c.index = Index.ofSchema c.schema)
    (hn : c.schema.funcs.keys.Nodup) (he : e.operation? = some op) (hneg : c.negated? op = none)
    (hfield : c.fieldValue? e parent = none) (t : Target) :
    (∀ sig args, CalledAs op sig args →
      (∀ key f, c.schema.funcs.First (fun _ f => f.Answers sig t.type) key f →
        ∀ hooks, ({ c with hooks := hooks } : Converter).ConvertsAs e t parent ⟨key, f, args⟩) ∧
      (c.schema.funcs.None (fun _ f => f.Answers sig t.type) →
        (∀ key f given, c.schema.funcs.First (c.TakenByHook e t.type) key f → c.HookGives e key given →
          c.ConvertsAs e t parent ⟨key, f, given⟩) ∧
        (c.schema.funcs.None (c.TakenByHook e t.type) → c.Rejects e t parent))) ∧
    (op.name = "method" → (∀ obj name opts, op.args ≠ obj :: .str name :: opts) → c.Rejects e t parent) := by
  refine ⟨fun sig args hcalled => ⟨?_, fun hnone => ⟨?_, ?_⟩⟩, fun hname hargs => ?_⟩
  · intro key f hfirst hooks
    have hcall : ({ c with hooks := hooks } : Converter).call? e t.type = some ⟨key, f, args⟩ := by
      have hdeclared : ({ c with hooks := hooks } : Converter).declaredFunc? sig t.type = some (key, f) :=
        (declaredFunc?_eq_some_iff hix hn).mpr hfirst
      simp only [call?, he, Option.bind_some, callSignature?_eq_some_iff.mpr hcalled, hdeclared]
    exact convertsAs_of_call? (c := { c with hooks := hooks }) he hneg hfield hcall
  · have hdeclared : c.declaredFunc? sig t.type = none := (declaredFunc?_eq_none_iff hix hn).mpr hnone
    intro key f given hfirst hgives
    refine convertsAs_of_call? he hneg hfield ?_
    simp only [call?, he, Option.bind_some, callSignature?_eq_some_iff.mpr hcalled, hdeclared]
    exact hookedCall?_eq_some_iff.mpr ⟨hfirst, hgives⟩
  · have hdeclared : c.declaredFunc? sig t.type = none := (declaredFunc?_eq_none_iff hix hn).mpr hnone
    intro hnohook
    refine rejects_of_call? he hneg hfield ?_
    simp only [call?, he, Option.bind_some, callSignature?_eq_some_iff.mpr hcalled, hdeclared]
    exact hookedCall?_eq_none hnohook
  · have hsig : callSignature? op = none := by
      rw [Option.eq_none_iff_forall_ne_some]
      rintro ⟨sig, args⟩ hsome
      cases callSignature?_eq_some_iff.mp hsome with
      | plain hne => exact hne hname
      | method obj name opts => exact hargs obj name opts rfl
    refine rejects_of_call? he hneg hfield ?_
    simp only [call?, he, Option.bind_some, hsig]

end Converter

/-! ## Cars with functions -/

namespace Cars

open Converter

def lower : Func where
  name := some "lower"
  returnType := "text"
  args := [("of", { type := "text" })]

def today : Func := { returnType := "text" }

def schemaWithFuncs : Schema := { schema with funcs := [("LOWER", lower), ("TODAY", today)] }

/-- Cars with a function that has a name, and one that has a hook for all expressions. -/
def withFuncs : Converter := .ofSchema schemaWithFuncs [("TODAY", Hook.constant (some []) none)]

def text : Target := { type := "text", mainWidget := "text" }

theorem today_takes (e : Json) : withFuncs.TakenByHook e "text" "TODAY" today :=
  ⟨rfl, [], Hook.constant (some []) none, rfl, rfl⟩

theorem lower_untaken (e : Json) : ¬ withFuncs.TakenByHook e "text" "LOWER" lower := by
  rintro ⟨-, args, hook, hget, -⟩
  cases hget

theorem today_first_taking (e : Json) :
    schemaWithFuncs.funcs.First (withFuncs.TakenByHook e "text") "TODAY" today := by
  refine ⟨[("LOWER", lower)], [], rfl, today_takes e, ?_⟩
  simpa using lower_untaken e

end Cars

namespace Converter

open Cars

/-- One call goes to the function of its name, which no hook is asked for, and another to the
function whose hook takes it. -/
theorem lower_and_today_resolved_in_order :
    withFuncs.ConvertsAs (call "lower" [.str "red"]) text none ⟨"LOWER", lower, [.str "red"]⟩ ∧
      withFuncs.ConvertsAs (call "now" []) text none ⟨"TODAY", today, []⟩ := by
  have hnodup : withFuncs.schema.funcs.keys.Nodup := by decide
  constructor
  · have hfield : withFuncs.fieldValue? (call "lower" [.str "red"]) none = none := by rfl
    obtain ⟨hresolved, -⟩ := calls_resolved_in_order withFuncs rfl hnodup rfl rfl hfield text
    have hfirst : schemaWithFuncs.funcs.First (fun _ f => f.Answers ⟨"lower", false⟩ "text") "LOWER" lower :=
      ⟨[], [("TODAY", today)], rfl, by decide, by simp⟩
    exact (hresolved _ _ (.plain (by decide))).1 "LOWER" lower hfirst withFuncs.hooks
  · have hfield : withFuncs.fieldValue? (call "now" []) none = none := by rfl
    obtain ⟨hresolved, -⟩ := calls_resolved_in_order withFuncs rfl hnodup rfl rfl hfield text
    have hnone : schemaWithFuncs.funcs.None fun _ f => f.Answers ⟨"now", false⟩ "text" := by
      unfold Table.None
      decide
    obtain ⟨hhooked, -⟩ := (hresolved _ _ (.plain (by decide))).2 hnone
    exact hhooked "TODAY" today [] (today_first_taking _) ⟨Hook.constant (some []) none, rfl, rfl⟩

/-- A `method` without a name is no negation and no field read, no function is declared for it,
and a hook takes it; it is rejected all the same. -/
theorem method_without_name_is_kept_from_hooks :
    let e := call "method" []
    e.operation? = some ⟨"method", []⟩ ∧ withFuncs.negated? ⟨"method", []⟩ = none ∧
      withFuncs.fieldValue? e none = none ∧ (¬ ∃ sig args, CalledAs ⟨"method", []⟩ sig args) ∧
      schemaWithFuncs.funcs.First (withFuncs.TakenByHook e text.type) "TODAY" today ∧
      withFuncs.value e text none = .fail (.logicInValue e) := by
  intro e
  have hrejects : withFuncs.Rejects e text none := rejects_of_call? rfl rfl rfl rfl
  refine ⟨rfl, rfl, rfl, ?_, today_first_taking e, hrejects (e.size + 9999)⟩
  rintro ⟨sig, args, hcalled⟩
  cases hcalled with
  | plain hne => exact hne rfl

end Converter
end RuleTree
