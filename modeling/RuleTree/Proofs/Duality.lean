/-
  RuleTree.Proofs.Duality — operators that list the value first, declared to list it last.

  Where every operator of a name with one value takes its arguments in reverse, these can be
  declared direct (`declareDirect`). That moves their keys from one group of the index to
  another and changes no other group (`operatorKeys_declareDirect`), so the name is only ever
  read in the second try before and in the first one after.
  - `parseRule_crossed`: with its two arguments exchanged, a rule of the name is found alike.
  - `ruleStep_congr`: a step depends on what it asks for and on nothing else; so a request
    that asks for no such rule, and comes to ask for none, is the same run under both
    (`ruleN_declareDirect`).

  Proved of any field and value: `reversed_as_direct`, where the operators have the name as
  their first one and no such rule stands below. An operator known by its second name only is
  direct all along, and a predicate is read in the order the schema declares: neither can be
  left out (`orders_that_stay`).
-/

import RuleTree.Proofs.Rewriting

namespace RuleTree

namespace Run

theorem filterMap_congr {α β : Type} {f g : α → Run (Option β)} {as : List α} (h : ∀ a ∈ as, f a = g a) :
    filterMap f as = filterMap g as := by
  induction as with
  | nil => rfl
  | cons a rest ih =>
    have hrest : filterMap f rest = filterMap g rest := ih fun b hb => h b (List.mem_cons_of_mem a hb)
    simp only [filterMap, h a List.mem_cons_self, hrest]

end Run

theorem Table.get?_map {α β : Type} (t : Table α) (f : α → β) (key : String) :
    Table.get? (t.map fun p => (p.1, f p.2)) key = (t.get? key).map f := by
  unfold get?
  induction t with
  | nil => rfl
  | cons p rest ih =>
    rw [List.map_cons, List.lookup_cons, List.lookup_cons, ih]
    cases key == p.1 <;> rfl

/-! ## Operators declared direct -/

namespace Operator

/-- Declared to list the field first, if it answers to the name with one value. -/
def declareDirect (n : String) (op : Operator) : Operator :=
  if op.expressionName? = some n ∧ op.arity = 1 then { op with reversedArgs := false } else op

variable {n : String} {op : Operator}

theorem declareDirect_of_not (h : ¬ (op.expressionName? = some n ∧ op.arity = 1)) : op.declareDirect n = op :=
  if_neg h

@[simp] theorem expressionName?_declareDirect : (op.declareDirect n).expressionName? = op.expressionName? := by
  unfold declareDirect
  split <;> rfl

@[simp] theorem arity_declareDirect : (op.declareDirect n).arity = op.arity := by
  unfold declareDirect
  split <;> rfl

@[simp] theorem inverse_declareDirect : (op.declareDirect n).inverse = op.inverse := by
  unfold declareDirect
  split <;> rfl

theorem isReversed_declareDirect (hname : op.expressionName? = some n) (harity : op.arity = 1) :
    (op.declareDirect n).isReversed = false := by
  rw [declareDirect, if_pos ⟨hname, harity⟩]
  simp [isReversed]

end Operator

namespace Schema

def declareDirect (n : String) (s : Schema) : Schema :=
  { s with operators := s.operators.map fun p => (p.1, p.2.declareDirect n) }

/-- Every operator of the name with one value takes its arguments in reverse. -/
def ReversesAll (s : Schema) (n : String) : Prop :=
  ∀ p ∈ s.operators, p.2.expressionName? = some n → p.2.arity = 1 → p.2.isReversed = true

variable {s : Schema} {n : String}

/-- Of the operators of a name with so many values, tests that agree on them pick the same. -/
theorem keys_filter_congr {ops : Table Operator} {name : String} {count : Nat} {P Q : Operator → Prop}
    [DecidablePred P] [DecidablePred Q]
    (h : ∀ p ∈ ops, p.2.expressionName? = some name → p.2.arity = count → (P p.2 ↔ Q p.2)) :
    Table.keys (ops.filter fun p => p.2.expressionName? = some name ∧ p.2.arity = count ∧ P p.2) =
      Table.keys (ops.filter fun p => p.2.expressionName? = some name ∧ p.2.arity = count ∧ Q p.2) := by
  congr 1
  apply List.filter_congr
  intro p hp
  rw [decide_eq_decide, and_congr_right_iff]
  intro hname
  rw [and_congr_right_iff]
  exact h p hp hname

theorem operatorsNamed_declareDirect (name : String) (count : Nat) (reversed : Bool) :
    (s.declareDirect n).operatorsNamed name count reversed = Table.keys (s.operators.filter fun p =>
      p.2.expressionName? = some name ∧ p.2.arity = count ∧ (p.2.declareDirect n).isReversed = reversed) := by
  unfold operatorsNamed declareDirect Table.keys
  rw [List.filter_map, List.map_map]
  simp only [Function.comp_def, Operator.expressionName?_declareDirect, Operator.arity_declareDirect]

/-- Operators of another name or number of values are where they were. -/
theorem operatorsNamed_declareDirect_of_ne {name : String} {count : Nat} (h : ¬ (name = n ∧ count = 1))
    (reversed : Bool) :
    (s.declareDirect n).operatorsNamed name count reversed = s.operatorsNamed name count reversed := by
  rw [operatorsNamed_declareDirect, operatorsNamed]
  apply keys_filter_congr (P := fun op => (op.declareDirect n).isReversed = reversed)
    (Q := fun op => op.isReversed = reversed)
  intro p _ hname harity
  rw [Operator.declareDirect_of_not]
  rintro ⟨hname', harity'⟩
  rw [hname, Option.some.injEq] at hname'
  exact h ⟨hname', harity.symm.trans harity'⟩

/-- Before, none of the operators is direct. -/
theorem operatorsNamed_direct (h : s.ReversesAll n) : s.operatorsNamed n 1 false = [] := by
  have hnone : s.operatorsNamed n 1 false = Table.keys (s.operators.filter fun p =>
      p.2.expressionName? = some n ∧ p.2.arity = 1 ∧ False) := by
    apply keys_filter_congr (P := fun op => op.isReversed = false) (Q := fun _ => False)
    intro p hp hname harity
    rw [h p hp hname harity]
    decide
  simpa [Table.keys] using hnone

/-- Afterwards, none of them is reversed. -/
theorem operatorsNamed_declareDirect_reversed : (s.declareDirect n).operatorsNamed n 1 true = [] := by
  have hnone : (s.declareDirect n).operatorsNamed n 1 true = Table.keys (s.operators.filter fun p =>
      p.2.expressionName? = some n ∧ p.2.arity = 1 ∧ False) := by
    rw [operatorsNamed_declareDirect]
    apply keys_filter_congr (P := fun op => (op.declareDirect n).isReversed = true) (Q := fun _ => False)
    intro p _ hname harity
    rw [Operator.isReversed_declareDirect hname harity]
    decide
  simpa [Table.keys] using hnone

/-- Those that were reversed are direct, in the same order. -/
theorem operatorsNamed_declareDirect_direct (h : s.ReversesAll n) :
    (s.declareDirect n).operatorsNamed n 1 false = s.operatorsNamed n 1 true := by
  rw [operatorsNamed_declareDirect, operatorsNamed]
  apply keys_filter_congr (P := fun op => (op.declareDirect n).isReversed = false)
    (Q := fun op => op.isReversed = true)
  intro p hp hname harity
  rw [Operator.isReversed_declareDirect hname harity, h p hp hname harity]
  decide

end Schema

namespace Converter

/-- With the operators of the name that take one value declared direct. -/
def declareDirect (n : String) (c : Converter) : Converter :=
  { c with schema := c.schema.declareDirect n, index := .ofSchema (c.schema.declareDirect n) }

/-- It is the conversion for the schema with these operators declared direct. -/
theorem declareDirect_ofSchema (n : String) (s : Schema) (hooks : Hooks) :
    (ofSchema s hooks).declareDirect n = ofSchema (s.declareDirect n) hooks := rfl

/-! ## Other operators in an else equal schema -/

/-- With other operators, filed as given. -/
def withOperators (c : Converter) (ops : Table Operator) (filed : Groups OpSignature) : Converter :=
  { c with schema := { c.schema with operators := ops }, index := { c.index with operators := filed } }

variable {c : Converter} {ops : Table Operator} {filed : Groups OpSignature}

theorem declareDirect_eq (hix : c.index = Index.ofSchema c.schema) (n : String) :
    c.declareDirect n =
      c.withOperators (c.schema.declareDirect n).operators (Index.ofSchema (c.schema.declareDirect n)).operators := by
  unfold declareDirect withOperators
  rw [hix]
  rfl

section WithOperators

variable {s : RuleShape} {e : Json} {parent : Option String} {reversed : Bool}

theorem tryParse_withOperators
    (hkeys : ∀ arity, c.wantedArity? s = some arity →
      Groups.find filed ⟨s.op, arity, reversed⟩ = c.index.operatorKeys ⟨s.op, arity, reversed⟩) :
    (c.withOperators ops filed).tryParse s parent reversed = c.tryParse s parent reversed := by
  have hwanted : (c.withOperators ops filed).wantedArity? s = c.wantedArity? s := rfl
  unfold tryParse
  rw [hwanted]
  cases harity : c.wantedArity? s with
  | none => rfl
  | some arity =>
    have hsame : (c.withOperators ops filed).index.operatorKeys ⟨s.op, arity, reversed⟩ =
        c.index.operatorKeys ⟨s.op, arity, reversed⟩ := hkeys arity harity
    simp only [hsame]
    rfl

theorem parseRule_withOperators
    (hkeys : ∀ arity reversed, c.wantedArity? s = some arity →
      Groups.find filed ⟨s.op, arity, reversed⟩ = c.index.operatorKeys ⟨s.op, arity, reversed⟩) :
    (c.withOperators ops filed).parseRule e s parent = c.parseRule e s parent := by
  unfold parseRule
  rw [tryParse_withOperators fun arity => hkeys arity false, tryParse_withOperators fun arity => hkeys arity true]

/-- Of the operators themselves only their inverses are looked at. -/
theorem finishRule_withOperators (hinv : (c.withOperators ops filed).inverse? = c.inverse?) :
    (c.withOperators ops filed).finishRule = c.finishRule := by
  have hsettle : (c.withOperators ops filed).settleNegation = c.settleNegation := by
    funext f op negated
    unfold settleNegation
    rw [hinv]
    rfl
  funext sub r negated parent
  unfold finishRule
  rw [hsettle]
  rfl

theorem convertOp_withOperators (hinv : (c.withOperators ops filed).inverse? = c.inverse?) {op : Operation}
    (hparse : (c.withOperators ops filed).parseRule e (.ofOperation op) parent =
      c.parseRule e (.ofOperation op) parent) (sub : SubRuns) (negated : Bool) :
    (c.withOperators ops filed).convertOp sub e op negated parent = c.convertOp sub e op negated parent := by
  unfold convertOp
  rw [hparse]
  cases c.parseRule e (.ofOperation op) parent with
  | error p => rfl
  | ok r =>
    simp only
    rw [assembleRule_eq, assembleRule_eq, finishRule_withOperators hinv]

theorem ruleStep_withOperators (hinv : (c.withOperators ops filed).inverse? = c.inverse?)
    (hparse : ∀ op, e.operation? = some op → (c.withOperators ops filed).parseRule e (.ofOperation op) parent =
      c.parseRule e (.ofOperation op) parent) (sub : SubRuns) (negated : Bool) :
    (c.withOperators ops filed).ruleStep sub e negated parent = c.ruleStep sub e negated parent := by
  have hnegated : (c.withOperators ops filed).negated? = c.negated? := rfl
  have hconjunction : (c.withOperators ops filed).index.conjunction? = c.index.conjunction? := rfl
  unfold ruleStep
  rw [hnegated, hconjunction]
  cases he : e.operation? with
  | none => rfl
  | some op =>
    simp only [convertOp_withOperators hinv (hparse op he)]
    rfl

theorem valueStep_withOperators : (c.withOperators ops filed).valueStep = c.valueStep := rfl

end WithOperators

/-! ## A step depends on what it asks for -/

section Congr

variable {sub sub' : SubRuns} {e : Json} {negated : Bool} {parent : Option String}

theorem callArgs_congr (h : sub'.value = sub.value) (func : String) (parent : Option String)
    (args : Table FuncArg) (given : List Json) :
    callArgs sub' func parent args given = callArgs sub func parent args given := by
  induction args generalizing given with
  | nil => rfl
  | cons a rest ih =>
    have hgiven : givenArg sub' a.2 parent given.head? = givenArg sub a.2 parent given.head? := by
      cases given with
      | nil => rfl
      | cons v _ => simp only [List.head?_cons, givenArg, h]
    simp only [callArgs, hgiven, ih]

/-- A value asks for values only. -/
theorem valueStep_congr (h : sub'.value = sub.value) : c.valueStep sub' = c.valueStep sub := by
  funext e t parent
  unfold valueStep
  simp only [h, convertCall, callArgs_congr h]

theorem convertHaving_congr {having : Json} {path : String} (f : Field)
    (h : ∀ e negated parent, Request.rule e negated parent ∈ c.askedByHaving having path →
      sub'.rule e negated parent = sub.rule e negated parent) :
    c.convertHaving sub' having path f = c.convertHaving sub having path f := by
  unfold askedByHaving at h
  unfold convertHaving
  cases hk : having.operation?.bind fun op => (c.index.conjunction? op.name).map fun k => (k, op.args) with
  | some found =>
    simp only [hk] at h
    simp only
    rw [Run.filterMap_congr fun a ha => h a false (some path) (List.mem_map_of_mem ha)]
  | none =>
    simp only [hk, List.mem_singleton] at h
    simp only
    rw [h having false (some path) rfl]

theorem finishRule_congr (hvalue : sub'.value = sub.value) {r : ParsedRule}
    (h : ∀ e negated' parent', Request.rule e negated' parent' ∈ c.askedByRule r negated parent →
      sub'.rule e negated' parent' = sub.rule e negated' parent') :
    c.finishRule sub' r negated parent = c.finishRule sub r negated parent := by
  have hnode : c.ruleNode sub' r = c.ruleNode sub r := by
    funext op negated operands
    unfold ruleNode
    by_cases hg : r.field.isGroup = true
    · rw [if_pos hg, if_pos hg]
      have hbody : c.groupBody sub' r = c.groupBody sub r := by
        unfold groupBody
        cases hr : r.having with
        | none => rfl
        | some having =>
          simp only
          apply convertHaving_congr
          intro e negated' parent' hasked
          apply h
          rw [askedByRule, hg, hr]
          exact List.mem_append_right _ hasked
      rw [hbody]
    · rw [if_neg hg, if_neg hg]
  unfold finishRule
  rw [hvalue, hnode]

theorem asked_of_parseRule {op : Operation} {r : ParsedRule} (he : e.operation? = some op)
    (hneg : c.negated? op = none) (hk : c.index.conjunction? op.name = none)
    (hp : c.parseRule e (.ofOperation op) parent = .ok r) :
    c.asked (.rule e negated parent) = c.askedByRule (foldHaving r negated).1 (foldHaving r negated).2 parent := by
  simp only [asked, askedInRule, he, hneg, hk, hp]

theorem convertOp_congr (hvalue : sub'.value = sub.value) {op : Operation} (he : e.operation? = some op)
    (hneg : c.negated? op = none) (hk : c.index.conjunction? op.name = none)
    (h : ∀ x negated' parent', Request.rule x negated' parent' ∈ c.asked (.rule e negated parent) →
      sub'.rule x negated' parent' = sub.rule x negated' parent') :
    c.convertOp sub' e op negated parent = c.convertOp sub e op negated parent := by
  unfold convertOp
  cases hp : c.parseRule e (.ofOperation op) parent with
  | error p => rfl
  | ok r =>
    simp only
    rw [assembleRule_eq, assembleRule_eq]
    apply finishRule_congr hvalue
    intro x negated' parent' hasked
    apply h
    rw [asked_of_parseRule he hneg hk hp]
    exact hasked

/-- A step in rule position is the same for conversions of the parts that are the same where
it asks for them. -/
theorem ruleStep_congr (hvalue : sub'.value = sub.value)
    (h : ∀ x negated' parent', Request.rule x negated' parent' ∈ c.asked (.rule e negated parent) →
      sub'.rule x negated' parent' = sub.rule x negated' parent') :
    c.ruleStep sub' e negated parent = c.ruleStep sub e negated parent := by
  cases he : e.operation? with
  | none => simp only [ruleStep, he]
  | some op =>
    cases hneg : c.negated? op with
    | some x =>
      rw [ruleStep_negation he hneg, ruleStep_negation he hneg]
      apply h
      simp [asked, askedInRule, he, hneg]
    | none =>
      cases hk : c.index.conjunction? op.name with
      | none =>
        rw [ruleStep_rule he hneg hk, ruleStep_rule he hneg hk]
        exact convertOp_congr hvalue he hneg hk h
      | some key =>
        rw [ruleStep_conjunction he hneg hk, ruleStep_conjunction he hneg hk]
        unfold convertConjunction
        rw [Run.filterMap_congr fun a ha => h a false parent ?_]
        simp only [asked, askedInRule, he, hneg, hk]
        exact List.mem_map_of_mem ha

end Congr

/-! ## Rules of the name -/

/-- The request is for a rule of the name with two arguments. -/
def Request.isRuleOf (n : String) : Request → Bool
  | .rule e _ _ => e.operation?.any fun op =>
      (RuleShape.ofOperation op).op == n && (RuleShape.ofOperation op).arity == 2
  | .value _ _ _ => false

/-- Neither the request nor one that it comes to ask for is for such a rule. -/
def Spares (c : Converter) (n : String) (q : Request) : Prop :=
  ∀ q', Relation.ReflTransGen (fun q q' => q' ∈ c.asked q) q q' → q'.isRuleOf n = false

/-- The same by looking, for requests that ask for no more than so many others in a row. -/
def sparesN (c : Converter) (n : String) : Nat → Request → Bool
  | 0, _ => false
  | k + 1, q => !q.isRuleOf n && (c.asked q).all (c.sparesN n k)

variable {n : String} {q q' : Request}

theorem Spares.of_mem_asked (h : c.Spares n q) (hq : q' ∈ c.asked q) : c.Spares n q' :=
  fun q'' hlater => h q'' (.head hq hlater)

theorem spares_of_sparesN {k : Nat} (h : c.sparesN n k q = true) : c.Spares n q := by
  induction k generalizing q with
  | zero => cases h
  | succ k ih =>
    simp only [sparesN, Bool.and_eq_true, Bool.not_eq_true', List.all_eq_true] at h
    intro q'' hlater
    rcases hlater.cases_head with rfl | ⟨q', hq', hlater⟩
    · exact h.1
    · exact ih (h.2 q' hq') q'' hlater

/-! ## Rules that are read alike -/

section Declared

variable {s s' : RuleShape} {e e' : Json} {parent : Option String}

theorem operatorKeys_declareDirect (hix : c.index = Index.ofSchema c.schema) {name : String} {count : Nat}
    (h : ¬ (name = n ∧ count = 1)) (reversed : Bool) :
    (c.declareDirect n).index.operatorKeys ⟨name, count, reversed⟩ =
      c.index.operatorKeys ⟨name, count, reversed⟩ := by
  rw [hix, declareDirect, Index.operatorKeys_ofSchema, Index.operatorKeys_ofSchema]
  exact Schema.operatorsNamed_declareDirect_of_ne h reversed

theorem inverse?_declareDirect : (c.declareDirect n).inverse? = c.inverse? := by
  funext key
  unfold inverse? declareDirect Schema.declareDirect
  rw [Table.get?_map]
  cases c.schema.operators.get? key with
  | none => rfl
  | some op => simp

theorem wantedArity?_of_not_isGroupOp (hgroup : n ∉ c.schema.settings.groupOperators) (hs : s.op = n) {arity : Nat}
    (h : c.wantedArity? s = some arity) : s.arity = arity + 1 := by
  have hnot : c.isGroupOp s = false := by
    unfold isGroupOp
    simp [hs, hgroup]
  unfold wantedArity? at h
  rw [hnot, if_neg Bool.false_ne_true] at h
  split at h
  · cases h
  · cases h
    omega

/-- A rule that is not one of the name is read as it was. -/
theorem parseRule_declareDirect (hix : c.index = Index.ofSchema c.schema)
    (hgroup : n ∉ c.schema.settings.groupOperators) (hs : ¬ (s.op = n ∧ s.arity = 2)) (e : Json)
    (parent : Option String) : (c.declareDirect n).parseRule e s parent = c.parseRule e s parent := by
  have hkeys : ∀ arity reversed, c.wantedArity? s = some arity →
      (c.declareDirect n).index.operatorKeys ⟨s.op, arity, reversed⟩ =
        c.index.operatorKeys ⟨s.op, arity, reversed⟩ := by
    intro arity reversed ha
    apply operatorKeys_declareDirect hix
    rintro ⟨hname, rfl⟩
    exact hs ⟨hname, wantedArity?_of_not_isGroupOp hgroup hname ha⟩
  rw [declareDirect_eq hix] at hkeys ⊢
  exact parseRule_withOperators hkeys

theorem ruleStep_declareDirect (hix : c.index = Index.ofSchema c.schema)
    (hgroup : n ∉ c.schema.settings.groupOperators) {negated : Bool}
    (h : (Request.rule e negated parent).isRuleOf n = false) (sub : SubRuns) :
    (c.declareDirect n).ruleStep sub e negated parent = c.ruleStep sub e negated parent := by
  have hinv := inverse?_declareDirect (c := c) (n := n)
  have hparse : ∀ op, e.operation? = some op →
      (c.declareDirect n).parseRule e (.ofOperation op) parent = c.parseRule e (.ofOperation op) parent := by
    intro op he
    apply parseRule_declareDirect hix hgroup
    simpa [Request.isRuleOf, he] using h
  rw [declareDirect_eq hix] at hinv hparse ⊢
  exact ruleStep_withOperators hinv hparse sub negated

theorem valueN_declareDirect (hix : c.index = Index.ofSchema c.schema) (k : Nat) :
    (c.declareDirect n).valueN k = c.valueN k := by
  induction k with
  | zero => rfl
  | succ k ih =>
    have hstep : (c.declareDirect n).valueStep = c.valueStep := by
      rw [declareDirect_eq hix, valueStep_withOperators]
    have hsame : c.valueStep ⟨(c.declareDirect n).ruleN k, (c.declareDirect n).valueN k⟩ =
        c.valueStep ⟨c.ruleN k, c.valueN k⟩ := valueStep_congr ih
    funext e t parent
    rw [valueN, valueN, hstep, hsame]

/-- Where no rule of the name is asked for, nothing has changed. -/
theorem ruleN_declareDirect (hix : c.index = Index.ofSchema c.schema)
    (hgroup : n ∉ c.schema.settings.groupOperators) (k : Nat) {negated : Bool}
    (h : c.Spares n (.rule e negated parent)) :
    (c.declareDirect n).ruleN k e negated parent = c.ruleN k e negated parent := by
  induction k generalizing e negated parent with
  | zero => rfl
  | succ k ih =>
    rw [ruleN, ruleN, ruleStep_declareDirect hix hgroup (h _ .refl)]
    exact ruleStep_congr (valueN_declareDirect hix k) fun _ _ _ hasked => ih (h.of_mem_asked hasked)

/-! ## Rules of the name, with their arguments exchanged -/

/-- Both name the same field, whatever the operators are. -/
theorem nameAlike_withOperators (parent : Option String) (x : Json) :
    NameAlike c (c.withOperators ops filed) (· = ·) parent parent x x := by
  have hrecognize : FieldOperand.recognize? (c.withOperators ops filed).index x =
      FieldOperand.recognize? c.index x := rfl
  unfold NameAlike
  rw [hrecognize]
  exact rel_of_eq fun operand => ⟨rfl, rel_of_eq fun _ => rfl⟩

/-- Tries that look at the same keys and lay the values out in the same way find the same
rule, or fail for reasons of one kind. -/
theorem tryParse_of_layout {reversed reversed' : Bool} (hlayout : layout s' reversed' = layout s reversed)
    (hgroup : c.isGroupOp s' = c.isGroupOp s) (hop : s'.op = s.op) (harity : s'.arity = s.arity)
    (hkeys : ∀ arity, c.wantedArity? s = some arity →
      Groups.find filed ⟨s.op, arity, reversed'⟩ = c.index.operatorKeys ⟨s.op, arity, reversed⟩) :
    FoundAlike (Option.map RuleFault.kind) (Corresponds (· = ·) (· = ·)) (c.tryParse s parent reversed)
      ((c.withOperators ops filed).tryParse s' parent reversed') := by
  have hfields : (c.withOperators ops filed).fields = c.fields := rfl
  have hgroup' : (c.withOperators ops filed).isGroupOp s' = c.isGroupOp s := hgroup
  apply tryParse_foundAlike hfields hgroup' harity
  · intro arity ha
    rw [hop]
    exact hkeys arity ha
  · rw [hlayout]
    exact rel_of_eq fun x => ⟨rfl, nameAlike_withOperators parent x⟩
  · intro _
    rw [hlayout]
    exact List.forall₂_same.mpr fun _ _ => rfl
  · intro _
    rw [hlayout]
    exact rel_of_eq fun _ => rfl

/-- A rule found in the second try only, and one found in the first try only. -/
theorem parseRule_crossed {d : Converter} {R : ParsedRule → ParsedRule → Prop}
    (hfirst : c.tryParse s parent false = .error none)
    (hsecond : d.tryParse s' parent true = .error none)
    (h : FoundAlike (Option.map RuleFault.kind) R (c.tryParse s parent true) (d.tryParse s' parent false))
    (e e' : Json) : FoundAlike Problem.kind R (c.parseRule e s parent) (d.parseRule e' s' parent) := by
  rcases foundAlike_cases h with ⟨r, r', hr, hr', hrr⟩ | ⟨fault, fault', hr, hr', hkind⟩
  · rw [parseRule_eq_ok.mpr (.inr ⟨⟨none, hfirst⟩, hr⟩), parseRule_eq_ok.mpr (.inl hr')]
    exact hrr
  · obtain ⟨p, hp, hk⟩ := parseRule_eq_error (e := e) hfirst hr
    obtain ⟨p', hp', hk'⟩ := parseRule_eq_error (e := e') hr' hsecond
    rw [hp, hp']
    show p'.kind = p.kind
    rw [hk, hk', hkind]
    cases fault <;> rfl

theorem parseRule_exchanged (hix : c.index = Index.ofSchema c.schema) (hreverses : c.schema.ReversesAll n)
    (hgroup : n ∉ c.schema.settings.groupOperators) (f v : Json) (parent : Option String) (e e' : Json) :
    FoundAlike Problem.kind (Corresponds (· = ·) (· = ·)) (c.parseRule e ⟨n, 2, [v, f]⟩ parent)
      ((c.declareDirect n).parseRule e' ⟨n, 2, [f, v]⟩ parent) := by
  have hone : ∀ {values : List Json} {arity : Nat}, c.wantedArity? ⟨n, 2, values⟩ = some arity → arity = 1 := by
    intro values arity ha
    have hcount := wantedArity?_of_not_isGroupOp hgroup rfl ha
    simp only at hcount
    omega
  apply parseRule_crossed
  · apply tryParse_of_no_keys
    intro arity ha
    rw [hone ha, hix, Index.operatorKeys_ofSchema]
    exact Schema.operatorsNamed_direct hreverses
  · apply tryParse_of_no_keys
    intro arity ha
    have ha' : c.wantedArity? ⟨n, 2, [f, v]⟩ = some arity := by
      rw [declareDirect_eq hix] at ha
      exact ha
    rw [hone ha', declareDirect, Index.operatorKeys_ofSchema]
    exact Schema.operatorsNamed_declareDirect_reversed
  · have hbetween : ∀ values, isBetween ⟨n, 2, values⟩ = false := fun values => by simp [isBetween]
    have hlayout : layout ⟨n, 2, [f, v]⟩ false = layout ⟨n, 2, [v, f]⟩ true := by
      rw [layout_of_not_isBetween (hbetween _), layout_of_not_isBetween (hbetween _)]
      rfl
    have hnot : c.isGroupOp ⟨n, 2, [f, v]⟩ = c.isGroupOp ⟨n, 2, [v, f]⟩ := by
      simp [isGroupOp, hgroup]
    rw [declareDirect_eq hix]
    apply tryParse_of_layout hlayout hnot rfl rfl
    intro arity ha
    have hdirect := Index.operatorKeys_ofSchema (c.schema.declareDirect n) ⟨n, arity, false⟩
    rw [hone ha] at hdirect ⊢
    rw [hix, Index.operatorKeys_ofSchema]
    exact hdirect.trans (Schema.operatorsNamed_declareDirect_direct hreverses)

end Declared

/-! ## The runs of both -/

theorem assembleRule_declareDirect (hix : c.index = Index.ofSchema c.schema)
    (hgroup : n ∉ c.schema.settings.groupOperators) (k : Nat) {r : ParsedRule} {negated : Bool}
    {parent : Option String}
    (h : ∀ q ∈ c.askedByRule (foldHaving r negated).1 (foldHaving r negated).2 parent, c.Spares n q) :
    (c.declareDirect n).assembleRule ⟨(c.declareDirect n).ruleN k, (c.declareDirect n).valueN k⟩ r negated parent =
      c.assembleRule ⟨c.ruleN k, c.valueN k⟩ r negated parent := by
  have hfinish : (c.declareDirect n).finishRule = c.finishRule := by
    have hinv := inverse?_declareDirect (c := c) (n := n)
    rw [declareDirect_eq hix] at hinv ⊢
    exact finishRule_withOperators hinv
  rw [assembleRule_eq, assembleRule_eq, hfinish]
  apply finishRule_congr (valueN_declareDirect hix k)
  intro e negated' parent' hasked
  exact ruleN_declareDirect hix hgroup k (h _ hasked)

/-- Rules that are found alike have the same node, or fail alike, when they are assembled in
the same way. -/
theorem convertOp_leads_both {d : Converter} {sub sub' : SubRuns} {e e' : Json} {op op' : Operation}
    {negated : Bool} {parent : Option String}
    (hfound : FoundAlike Problem.kind (Corresponds (· = ·) (· = ·)) (c.parseRule e (.ofOperation op) parent)
      (d.parseRule e' (.ofOperation op') parent))
    (hassemble : ∀ r, c.parseRule e (.ofOperation op) parent = .ok r →
      d.assembleRule sub' r negated parent = c.assembleRule sub r negated parent) :
    (c.convertOp sub e op negated parent).Leads (d.convertOp sub' e' op' negated parent) ∧
      (d.convertOp sub' e' op' negated parent).Leads (c.convertOp sub e op negated parent) := by
  unfold convertOp
  rcases foundAlike_cases hfound with ⟨r, r', hx, hx', hrr⟩ | ⟨p, p', hx, hx', hkind⟩
  · rw [hrr.eq] at hx'
    rw [hx, hx']
    simp only
    rw [hassemble r hx]
    exact ⟨Run.leads_refl _, Run.leads_refl _⟩
  · rw [hx, hx']
    exact ⟨Run.leads_fail hkind, Run.leads_fail hkind.symm⟩

theorem ruleN_exchanged (hix : c.index = Index.ofSchema c.schema) (hreverses : c.schema.ReversesAll n)
    (hconjunction : c.index.conjunction? n = none) (hgroup : n ∉ c.schema.settings.groupOperators)
    (hbang : n ≠ "!") (hall : n ≠ "all") {f v : Json} {negated : Bool} {parent : Option String}
    (hbelow : ∀ q ∈ c.asked (.rule (.obj [(n, .arr [v, f])]) negated parent), c.Spares n q) (k : Nat) :
    (c.ruleN k (.obj [(n, .arr [v, f])]) negated parent).Leads
        ((c.declareDirect n).ruleN k (.obj [(n, .arr [f, v])]) negated parent) ∧
      ((c.declareDirect n).ruleN k (.obj [(n, .arr [f, v])]) negated parent).Leads
        (c.ruleN k (.obj [(n, .arr [v, f])]) negated parent) := by
  cases k with
  | zero => exact ⟨Run.leads_stuck _, Run.leads_stuck _⟩
  | succ k =>
    have hshape : ∀ x y, RuleShape.ofOperation ⟨n, [x, y]⟩ = ⟨n, 2, [x, y]⟩ := by
      intro x y
      apply ofOperation_of_not_allIn
      simp [allInList?, hall]
    have hneg : c.negated? ⟨n, [v, f]⟩ = none := negated?_of_ne hbang
    have hneg' : (c.declareDirect n).negated? ⟨n, [f, v]⟩ = none := negated?_of_ne hbang
    have hconjunction' : (c.declareDirect n).index.conjunction? n = none := by
      rw [declareDirect_eq hix]
      exact hconjunction
    have he : (Json.obj [(n, .arr [v, f])]).operation? = some ⟨n, [v, f]⟩ := rfl
    have he' : (Json.obj [(n, .arr [f, v])]).operation? = some ⟨n, [f, v]⟩ := rfl
    rw [ruleN, ruleN, ruleStep_rule he hneg hconjunction, ruleStep_rule he' hneg' hconjunction']
    apply convertOp_leads_both
    · rw [hshape, hshape]
      exact parseRule_exchanged hix hreverses hgroup f v parent _ _
    · intro r hr
      rw [asked_of_parseRule he hneg hconjunction hr] at hbelow
      exact assembleRule_declareDirect hix hgroup k hbelow

/-- Operators of a name that take one value in reverse, declared direct: a rule of the name and
the one with its arguments exchanged have the same node, ids and all, or none both, and problems
of the same kinds, when no further such rule is asked for. -/
theorem reversed_as_direct (c : Converter) (n : String) (hix : c.index = Index.ofSchema c.schema)
    (hreverses : c.schema.ReversesAll n) (hconjunction : c.index.conjunction? n = none)
    (hgroup : n ∉ c.schema.settings.groupOperators) (hbang : n ≠ "!") (hall : n ≠ "all") (f v : Json)
    (negated : Bool) (parent : Option String)
    (hbelow : ∀ q ∈ c.asked (.rule (.obj [(n, .arr [v, f])]) negated parent), c.Spares n q) :
    let x := c.rule (.obj [(n, .arr [v, f])]) negated parent
    let y := (c.declareDirect n).rule (.obj [(n, .arr [f, v])]) negated parent
    x.Leads y ∧ y.Leads x ∧ (c.HooksShrink → x.EndAlike y) := by
  intro x y
  have hlimit : (c.declareDirect n).limit (.obj [(n, .arr [f, v])]) = c.limit (.obj [(n, .arr [v, f])]) := by
    unfold limit declareDirect
    simp only [Json.size, Json.sizeEntries, Json.sizeItems]
    omega
  have hboth : x.Leads y ∧ y.Leads x := by
    have hy : y = (c.declareDirect n).ruleN (c.limit (.obj [(n, .arr [v, f])])) (.obj [(n, .arr [f, v])])
        negated parent := by
      rw [← hlimit]
      rfl
    rw [hy]
    exact ruleN_exchanged hix hreverses hconjunction hgroup hbang hall hbelow _
  refine ⟨hboth.1, hboth.2, fun hshrink start => ?_⟩
  obtain ⟨d, hd⟩ := exists_rule hshrink (.obj [(n, .arr [v, f])]) negated parent start
  obtain ⟨d', hd', hends⟩ := hboth.1 start d hd
  exact ⟨d, d', hd, hd', hends⟩

end Converter

/-! ## Numbers of cars -/

namespace Cars

/-- Cars with one more operator. -/
def withIs (op : Operator) : Converter :=
  .ofSchema { schema with operators := schema.operators ++ [("is", op)] } []

/-- Lists the value first. -/
def valueFirst : Operator := { name := some "is", reversedArgs := true }

/-- Would list the value first, but has no first name. -/
def secondNameOnly : Operator := { secondName := some "is", reversedArgs := true }

/-- There are so many cars of which a predicate holds, in one order or the other. -/
def numberFirst (number : Int) (predicate : Json) : Json := call "is" [.num (.int number), counted predicate]

def countFirst (number : Int) (predicate : Json) : Json := call "is" [counted predicate, .num (.int number)]

end Cars

namespace Converter

open Cars

/-- Two of the cars are of a vendor: the number first, and the count first. -/
theorem two_cars_in_either_order :
    let c := withIs valueFirst
    let predicate := equals "vendor" "vw"
    c.index = Index.ofSchema c.schema ∧ c.schema.ReversesAll "is" ∧ c.index.conjunction? "is" = none ∧
      "is" ∉ c.schema.settings.groupOperators ∧ "is" ≠ "!" ∧ "is" ≠ "all" ∧
      (∀ q ∈ c.asked (.rule (numberFirst 2 predicate) false none), c.Spares "is" q) ∧
      (c.rule (numberFirst 2 predicate) false none 0).any (fun d => d.value.isSome) = true ∧
      (c.rule (numberFirst 2 predicate) false none).EndAlike
        ((c.declareDirect "is").rule (countFirst 2 predicate) false none) := by
  intro c predicate
  have hbelow : ∀ q ∈ c.asked (.rule (numberFirst 2 predicate) false none), c.Spares "is" q := by
    have hspared : (c.asked (.rule (numberFirst 2 predicate) false none)).all (c.sparesN "is" 2) = true := by
      decide +kernel
    intro q hq
    exact spares_of_sparesN (List.all_eq_true.mp hspared q hq)
  have hreverses : c.schema.ReversesAll "is" := by
    unfold Schema.ReversesAll
    decide +kernel
  have hnames : "is" ∉ c.schema.settings.groupOperators ∧ "is" ≠ "!" ∧ "is" ≠ "all" := by decide +kernel
  obtain ⟨hgroup, hbang, hall⟩ := hnames
  have hconjunction : c.index.conjunction? "is" = none := by decide +kernel
  refine ⟨rfl, hreverses, hconjunction, hgroup, hbang, hall, hbelow, by decide +kernel, ?_⟩
  exact (reversed_as_direct c "is" rfl hreverses hconjunction hgroup hbang hall (counted predicate) (.num (.int 2))
    false none hbelow).2.2 (hooksShrink_of_nil rfl)

end Converter

/-- Every operator of the name with one value is declared with reversed arguments, whether or
not it takes them so. -/
def Schema.DeclaresReversed (s : Schema) (n : String) : Prop :=
  ∀ p ∈ s.operators, p.2.expressionName? = some n → p.2.arity = 1 → p.2.reversedArgs = true

namespace Converter

open Cars

/-- Declared with reversed arguments, `is` does not come to the same when it is declared direct
where it stands in the predicate of a count too, which says something else then, and where it
is a second name, which is never reversed. -/
theorem orders_that_stay :
    (∀ op ∈ [valueFirst, secondNameOnly], (withIs op).schema.DeclaresReversed "is" ∧
      (withIs op).index.conjunction? "is" = none ∧ "is" ∉ (withIs op).schema.settings.groupOperators) ∧
    ¬ ((withIs valueFirst).rule (numberFirst 2 (call "is" [.str "vw", read "vendor"])) false none).EndAlike
      (((withIs valueFirst).declareDirect "is").rule (countFirst 2 (call "is" [.str "vw", read "vendor"]))
        false none) ∧
    ¬ ((withIs secondNameOnly).rule (call "is" [.str "red", read "color"]) false none).EndAlike
      (((withIs secondNameOnly).declareDirect "is").rule (call "is" [read "color", .str "red"]) false none) := by
  refine ⟨?_, ?_, ?_⟩
  · unfold Schema.DeclaresReversed
    decide +kernel
  · exact Run.not_endAlike Option.isSome (by decide +kernel) (by decide +kernel)
  · exact Run.not_endAlike Option.isNone (by decide +kernel) (by decide +kernel)

end Converter
end RuleTree
