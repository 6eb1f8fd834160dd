/-
  RuleTree.Proofs.Parts — the parts of an expression in rule position.

  A negation and a conjunction are about other expressions, and so is a rule with having
  clauses. `parts` splits these into the ones that are converted in rule position as well
  (`kept`) and the ones that nothing looks at (`passed`): a negation has one operand and
  passes any further ones, a rule on a collection has one having clause, any other rule none.
  - `size_lt_of_mem_parts`: parts are smaller than their expression.
  - `ruleCount` counts the rules an expression states, in all its parts, and `passedOver`
    those in parts that were passed; `ruleCount_eq` and `passedOver_eq` count by parts.
  - `having_of_foundRule?`: the clause a rule is converted with is the first of its clauses.
-/

import Mathlib
import RuleTree.Convert.Step
import RuleTree.Proofs.RuleShape

namespace RuleTree

/-! ## Sizes -/

namespace Json

variable {e a : Json} {op : Operation}

theorem size_pos (e : Json) : 0 < e.size := by
  cases e <;> simp [size]

theorem size_le_sizeItems {xs : List Json} (h : a ∈ xs) : a.size ≤ sizeItems xs := by
  induction xs with
  | nil => cases h
  | cons x rest ih =>
    rw [sizeItems]
    rcases List.mem_cons.mp h with rfl | h
    · omega
    · have hrest := ih h
      omega

theorem size_le_sizeEntries {xs : List (String × Json)} {key : String} (h : (key, a) ∈ xs) :
    a.size ≤ sizeEntries xs := by
  induction xs with
  | nil => cases h
  | cons x rest ih =>
    obtain ⟨k, x⟩ := x
    rw [sizeEntries]
    rcases List.mem_cons.mp h with heq | h
    · cases heq
      omega
    · have hrest := ih h
      omega

/-- A value is an argument of an operation. -/
def IsArg (a e : Json) : Prop := ∃ op, e.operation? = some op ∧ a ∈ op.args

/-- A value is an argument somewhere in an expression. -/
def Inside : Json → Json → Prop := Relation.TransGen IsArg

theorem inside_of_mem_args (he : e.operation? = some op) (ha : a ∈ op.args) : a.Inside e :=
  .single ⟨op, he, ha⟩

theorem IsArg.size_lt (h : a.IsArg e) : a.size < e.size := by
  obtain ⟨op, he, ha⟩ := h
  unfold operation? at he
  split at he
  · rename_i name raw
    cases he
    have hsize : (obj [(name, raw)]).size = raw.size + 1 := by simp [size, sizeEntries]
    have hle : a.size ≤ raw.size := by
      cases raw with
      | arr items =>
        have hitem : a.size ≤ sizeItems items := size_le_sizeItems ha
        rw [size]
        omega
      | _ => exact Nat.le_of_eq (congrArg size (List.mem_singleton.mp ha))
    omega
  · cases he

theorem Inside.size_lt (h : a.Inside e) : a.size < e.size := by
  induction h with
  | single h => exact h.size_lt
  | tail _ h ih => exact Nat.lt_trans ih h.size_lt

theorem size_lt_of_mem_args (he : e.operation? = some op) (ha : a ∈ op.args) : a.size < e.size :=
  (inside_of_mem_args he ha).size_lt

end Json

namespace Converter

open Json

variable {c : Converter} {s : RuleShape} {e : Json} {op : Operation} {parent : Option String} {reversed : Bool}

theorem inside_of_mem_values (he : e.operation? = some op) {v : Json}
    (hv : v ∈ (RuleShape.ofOperation op).values) : v.Inside e := by
  unfold RuleShape.ofOperation at hv
  split at hv
  · rename_i first second rest _ hargs
    split at hv
    · rename_i x list more hin
      rcases List.mem_cons.mp hv with rfl | hv
      · exact inside_of_mem_args he (by simp [hargs])
      · -- the list stands in the `in`
        rw [List.mem_singleton.mp hv]
        have hlist : list.Inside second := inside_of_mem_args hin (by simp)
        have hsecond : second.Inside e := inside_of_mem_args he (by simp [hargs])
        exact hlist.trans hsecond
    · exact inside_of_mem_args he hv
  · exact inside_of_mem_args he hv

theorem mem_values_of_layout {x : Json} (h : (layout s reversed).1 = some x ∨ x ∈ (layout s reversed).2) :
    x ∈ s.values := by
  unfold layout at h
  split at h
  · rename_i low field high _ hvalues
    rw [hvalues]
    rcases h with h | h
    · cases h
      simp
    · simp only [List.mem_cons, List.not_mem_nil, or_false] at h
      rcases h with rfl | rfl <;> simp
  · cases reversed with
    | true =>
      rcases h with h | h
      · exact List.mem_of_getElem? h
      · exact List.mem_of_mem_head? (Option.mem_toList.mp h)
    | false =>
      rcases h with h | h
      · exact List.mem_of_mem_head? h
      · exact List.mem_of_mem_tail h

theorem inside_of_recognize? {ix : Index} {j p : Json} {operand : FieldOperand}
    (h : FieldOperand.recognize? ix j = some operand) (hp : operand.having? = some p) : p.Inside j := by
  unfold FieldOperand.recognize? at h
  split at h
  · cases h
  rename_i op hop
  split at h
  · obtain ⟨path, -, rfl⟩ := Option.map_eq_some_iff.mp h
    cases hp
  split at h
  · split at h
    · rename_i source acc init hargs
      split at h
      · -- only a `filter` has a predicate
        unfold FieldOperand.ofSource? at h
        split at h
        · rename_i filter hfilter
          split at h
          · obtain ⟨path, -, rfl⟩ := Option.map_eq_some_iff.mp h
            have hpred : p.Inside source := inside_of_mem_args hfilter (List.mem_of_getElem? hp)
            have hsource : source.Inside j := inside_of_mem_args hop (by simp [hargs])
            exact hpred.trans hsource
          · obtain ⟨path, -, rfl⟩ := Option.map_eq_some_iff.mp h
            cases hp
        · cases h
      · cases h
    · cases h
  · cases h

/-! ## Having clauses -/

/-- The rule an expression is, and whether its field comes second. -/
def foundRule? (c : Converter) (s : RuleShape) (parent : Option String) : Option (ParsedRule × Bool) :=
  match c.tryParse s parent false, c.tryParse s parent true with
  | .ok r, _ => some (r, false)
  | .error _, .ok r => some (r, true)
  | .error _, .error _ => none

/-- The having clauses in one layout: the predicate of a count, and with an operator on
collections the argument beside the field. -/
def clauses (c : Converter) (s : RuleShape) (reversed : Bool) : List Json :=
  (((layout s reversed).1.bind (FieldOperand.recognize? c.index)).bind FieldOperand.having?).toList ++
    if c.isGroupOp s then (layout s reversed).2.head?.toList else []

theorem foundRule?_of_parseRule {r : ParsedRule} (h : c.parseRule e s parent = .ok r) :
    ∃ reversed, c.foundRule? s parent = some (r, reversed) := by
  unfold foundRule?
  rcases parseRule_eq_ok.mp h with h | ⟨⟨d, hd⟩, h⟩
  · exact ⟨false, by rw [h]⟩
  · exact ⟨true, by rw [hd, h]⟩

theorem tryParse_of_foundRule? {r : ParsedRule} (h : c.foundRule? s parent = some (r, reversed)) :
    c.tryParse s parent reversed = .ok r := by
  unfold foundRule? at h
  split at h
  · rename_i h₁
    cases h
    exact h₁
  · rename_i h₂
    cases h
    exact h₂
  · cases h

/-- The clause a rule is converted with is the first there is. -/
theorem having_of_foundRule? {r : ParsedRule} (h : c.foundRule? s parent = some (r, reversed)) :
    r.having = (c.clauses s reversed).head? := by
  have htry := tryParse_of_foundRule? h
  obtain ⟨_, fieldExpr, operand, _, _, -, hfield, -, hrec, -, -, rfl⟩ := tryParse_eq_ok.mp htry
  simp only [found, clauses, hfield, Option.bind_some, hrec, List.head?_append]
  cases operand.having? with
  | some p => rfl
  | none =>
    split
    · cases (layout s reversed).2 <;> rfl
    · rfl

theorem inside_of_mem_clauses (he : e.operation? = some op) {clause : Json}
    (h : clause ∈ c.clauses (.ofOperation op) reversed) : clause.Inside e := by
  rcases List.mem_append.mp h with h | h
  · obtain ⟨operand, hrec, hp⟩ := Option.bind_eq_some_iff.mp (Option.mem_toList.mp h)
    obtain ⟨fieldExpr, hfield, hrec⟩ := Option.bind_eq_some_iff.mp hrec
    exact (inside_of_recognize? hrec hp).trans (inside_of_mem_values he (mem_values_of_layout (.inl hfield)))
  · split at h
    · have harg := List.mem_of_mem_head? (Option.mem_toList.mp h)
      exact inside_of_mem_values he (mem_values_of_layout (.inr harg))
    · cases h

/-! ## Parts -/

/-- The expressions in rule position inside of one. -/
structure Parts where
  /-- One for a rule, none for what is about other expressions only. -/
  rules : Nat
  /-- The path the parts are relative to. -/
  parent : Option String
  kept : List Json
  /-- Nothing looks at these. -/
  passed : List Json

/-- The arguments of a conjunction; any other expression alone. -/
def conjuncts (c : Converter) (e : Json) : List Json :=
  match e.operation?.bind fun op => (c.index.conjunction? op.name).map fun _ => op.args with
  | some args => args
  | none => [e]

/-- The parts of a rule with these having clauses. The negation heading the clause on a
collection goes to the rule and is never a test for emptiness. -/
def clauseParts (c : Converter) (r : ParsedRule) : List Json → Parts
  | [] => ⟨1, some r.path, [], []⟩
  | clause :: rest =>
    match r.field.isGroup, clause.operation? with
    | true, some ⟨"!", args⟩ => ⟨1, some r.path, args.head?.toList.flatMap c.conjuncts, args.tail ++ rest⟩
    | true, _ => ⟨1, some r.path, c.conjuncts clause, rest⟩
    | false, _ => ⟨1, some r.path, [], clause :: rest⟩

def parts (c : Converter) (parent : Option String) (e : Json) : Parts :=
  match e.operation? with
  | none => ⟨0, parent, [], []⟩
  | some op =>
    if op.name == "!" && !c.isEmptinessTest op.args then ⟨0, parent, op.args.head?.toList, op.args.tail⟩
    else if (c.index.conjunction? op.name).isSome then ⟨0, parent, op.args, []⟩
    else
      match c.foundRule? (.ofOperation op) parent with
      | some (r, reversed) => c.clauseParts r (c.clauses (.ofOperation op) reversed)
      | none => ⟨1, parent, [], c.clauses (.ofOperation op) false⟩

theorem size_le_of_mem_conjuncts {a : Json} (h : a ∈ c.conjuncts e) : a.size ≤ e.size := by
  unfold conjuncts at h
  split at h
  · rename_i args hconj
    obtain ⟨op, hop, hargs⟩ := Option.bind_eq_some_iff.mp hconj
    obtain ⟨_, -, rfl⟩ := Option.map_eq_some_iff.mp hargs
    exact Nat.le_of_lt (size_lt_of_mem_args hop h)
  · exact Nat.le_of_eq (congrArg size (List.mem_singleton.mp h))

theorem mem_of_mem_head?_or_tail {α : Type} {as : List α} {a : α} (h : a ∈ as.head?.toList ∨ a ∈ as.tail) :
    a ∈ as := by
  rcases h with h | h
  · exact List.mem_of_mem_head? (Option.mem_toList.mp h)
  · exact List.mem_of_mem_tail h

theorem size_le_of_mem_clauseParts {r : ParsedRule} {clauses : List Json} {a : Json}
    (h : a ∈ (c.clauseParts r clauses).kept ++ (c.clauseParts r clauses).passed) :
    ∃ clause ∈ clauses, a.size ≤ clause.size := by
  cases clauses with
  | nil => cases h
  | cons clause rest =>
    unfold clauseParts at h
    simp only at h
    split at h
    · rename_i args _ hop
      have harg : ∀ x, x ∈ args.head?.toList ∨ x ∈ args.tail → x.size ≤ clause.size := fun x hx =>
        Nat.le_of_lt (size_lt_of_mem_args hop (mem_of_mem_head?_or_tail hx))
      rcases List.mem_append.mp h with h | h
      · obtain ⟨x, hx, ha⟩ := List.mem_flatMap.mp h
        exact ⟨clause, by simp, Nat.le_trans (size_le_of_mem_conjuncts ha) (harg x (.inl hx))⟩
      · rcases List.mem_append.mp h with h | h
        · exact ⟨clause, by simp, harg a (.inr h)⟩
        · exact ⟨a, by simp [h], Nat.le_refl _⟩
    · rcases List.mem_append.mp h with h | h
      · exact ⟨clause, by simp, size_le_of_mem_conjuncts h⟩
      · exact ⟨a, by simp [h], Nat.le_refl _⟩
    · exact ⟨a, by simpa using h, Nat.le_refl _⟩

/-- The parts of an expression are smaller. -/
theorem size_lt_of_mem_parts {a : Json} (h : a ∈ (c.parts parent e).kept ++ (c.parts parent e).passed) :
    a.size < e.size := by
  unfold parts at h
  split at h
  · cases h
  rename_i op he
  split at h
  · rcases List.mem_append.mp h with h | h
    · exact size_lt_of_mem_args he (mem_of_mem_head?_or_tail (.inl h))
    · exact size_lt_of_mem_args he (mem_of_mem_head?_or_tail (.inr h))
  split at h
  · rw [List.append_nil] at h
    exact size_lt_of_mem_args he h
  · split at h
    · obtain ⟨clause, hclause, hle⟩ := size_le_of_mem_clauseParts h
      exact Nat.lt_of_le_of_lt hle (inside_of_mem_clauses he hclause).size_lt
    · exact (inside_of_mem_clauses he h).size_lt

/-! ## Rules counted -/

/-- The rules an expression states, with so many nested steps. -/
def ruleCountN (c : Converter) : Nat → Option String → Json → Nat
  | 0, _, _ => 0
  | k + 1, parent, e =>
    let ps := c.parts parent e
    ps.rules + ((ps.kept ++ ps.passed).map (ruleCountN c k ps.parent)).sum

/-- The rules in parts that are passed over, with so many nested steps. -/
def passedOverN (c : Converter) : Nat → Option String → Json → Nat
  | 0, _, _ => 0
  | k + 1, parent, e =>
    let ps := c.parts parent e
    (ps.kept.map (passedOverN c k ps.parent)).sum + (ps.passed.map (ruleCountN c k ps.parent)).sum

/-- The rules an expression states. -/
def ruleCount (c : Converter) (parent : Option String) (e : Json) : Nat := c.ruleCountN e.size parent e

/-- The rules in parts of an expression that are passed over. -/
def passedOver (c : Converter) (parent : Option String) (e : Json) : Nat := c.passedOverN e.size parent e

/-- Steps beyond the size of the expression count nothing more. -/
theorem ruleCountN_eq {k l : Nat} (hk : e.size ≤ k) (hl : e.size ≤ l) :
    c.ruleCountN k parent e = c.ruleCountN l parent e := by
  induction k generalizing l e parent with
  | zero =>
    have hpos := size_pos e
    omega
  | succ k ih =>
    cases l with
    | zero =>
      have hpos := size_pos e
      omega
    | succ l =>
      rw [ruleCountN, ruleCountN]
      congr 2
      refine List.map_congr_left fun a ha => ?_
      have hlt := size_lt_of_mem_parts ha
      exact ih (by omega) (by omega)

theorem passedOverN_eq {k l : Nat} (hk : e.size ≤ k) (hl : e.size ≤ l) :
    c.passedOverN k parent e = c.passedOverN l parent e := by
  induction k generalizing l e parent with
  | zero =>
    have hpos := size_pos e
    omega
  | succ k ih =>
    cases l with
    | zero =>
      have hpos := size_pos e
      omega
    | succ l =>
      rw [passedOverN, passedOverN]
      congr 2
      · refine List.map_congr_left fun a ha => ?_
        have hlt := size_lt_of_mem_parts (List.mem_append_left _ ha)
        exact ih (by omega) (by omega)
      · refine List.map_congr_left fun a ha => ?_
        have hlt := size_lt_of_mem_parts (List.mem_append_right _ ha)
        exact ruleCountN_eq (by omega) (by omega)

/-- The rules of a list of parts. -/
def ruleCountAll (c : Converter) (parent : Option String) (es : List Json) : Nat :=
  (es.map (c.ruleCount parent)).sum

def passedOverAll (c : Converter) (parent : Option String) (es : List Json) : Nat :=
  (es.map (c.passedOver parent)).sum

theorem ruleCount_eq (c : Converter) (parent : Option String) (e : Json) :
    c.ruleCount parent e = (c.parts parent e).rules +
      (c.ruleCountAll (c.parts parent e).parent (c.parts parent e).kept +
        c.ruleCountAll (c.parts parent e).parent (c.parts parent e).passed) := by
  have hmore : c.ruleCount parent e = c.ruleCountN (e.size + 1) parent e :=
    ruleCountN_eq (Nat.le_refl _) (Nat.le_succ _)
  rw [hmore, ruleCountN, ruleCountAll, ruleCountAll, ← List.sum_append, ← List.map_append]
  congr 2
  refine List.map_congr_left fun a ha => ?_
  exact ruleCountN_eq (Nat.le_of_lt (size_lt_of_mem_parts ha)) (Nat.le_refl _)

theorem passedOver_eq (c : Converter) (parent : Option String) (e : Json) :
    c.passedOver parent e = c.passedOverAll (c.parts parent e).parent (c.parts parent e).kept +
      c.ruleCountAll (c.parts parent e).parent (c.parts parent e).passed := by
  have hmore : c.passedOver parent e = c.passedOverN (e.size + 1) parent e :=
    passedOverN_eq (Nat.le_refl _) (Nat.le_succ _)
  rw [hmore, passedOverN, passedOverAll, ruleCountAll]
  congr 2
  · refine List.map_congr_left fun a ha => ?_
    have hlt := size_lt_of_mem_parts (List.mem_append_left _ ha)
    exact passedOverN_eq (Nat.le_of_lt hlt) (Nat.le_refl _)
  · refine List.map_congr_left fun a ha => ?_
    have hlt := size_lt_of_mem_parts (List.mem_append_right _ ha)
    exact ruleCountN_eq (Nat.le_of_lt hlt) (Nat.le_refl _)

end Converter
end RuleTree
