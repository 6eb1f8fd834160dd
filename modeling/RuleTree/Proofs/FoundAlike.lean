/-
  RuleTree.Proofs.FoundAlike — rules that are found alike.

  Of two tries at rules one finds a rule that is related to the other's, or both fail for reasons
  of one kind (`FoundAlike`). The rules of an expression follow its tries, the second of which
  counts when the first one fails.
  - `tryParse_foundAlike`: tries that look at the same operators find rules that correspond
  (`Corresponds`) or fail alike, when the expressions of the field name the same (`NameAlike`)
  and the values and the clauses are related.
  - `parseRule_foundAlike`: rules whose tries are alike are alike.
  - `parseRule_of_swapsClause`: so rules that differ in their clause only are found alike, the
  clause being a having clause or the predicate of a count, as long as the layout it stands in
  is the one that counts (`Counts`).
-/

import Mathlib.Data.List.Forall2
import RuleTree.Proofs.RuleShape

namespace RuleTree
namespace Converter

variable {c c' : Converter} {s s' : RuleShape} {parent parent' : Option String}

/-! ## Options that are related -/

theorem rel_cases {α β : Type} {R : α → β → Prop} {x : Option α} {y : Option β} (h : Option.Rel R x y) :
    (x = none ∧ y = none) ∨ ∃ a b, x = some a ∧ y = some b ∧ R a b := by
  cases h with
  | none => exact .inl ⟨rfl, rfl⟩
  | some hab => exact .inr ⟨_, _, rfl, rfl, hab⟩

theorem exists_of_rel_some {α β : Type} {R : α → β → Prop} {a : α} {y : Option β}
    (h : Option.Rel R (some a) y) : ∃ b, y = some b ∧ R a b := by
  cases h with
  | some hab => exact ⟨_, rfl, hab⟩

theorem eq_none_of_rel_none {α β : Type} {R : α → β → Prop} {y : Option β} (h : Option.Rel R none y) :
    y = none := by
  cases h
  rfl

theorem rel_head? {α β : Type} {R : α → β → Prop} {xs : List α} {ys : List β} (h : List.Forall₂ R xs ys) :
    Option.Rel R xs.head? ys.head? := by
  cases h with
  | nil => exact .none
  | cons hxy _ => exact .some hxy

theorem rel_map_of_forall {α β : Type} {R : α → β → Prop} {x : Option α} {f : α → β}
    (h : ∀ a, x = some a → R a (f a)) : Option.Rel R x (x.map f) := by
  cases x with
  | none => exact .none
  | some a => exact .some (h a rfl)

theorem rel_or {α β : Type} {R : α → β → Prop} {x y : Option α} {x' y' : Option β} (hx : Option.Rel R x x')
    (hy : Option.Rel R y y') : Option.Rel R (x.or y) (x'.or y') := by
  cases hx with
  | some h => exact .some h
  | none => exact hy

theorem rel_of_eq {α : Type} {R : α → α → Prop} (h : ∀ a, R a a) {x : Option α} : Option.Rel R x x := by
  cases x with
  | none => exact .none
  | some a => exact .some (h a)

/-! ## Rules found alike -/

/-- Results that are related, or failures of one kind. -/
def FoundAlike {ε α κ : Type} (kind : ε → κ) (R : α → α → Prop) : Except ε α → Except ε α → Prop
  | .ok a, .ok b => R a b
  | .error x, .error y => kind y = kind x
  | _, _ => False

theorem foundAlike_cases {ε α κ : Type} {kind : ε → κ} {R : α → α → Prop} {x y : Except ε α}
    (h : FoundAlike kind R x y) :
    (∃ a b, x = .ok a ∧ y = .ok b ∧ R a b) ∨ ∃ p q, x = .error p ∧ y = .error q ∧ kind q = kind p := by
  cases x with
  | ok a =>
    cases y with
    | ok b => exact .inl ⟨a, b, rfl, rfl, h⟩
    | error q => exact h.elim
  | error p =>
    cases y with
    | ok b => exact h.elim
    | error q => exact .inr ⟨p, q, rfl, rfl, h⟩

/-- Rules with tries that are alike are alike; the second try counts when the first one fails. -/
theorem parseRule_foundAlike {R : ParsedRule → ParsedRule → Prop}
    (h : FoundAlike (Option.map RuleFault.kind) R (c.tryParse s parent false) (c'.tryParse s' parent' false))
    (h' : (∃ r, c.tryParse s parent false = .ok r) ∨
      FoundAlike (Option.map RuleFault.kind) R (c.tryParse s parent true) (c'.tryParse s' parent' true))
    (e e' : Json) :
    FoundAlike Problem.kind R (c.parseRule e s parent) (c'.parseRule e' s' parent') := by
  rcases foundAlike_cases h with ⟨r, r', hd, hd', hrr⟩ | ⟨d, d', hd, hd', hfirst⟩
  · rw [parseRule_eq_ok.mpr (.inl hd), parseRule_eq_ok.mpr (.inl hd')]
    exact hrr
  · -- only now the second try is looked at
    have htrue := h'.resolve_left (by simp [hd])
    rcases foundAlike_cases htrue with ⟨r, r', hr, hr', hrr⟩ | ⟨f, f', hr, hr', hsecond⟩
    · rw [parseRule_eq_ok.mpr (.inr ⟨⟨d, hd⟩, hr⟩), parseRule_eq_ok.mpr (.inr ⟨⟨d', hd'⟩, hr'⟩)]
      exact hrr
    · obtain ⟨p, hp, hk⟩ := parseRule_eq_error (e := e) hd hr
      obtain ⟨p', hp', hk'⟩ := parseRule_eq_error (e := e') hd' hr'
      rw [hfirst, hsecond, ← hk] at hk'
      rw [hp, hp']
      exact hk'

/-! ## Rules that correspond -/

/-- Under its own parent each, both name the same field, with predicates that are related, or
neither names one. -/
def NameAlike (c c' : Converter) (H : Json → Json → Prop) (parent parent' : Option String) (x x' : Json) : Prop :=
  Option.Rel (fun operand operand' =>
      c'.composePath parent' operand'.path = c.composePath parent operand.path ∧
        Option.Rel H operand.having? operand'.having?)
    (FieldOperand.recognize? c.index x) (FieldOperand.recognize? c'.index x')

/-- Rules on one field with one operator, their values and their having clauses related. -/
structure Corresponds (V H : Json → Json → Prop) (r r' : ParsedRule) : Prop where
  rest : r' = { r with args := r'.args, having := r'.having }
  args : List.Forall₂ V r.args r'.args
  having : Option.Rel H r.having r'.having

/-- Rules with the same values are the same but for the clause. -/
theorem Corresponds.eq_but_having {H : Json → Json → Prop} {r r' : ParsedRule} (h : Corresponds (· = ·) H r r') :
    r' = { r with having := r'.having } := by
  have hrest := h.rest
  have hvalues : r'.args = r.args := (List.forall₂_eq_eq_eq ▸ h.args).symm
  rwa [hvalues] at hrest

/-- Nothing but the values and the clauses can differ. -/
theorem Corresponds.eq {r r' : ParsedRule} (h : Corresponds (· = ·) (· = ·) r r') : r' = r := by
  have hclause : r'.having = r.having := by
    rcases rel_cases h.having with ⟨hx, hx'⟩ | ⟨x, _, hx, hx', rfl⟩
    · rw [hx, hx']
    · rw [hx, hx']
  rw [h.eq_but_having, hclause]

section Tries

variable {V H : Json → Json → Prop} {reversed reversed' : Bool}

/-- Two tries over the same fields find rules that correspond, or fail alike, when they look at
the same operators, the expressions of the field name the same, and the values and the clauses
are related. -/
theorem tryParse_foundAlike (hfields : c'.fields = c.fields)
    (hgroup : c'.isGroupOp s' = c.isGroupOp s) (harity : s'.arity = s.arity)
    (hkeys : ∀ arity, c.wantedArity? s = some arity →
      c'.index.operatorKeys ⟨s'.op, arity, reversed'⟩ = c.index.operatorKeys ⟨s.op, arity, reversed⟩)
    (hfield : Option.Rel
      (fun x x' => x'.isOperation = x.isOperation ∧ NameAlike c c' H parent parent' x x')
      (layout s reversed).1 (layout s' reversed').1)
    (hargs : c.isGroupOp s = false → List.Forall₂ V (layout s reversed).2 (layout s' reversed').2)
    (hclause : c.isGroupOp s = true →
      Option.Rel H (layout s reversed).2.head? (layout s' reversed').2.head?) :
    FoundAlike (Option.map RuleFault.kind) (Corresponds V H) (c.tryParse s parent reversed)
      (c'.tryParse s' parent' reversed') := by
  have hwanted : c'.wantedArity? s' = c.wantedArity? s := by
    rw [wantedArity?, wantedArity?, hgroup, harity]
  unfold tryParse
  rw [hwanted, hgroup, hfields]
  generalize layout s reversed = l at hfield hargs hclause ⊢
  generalize layout s' reversed' = l' at hfield hargs hclause ⊢
  obtain ⟨x?, args⟩ := l
  obtain ⟨x'?, args'⟩ := l'
  simp only at hfield hargs hclause
  have hvalues : List.Forall₂ V (if c.isGroupOp s then [] else args) (if c.isGroupOp s then [] else args') := by
    by_cases hgs : c.isGroupOp s = true
    · rw [if_pos hgs, if_pos hgs]
      exact .nil
    · rw [if_neg hgs, if_neg hgs]
      exact hargs (by simpa using hgs)
  have hclauses : Option.Rel H (if c.isGroupOp s then args.head? else none)
      (if c.isGroupOp s then args'.head? else none) := by
    by_cases hgs : c.isGroupOp s = true
    · rw [if_pos hgs, if_pos hgs]
      exact hclause hgs
    · rw [if_neg hgs, if_neg hgs]
      exact .none
  cases ha : c.wantedArity? s with
  | none => rfl
  | some arity =>
    simp only [hkeys arity ha]
    by_cases hnone : (c.index.operatorKeys ⟨s.op, arity, reversed⟩).isEmpty = true
    · rw [if_pos hnone, if_pos hnone]
      rfl
    rw [if_neg hnone, if_neg hnone]
    cases hfield with
    | none => rfl
    | @some x x' hx =>
      obtain ⟨hop, hnames⟩ := hx
      rw [Option.filter_some, Option.filter_some, hop]
      by_cases hx : x.isOperation = true
      · rw [if_pos hx, if_pos hx]
        simp only
        unfold NameAlike at hnames
        generalize FieldOperand.recognize? c.index x = y at hnames ⊢
        generalize FieldOperand.recognize? c'.index x' = y' at hnames ⊢
        cases hnames with
        | none => rfl
        | @some operand operand' hsame =>
          obtain ⟨hpath, hhaving⟩ := hsame
          simp only
          rw [hpath]
          cases c.fields.resolve (c.composePath parent operand.path) with
          | none => rfl
          | some field =>
            simp only
            cases chooseOp field (c.composePath parent operand.path)
              (c.index.operatorKeys ⟨s.op, arity, reversed⟩) with
            | error d => rfl
            | ok op => exact ⟨rfl, hvalues, rel_or hhaving hclauses⟩
      · rw [if_neg hx, if_neg hx]
        rfl

end Tries

/-! ## Rules that differ in a clause -/

/-- A count of the elements that a predicate keeps. -/
def countOf (source predicate : Json) (more : List Json) (acc init : Json) : Json :=
  .obj [("reduce", .arr [.obj [("filter", .arr (source :: predicate :: more))], acc, init])]

/-- In one layout two rules are the same but for a clause: the having clause of an operator
on collections, or the predicate of a count where the field is. -/
structure SwapsClause (c : Converter) (clause clause' : Json) (reversed : Bool) (s s' : RuleShape) : Prop where
  op : s'.op = s.op
  arity : s'.arity = s.arity
  isGroupOp : c.isGroupOp s' = c.isGroupOp s
  layout :
    (c.isGroupOp s = true ∧ ∃ field rest,
      layout s reversed = (field, clause :: rest) ∧ layout s' reversed = (field, clause' :: rest)) ∨
    ∃ source more acc init args,
      layout s reversed = (some (countOf source clause more acc init), args) ∧
        layout s' reversed = (some (countOf source clause' more acc init), args)

/-- The same expression, or the one clause for the other. -/
def Swapped (clause clause' p p' : Json) : Prop := p' = p ∨ p = clause ∧ p' = clause'

variable {clause clause' : Json} {reversed : Bool}

/-- Rules on the same values are the same, or the one has the one clause and the other the other. -/
theorem Corresponds.eq_or_swapped {r r' : ParsedRule} (h : Corresponds (· = ·) (Swapped clause clause') r r') :
    r' = r ∨ r.having = some clause ∧ r' = { r with having := some clause' } := by
  have heq := h.eq_but_having
  rcases rel_cases h.having with ⟨hp, hp'⟩ | ⟨p, p', hp, hp', hpp'⟩
  · left
    rw [heq, hp', ← hp]
  · rw [hp'] at heq
    cases hpp' with
    | inl hsame =>
      left
      rw [heq, hsame, ← hp]
    | inr hswap =>
      right
      rw [← hswap.1, ← hswap.2]
      exact ⟨hp, heq⟩

/-- The predicate of a count has no part in what the count names. -/
theorem nameAlike_countOf (c : Converter) (parent : Option String) (source clause clause' : Json) (more : List Json)
    (acc init : Json) :
    NameAlike c c (Swapped clause clause') parent parent (countOf source clause more acc init)
      (countOf source clause' more acc init) := by
  have hrec : ∀ p, FieldOperand.recognize? c.index (countOf source p more acc init) =
      if c.index.isVarKey "reduce" = true then none
      else if (FieldOperand.isZeroNum init && FieldOperand.isIncrement acc) = true then
        (FieldOperand.readPath? c.index source).map fun path => .filtered path (some p)
      else none := fun p => rfl
  unfold NameAlike
  rw [hrec, hrec]
  split
  · exact .none
  split
  · cases FieldOperand.readPath? c.index source with
    | none => exact .none
    | some path => exact .some ⟨rfl, .some (.inr ⟨rfl, rfl⟩)⟩
  · exact .none

theorem tryParse_of_swapsClause (h : SwapsClause c clause clause' reversed s s') (parent : Option String) :
    FoundAlike (Option.map RuleFault.kind) (Corresponds (· = ·) (Swapped clause clause'))
      (c.tryParse s parent reversed) (c.tryParse s' parent reversed) := by
  have hrefl : ∀ p, Swapped clause clause' p p := fun p => .inl rfl
  have hkeys : ∀ arity, c.wantedArity? s = some arity →
      c.index.operatorKeys ⟨s'.op, arity, reversed⟩ = c.index.operatorKeys ⟨s.op, arity, reversed⟩ := by
    intro arity _
    rw [h.op]
  rcases h.layout with ⟨hg, field, rest, hl, hl'⟩ | ⟨source, more, acc, init, args, hl, hl'⟩
  · -- the field is the same, and the clause stands first among the values
    apply tryParse_foundAlike rfl h.isGroupOp h.arity hkeys
    · rw [hl, hl']
      exact rel_of_eq fun x => ⟨rfl, rel_of_eq fun operand => ⟨rfl, rel_of_eq hrefl⟩⟩
    · intro hg'
      rw [hg] at hg'
      cases hg'
    · intro _
      rw [hl, hl']
      exact .some (.inr ⟨rfl, rfl⟩)
  · -- the values are the same, and the field is that of the count
    apply tryParse_foundAlike rfl h.isGroupOp h.arity hkeys
    · rw [hl, hl']
      exact .some ⟨rfl, nameAlike_countOf c parent source clause clause' more acc init⟩
    · intro _
      rw [hl, hl']
      exact List.forall₂_refl args
    · intro _
      rw [hl, hl']
      exact rel_of_eq hrefl

/-- One layout counts for two rules: the field comes first and is found there, or the other
layout finds no rule, for reasons of one kind. -/
def Counts (c : Converter) (parent : Option String) (reversed : Bool) (s s' : RuleShape) : Prop :=
  (reversed = false ∧ ∃ r, c.tryParse s parent false = .ok r) ∨
    ∃ d d', c.tryParse s parent (!reversed) = .error d ∧ c.tryParse s' parent (!reversed) = .error d' ∧
      d'.map RuleFault.kind = d.map RuleFault.kind

/-- A rule with another clause in the layout that counts is the same rule but for the clause. -/
theorem parseRule_of_swapsClause (h : SwapsClause c clause clause' reversed s s')
    (hc : c.Counts parent reversed s s') (e e' : Json) :
    FoundAlike Problem.kind (Corresponds (· = ·) (Swapped clause clause')) (c.parseRule e s parent)
      (c.parseRule e' s' parent) := by
  have htry := tryParse_of_swapsClause h parent
  rcases hc with ⟨rfl, hr⟩ | ⟨d, d', hd, hd', hk⟩
  · exact parseRule_foundAlike htry (.inl hr) e e'
  · have hother : FoundAlike (Option.map RuleFault.kind) (Corresponds (· = ·) (Swapped clause clause'))
        (c.tryParse s parent (!reversed)) (c.tryParse s' parent (!reversed)) := by
      rw [hd, hd']
      exact hk
    cases reversed with
    | false => exact parseRule_foundAlike htry (.inr hother) e e'
    | true => exact parseRule_foundAlike hother (.inr htry) e e'

end Converter
end RuleTree
