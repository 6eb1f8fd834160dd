/-
  RuleTree.Proofs.Truth — when expressions and trees are true of a record.

  A model says which rules hold of a record, which records are the elements of its
  collections, and what the conjunction and operator keys of a schema mean. Rules are
  valued twice, as an expression states them (`Atom`) and as a tree holds them; the two
  agree on a rule that is converted, and an operator and its inverse disagree
  (`Valuation`). The arguments of an atom are those that the rule is parsed with: what its
  layout does not pick (`operandsLeft` of `Operands`) is no part of what an expression says,
  so that nothing proved here tells whether a rule has all the operands it was written with.
  - `Formula` is what an expression says, `Formula.truth` when it holds; `Node.truth` is
    when a node holds.
  - `States` relates an expression to what it says, for expressions made of `and`, `or`,
    `!`, rules and having clauses on collections.

  Proved: the truth of a node does not depend on names (`truth_rename`), and nodes of one
  shape are true of the same records (`truth_of_sameShape`).
-/

import RuleTree.Proofs.Step

namespace RuleTree

/-! ## Connectives and quantifiers -/

inductive Connective where
  | all
  | any
deriving DecidableEq, Repr

namespace Connective

def eval : Connective → List Bool → Bool
  | all, bs => bs.all id
  | any, bs => bs.any id

/-- `and` and `or`, in letters of any case. -/
def ofName? (name : String) : Option Connective :=
  if Text.lower name = "and" then some all
  else if Text.lower name = "or" then some any
  else none

@[simp] theorem eval_singleton (k : Connective) (b : Bool) : k.eval [b] = b := by
  cases k <;> simp [eval]

theorem eval_perm (k : Connective) {as bs : List Bool} (h : as.Perm bs) : k.eval as = k.eval bs := by
  cases k
  · exact h.all_eq
  · exact h.any_eq

/-- A list nested under the same connective can be taken in. -/
theorem eval_append (k : Connective) (as bs : List Bool) :
    k.eval (as ++ bs) = k.eval [k.eval as, k.eval bs] := by
  cases k <;> simp [eval]

end Connective

/-- How the elements of a collection are to satisfy a having clause. -/
inductive Quantifier where
  | some
  | all
  | none
deriving DecidableEq, Repr

namespace Quantifier

def name : Quantifier → String
  | some => "some"
  | all => "all"
  | none => "none"

theorem name_ne_bang (q : Quantifier) : q.name ≠ "!" := by
  cases q <;> decide

def eval : Quantifier → List Bool → Bool
  | some, bs => bs.any id
  | all, bs => bs.all id
  | none, bs => !bs.any id

end Quantifier

/-! ## Models -/

/-- A rule as an expression states it: field, operator and the expressions of the values that
are picked for it, which are read under a parent path. -/
structure Atom where
  parent : Option String
  path : String
  op : String
  args : List Json

/-- The rule an atom is converted to. -/
def Converter.Becomes (c : Converter) (a : Atom) (p : RuleProps) : Prop :=
  ∃ f operands limit n m, c.fields.resolve a.path = some f ∧
    (Run.collect (fun e => c.valueN limit e (.ofField f (c.widgetFor a.path a.op)) a.parent) a.args).Gives
      n (some operands) m ∧
    p = { field := a.path, operator := a.op, args := operands, async := operands.findSome? Operand.async }

/-- Truth of rules, the same in expressions and in trees, where an operator and its inverse
exclude each other and leave nothing out. -/
structure Valuation (c : Converter) where
  atom : Atom → Bool
  rule : RuleProps → Bool
  rule_eq : ∀ {a p}, c.Becomes a p → rule p = atom a
  atom_inverse : ∀ {a inv}, c.inverse? a.op = some inv → atom { a with op := inv } = !atom a

structure Model (c : Converter) where
  Record : Type
  /-- The elements of the collection at a path. -/
  elements : Record → String → List Record
  valuation : Record → Valuation c
  /-- What a conjunction key says. -/
  connective : String → Connective
  connective_eq : ∀ {key k}, Connective.ofName? key = some k → connective key = k
  /-- What an operator key says of the elements of a collection, of which some satisfy the
  having clause and some do not. -/
  quantifier : String → List Bool → Bool

/-- Rules with equal properties are valued alike. -/
def Model.SeesProps {c : Converter} (M : Model c) : Prop :=
  ∀ r p q, RuleProps.same p q = true → (M.valuation r).rule p = (M.valuation r).rule q

/-- The group operators mean what their names say, and inverses exclude each other. -/
structure Model.Quantifies {c : Converter} (M : Model c) : Prop where
  quantifier_eq : ∀ {q : Quantifier} {key}, key ∈ c.index.operatorKeys ⟨q.name, 0, false⟩ →
    ∀ bs, M.quantifier key bs = q.eval bs
  quantifier_inverse : ∀ {op inv}, c.inverse? op = some inv →
    ∀ bs, M.quantifier inv bs = !M.quantifier op bs

/-! ## Expressions -/

/-- What an expression says. -/
inductive Formula where
  | atom (a : Atom)
  | not (f : Formula)
  | conj (k : Connective) (fs : List Formula)
  /-- So many elements of the collection satisfy a formula. -/
  | each (q : Quantifier) (path : String) (having : Formula)

namespace Formula

variable {c : Converter}

mutual

def truth (M : Model c) : Formula → M.Record → Bool
  | atom a, r => (M.valuation r).atom a
  | not f, r => !f.truth M r
  | conj k fs, r => k.eval (truths M fs r)
  | each q path f, r => q.eval ((M.elements r path).map (f.truth M))

def truths (M : Model c) : List Formula → M.Record → List Bool
  | [], _ => []
  | f :: rest, r => f.truth M r :: truths M rest r

end

mutual

/-- Nothing is said of the elements of a collection. -/
def propositional : Formula → Bool
  | atom _ => true
  | not f => f.propositional
  | conj _ fs => propositionals fs
  | each .. => false

def propositionals : List Formula → Bool
  | [] => true
  | f :: rest => f.propositional && propositionals rest

end

theorem truths_eq_map (M : Model c) (fs : List Formula) (r : M.Record) :
    truths M fs r = fs.map (truth M · r) := by
  induction fs with
  | nil => simp [truths]
  | cons f rest ih => simp [truths, ih]

theorem propositionals_iff (fs : List Formula) :
    propositionals fs = true ↔ ∀ f ∈ fs, f.propositional = true := by
  induction fs with
  | nil => simp [propositionals]
  | cons f rest ih => simp [propositionals, ih]

end Formula

namespace Converter

/-- How a negation at the head of a having clause is understood: as a part of the clause,
or as a negation of the whole rule. -/
inductive HavingNegation where
  | inside
  | outside

/-- The operator is one on collections and always has the collection first, so its second
argument is a having clause; `all` over an `in` is not such an operator. -/
def TakesHaving (c : Converter) (op : Operation) : Prop :=
  c.isGroupOp ⟨op.name, op.args.length, op.args⟩ = true ∧ c.index.operatorKeys ⟨op.name, 0, true⟩ = []

mutual

/-- Under a parent path, an expression says a formula. -/
inductive States (c : Converter) (style : HavingNegation) : Option String → Json → Formula → Prop
  | negation {parent e x f} (he : e.operation? = some ⟨"!", [x]⟩) (hx : c.isEmptinessTest [x] = false)
      (hbang : c.index.conjunction? "!" = none) (h : States c style parent x f) : States c style parent e (.not f)
  | conjunction {parent e name args key k fs} (he : e.operation? = some ⟨name, args⟩)
      (hkey : c.index.conjunction? name = some key) (hk : Connective.ofName? name = some k)
      (h : StatesAll c style parent args fs) : States c style parent e (.conj k fs)
  | rule {parent e op r} (he : e.operation? = some op) (hn : c.negated? op = none)
      (hkey : c.index.conjunction? op.name = none) (hr : c.parseRule e (.ofOperation op) parent = .ok r)
      (hg : r.field.isGroup = false) : States c style parent e (.atom ⟨parent, r.path, r.op, r.args⟩)
  | collection {parent e} {q : Quantifier} {list having path p f g} (he : e.operation? = some ⟨q.name, [list, having]⟩)
      (hkey : c.index.conjunction? q.name = none) (hp : FieldOperand.recognize? c.index list = some (.direct p))
      (hpath : path = c.composePath parent p) (hf : c.fields.resolve path = some f) (hg : f.isGroup = true)
      (hs : style = .outside → having.opName? ≠ some "!" ∧ c.TakesHaving ⟨q.name, [list, having]⟩)
      (h : States c style (some path) having g) : States c style parent e (.each q path g)
  | negatedHaving {parent e} {q : Quantifier} {list having x path p f g} (hs : style = .outside)
      (he : e.operation? = some ⟨q.name, [list, having]⟩) (hkey : c.index.conjunction? q.name = none)
      (hp : FieldOperand.recognize? c.index list = some (.direct p)) (hpath : path = c.composePath parent p)
      (hf : c.fields.resolve path = some f) (hg : f.isGroup = true)
      (hx : having.operation? = some ⟨"!", [x]⟩) (ht : c.TakesHaving ⟨q.name, [list, having]⟩)
      (h : States c style (some path) x g) : States c style parent e (.not (.each q path g))

inductive StatesAll (c : Converter) (style : HavingNegation) : Option String → List Json → List Formula → Prop
  | nil {parent} : StatesAll c style parent [] []
  | cons {parent e rest f fs} (h : States c style parent e f) (hs : StatesAll c style parent rest fs) :
      StatesAll c style parent (e :: rest) (f :: fs)

end

theorem StatesAll.forall₂ {c : Converter} {style : HavingNegation} {parent : Option String} :
    ∀ {es : List Json} {fs : List Formula}, c.StatesAll style parent es fs →
      List.Forall₂ (c.States style parent) es fs
  | _, _, .nil => .nil
  | _, _, .cons h hs => .cons h hs.forall₂

end Converter

/-! ## Trees -/

namespace Node

variable {ι κ : Type} {c : Converter}

mutual

/-- Groups and rule groups say what their conjunction says of their children, at the
record itself or, with an operator, at the elements of the collection. -/
def truth (M : Model c) : Node ι → M.Record → Bool
  | group _ p cs, r => p.negated ^^ (M.connective p.conjunction).eval (truths M cs r)
  | rule _ p, r => (M.valuation r).rule p
  | ruleGroup _ p cs, r =>
    p.negated ^^
      match p.operator with
      | none => (M.connective p.conjunction).eval (truths M cs r)
      | some op =>
        M.quantifier op ((M.elements r p.field).map fun x => (M.connective p.conjunction).eval (truths M cs x))

def truths (M : Model c) : List (Node ι) → M.Record → List Bool
  | [], _ => []
  | n :: rest, r => n.truth M r :: truths M rest r

end

theorem truths_eq_map (M : Model c) (ns : List (Node ι)) (r : M.Record) :
    truths M ns r = ns.map (truth M · r) := by
  induction ns with
  | nil => simp [truths]
  | cons n rest ih => simp [truths, ih]

mutual

/-- Names have no part in what a node says. -/
theorem truth_rename (M : Model c) (f : ι → κ) : ∀ n : Node ι, (n.rename f).truth M = n.truth M
  | group _ p cs => by
    funext r
    simp only [rename, truth, truths_renameAll M f cs]
  | rule .. => rfl
  | ruleGroup _ p cs => by
    funext r
    simp only [rename, truth, truths_renameAll M f cs]

theorem truths_renameAll (M : Model c) (f : ι → κ) :
    ∀ ns : List (Node ι), truths M (renameAll f ns) = truths M ns
  | [] => rfl
  | n :: rest => by
    funext r
    simp only [renameAll, truths, truth_rename M f n, truths_renameAll M f rest]

end

/-! ## Nodes of one shape -/

mutual

/-- Nodes of one shape are true of the same records. -/
theorem truth_of_sameShape {M : Model c} (hM : M.SeesProps) :
    ∀ (n : Node ι) (m : Node κ), n.sameShape m = true → n.truth M = m.truth M
  | group _ p cs, group _ q ds, h => by
    simp only [sameShape, Bool.and_eq_true, beq_iff_eq] at h
    funext r
    simp only [truth, h.1, truths_of_sameShapes hM cs ds h.2]
  | rule _ p, rule _ q, h => by
    funext r
    simpa only [truth] using hM r p q h
  | ruleGroup _ p cs, ruleGroup _ q ds, h => by
    simp only [sameShape, RuleGroupProps.same, Bool.and_eq_true, beq_iff_eq] at h
    obtain ⟨⟨⟨⟨⟨⟨hc, hn⟩, hf⟩, -⟩, ho⟩, -⟩, hcs⟩ := h
    funext r
    simp only [truth, hc, hn, hf, ho, truths_of_sameShapes hM cs ds hcs]
  | group .., rule .., h | group .., ruleGroup .., h | rule .., group .., h
  | rule .., ruleGroup .., h | ruleGroup .., group .., h | ruleGroup .., rule .., h => by
    simp [sameShape] at h

theorem truths_of_sameShapes {M : Model c} (hM : M.SeesProps) :
    ∀ (ns : List (Node ι)) (ms : List (Node κ)), sameShapes ns ms = true → truths M ns = truths M ms
  | [], [], _ => rfl
  | n :: ns, m :: ms, h => by
    simp only [sameShapes, Bool.and_eq_true] at h
    funext r
    simp only [truths, truth_of_sameShape hM n m h.1, truths_of_sameShapes hM ns ms h.2]
  | [], _ :: _, h | _ :: _, [], h => by simp [sameShapes] at h

end

end Node
end RuleTree
