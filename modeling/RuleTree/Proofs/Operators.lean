/-
  RuleTree.Proofs.Operators — which operator a rule expression has.

  The index files the operators of a schema ahead of time, by name, number of values and
  order of arguments, and a rule is tried in two layouts. Neither shows in the operator that
  is found: reading the declared operators one after the other gives the same.

  - A group of the index is the keys of the entries that answer to its signature, in order
    of declaration, whatever the table is of (`Groups.find_foldl`); for operators, those
    of the name, number and order asked for (`Index.operatorKeys_ofSchema`).
  - `scanPass?` reads the operators for one order of arguments and `scanOperator?` for the
    two; one try at a rule finds what one reading does (`op_of_tryParse`), and a rule has the
    operator that the two readings give, or there is no rule (`operator_of_parseRule`).
-/

import Mathlib.Data.List.Basic
import RuleTree.Proofs.RuleShape

namespace RuleTree

/-! ## What the index files -/

/-- Where each step adds a key to the group its entry answers to, a group gets the keys of
the entries that answer to it, in order. -/
theorem Groups.find_foldl {κ α : Type} [DecidableEq κ] {sig? : α → Option κ} {k : κ}
    {f : Groups κ → String × α → Groups κ}
    (hf : ∀ g p, Groups.find (f g p) k = if sig? p.2 = some k then g.find k ++ [p.1] else g.find k)
    (todo : Table α) (g : Groups κ) :
    Groups.find (todo.foldl f g) k = g.find k ++ Table.keys (todo.filter fun p => sig? p.2 = some k) := by
  induction todo generalizing g with
  | nil => simp [Table.keys]
  | cons p rest ih =>
    rw [List.foldl_cons, ih, hf]
    by_cases hk : sig? p.2 = some k
    · simp [hk, Table.keys]
    · simp [hk]

namespace Operator

/-- The name of an operator in expressions. -/
def expressionName? (op : Operator) : Option String := op.name <|> op.secondName

/-- Expressions list the value before the field; never with an operator that has a second
name only. -/
def isReversed (op : Operator) : Bool := op.name.isSome && op.reversedArgs

theorem signature?_eq_some_iff {op : Operator} {sig : OpSignature} :
    op.signature? = some sig ↔
      op.expressionName? = some sig.name ∧ op.arity = sig.arity ∧ op.isReversed = sig.reversed := by
  obtain ⟨name, arity, reversed⟩ := sig
  unfold signature? expressionName? isReversed
  cases op.name with
  | some first => simp
  | none =>
    cases op.secondName with
    | some second => simp
    | none => simp

end Operator

/-- The operators of a name, a number of values and an order of arguments, as declared. -/
def Schema.operatorsNamed (s : Schema) (name : String) (count : Nat) (reversed : Bool) : List String :=
  Table.keys (s.operators.filter fun p =>
    p.2.expressionName? = some name ∧ p.2.arity = count ∧ p.2.isReversed = reversed)

theorem Index.operatorKeys_ofSchema (s : Schema) (sig : OpSignature) :
    (ofSchema s).operatorKeys sig = s.operatorsNamed sig.name sig.arity sig.reversed := by
  have hsame : (s.operators.filter fun p => p.2.signature? = some sig) = s.operators.filter fun p =>
      p.2.expressionName? = some sig.name ∧ p.2.arity = sig.arity ∧ p.2.isReversed = sig.reversed :=
    List.filter_congr fun p _ => by simp only [Operator.signature?_eq_some_iff]
  unfold Schema.operatorsNamed
  rw [← hsame]
  refine Groups.find_foldl (fun g p => ?_) s.operators []
  obtain ⟨key, op⟩ := p
  cases hs : op.signature? with
  | none => simp [hs]
  | some sig' => simp only [hs, Groups.find_add, Option.some.injEq]

namespace Converter

variable {c : Converter} {s : RuleShape} {e : Json} {parent : Option String} {reversed : Bool}

/-! ## Reading the declared operators -/

/-- How many values the operator is declared with: none when it is about the elements of a
collection, else one for each argument but the field. `all` over an `in` is not about
elements. -/
def valueCount? (c : Converter) (s : RuleShape) : Option Nat :=
  let allIn := s.op = "all" ∧ s.values[1]?.bind Json.opName? = some "in"
  if s.op ∈ c.schema.settings.groupOperators ∧ ¬allIn then some 0
  else
    match s.arity with
    | 0 => none
    | k + 1 => some k

/-- A range comparison with its field between two bounds. -/
def isBetween (s : RuleShape) : Bool := rangeOps.contains s.op && s.arity == 3 && s.values.length == 3

/-- The place of the field: in the middle of a range, else first or, with arguments in
reverse, second. -/
def fieldPlace (s : RuleShape) (reversed : Bool) : Nat :=
  if isBetween s || reversed then 1 else 0

/-- The field an argument names. -/
def fieldOf? (c : Converter) (parent : Option String) (arg : Json) : Option Field :=
  (FieldOperand.recognize? c.index arg).bind fun operand =>
    c.fields.resolve (c.composePath parent operand.path)

/-- Of several operators the first one that the field lists, if it lists any; else the first. -/
def firstAllowed? (f : Field) (keys : List String) : Option String :=
  if 1 < keys.length ∧ f.operators.isSome then keys.find? f.allows else keys.head?

/-- The operator of a rule by a reading of those with one order of arguments. -/
def scanPass? (c : Converter) (s : RuleShape) (parent : Option String) (reversed : Bool) : Option String :=
  (c.valueCount? s).bind fun count =>
    (s.values[fieldPlace s reversed]?).bind fun arg =>
      (c.fieldOf? parent arg).bind fun f =>
        firstAllowed? f (c.schema.operatorsNamed s.op count reversed)

/-- The operator of a rule: with the field first, and where that gives none with the field
second. -/
def scanOperator? (c : Converter) (s : RuleShape) (parent : Option String) : Option String :=
  (c.scanPass? s parent false).or (c.scanPass? s parent true)

/-! ## One try is one reading -/

theorem wantedArity?_eq : c.wantedArity? s = c.valueCount? s := by
  unfold wantedArity? valueCount?
  have hgroup : c.isGroupOp s = true ↔ s.op ∈ c.schema.settings.groupOperators ∧
      ¬(s.op = "all" ∧ s.values[1]?.bind Json.opName? = some "in") := by
    simp [isGroupOp, and_comm, imp_iff_not_or]
  simp only [hgroup]
  split
  · rfl
  · cases s.arity with
    | zero => rfl
    | succ k => rfl

theorem layout_of_isBetween (h : isBetween s = true) (reversed : Bool) :
    ∃ low field high, s.values = [low, field, high] ∧ layout s reversed = (some field, [low, high]) := by
  obtain ⟨hrange, hlen⟩ := (Bool.and_eq_true _ _).mp h
  obtain ⟨low, field, high, hvalues⟩ := List.length_eq_three.mp (beq_iff_eq.mp hlen)
  refine ⟨low, field, high, hvalues, ?_⟩
  unfold layout
  rw [hrange, hvalues]

theorem layout_of_not_isBetween (h : isBetween s = false) (reversed : Bool) :
    layout s reversed =
      if reversed then (s.values[1]?, s.values.head?.toList) else (s.values.head?, s.values.tail) := by
  unfold layout
  split
  · rename_i hrange hvalues
    rw [isBetween, hrange, hvalues] at h
    cases h
  · rfl

/-- The field is at its place among the arguments. -/
theorem layout_field : (layout s reversed).1 = s.values[fieldPlace s reversed]? := by
  by_cases hb : isBetween s = true
  · obtain ⟨low, field, high, hvalues, hlayout⟩ := layout_of_isBetween hb reversed
    simp [hlayout, fieldPlace, hb, hvalues]
  · rw [Bool.not_eq_true] at hb
    rw [layout_of_not_isBetween hb]
    cases reversed with
    | true => simp [fieldPlace]
    | false => simp [fieldPlace, hb, List.head?_eq_getElem?]

theorem chooseOp_eq_ok_iff {f : Field} {path : String} {keys : List String} {op : String} :
    chooseOp f path keys = .ok op ↔ firstAllowed? f keys = some op := by
  unfold chooseOp firstAllowed?
  match keys with
  | [] => simp
  | [key] => simp
  | key :: key' :: rest =>
    cases hf : f.operators with
    | none => simp
    | some ops =>
      simp only [List.length_cons, Option.isSome_some, and_true,
        show 1 < rest.length + 1 + 1 by omega, if_true]
      cases (key :: key' :: rest).find? f.allows with
      | none => simp
      | some k => simp

/-- One try at a rule finds the operator that one reading of the schema gives, or none. -/
theorem op_of_tryParse (hix : c.index = Index.ofSchema c.schema) :
    (c.tryParse s parent reversed).toOption.map ParsedRule.op = c.scanPass? s parent reversed := by
  have hkeys : ∀ arity, c.index.operatorKeys ⟨s.op, arity, reversed⟩ =
      c.schema.operatorsNamed s.op arity reversed := by
    intro arity
    rw [hix, Index.operatorKeys_ofSchema]
  refine Option.ext fun op => ?_
  constructor
  · intro h
    obtain ⟨r, hr, rfl⟩ := Option.map_eq_some_iff.mp h
    have htry : c.tryParse s parent reversed = .ok r := by
      cases ht : c.tryParse s parent reversed with
      | error d => simp [ht, Except.toOption] at hr
      | ok r' => simpa [ht, Except.toOption] using hr
    obtain ⟨arity, fieldExpr, operand, field, op, harity, hfield, -, hrec, hres, hch, rfl⟩ :=
      tryParse_eq_ok.mp htry
    rw [wantedArity?_eq] at harity
    rw [layout_field] at hfield
    rw [hkeys] at hch
    have hof : c.fieldOf? parent fieldExpr = some field := by simp only [fieldOf?, hrec, Option.bind_some, hres]
    simp only [scanPass?, harity, hfield, hof, Option.bind_some]
    exact chooseOp_eq_ok_iff.mp hch
  · intro h
    obtain ⟨arity, harity, h⟩ := Option.bind_eq_some_iff.mp h
    obtain ⟨fieldExpr, hfield, h⟩ := Option.bind_eq_some_iff.mp h
    obtain ⟨field, hof, h⟩ := Option.bind_eq_some_iff.mp h
    obtain ⟨operand, hrec, hres⟩ := Option.bind_eq_some_iff.mp hof
    rw [← wantedArity?_eq] at harity
    rw [← layout_field] at hfield
    rw [← hkeys] at h
    -- what is recognized as a field is an operation
    have hop : fieldExpr.isOperation = true := by
      unfold Json.isOperation
      cases ho : fieldExpr.operation? with
      | none => simp [FieldOperand.recognize?, ho] at hrec
      | some => rfl
    have htry := tryParse_eq_ok.mpr
      ⟨arity, fieldExpr, operand, field, op, harity, hfield, hop, hrec, hres, chooseOp_eq_ok_iff.mpr h, rfl⟩
    rw [htry]
    rfl

/-! ## Paints

Two operators of paints answer to `==`, of which a color knows the second one, and `in` takes
two values with the field between them. -/

namespace Paints

def schema : Schema where
  conjunctions := [("AND", {})]
  operators := [
    ("equal", { name := some "==" }),
    ("same_shade", { name := some "==" }),
    ("any_in", { name := some "in", reversedArgs := true, cardinality := some 2 })]
  fields := [("color", { type := "text", operators := some ["any_in", "same_shade"] })]
  widgets := [("text", { type := "text" })]

def converter : Converter := .ofSchema schema []

def color : Json := .obj [("var", .str "color")]

def isRed : Operation := ⟨"==", [color, .str "red"]⟩

/-- The color is one of two, written on both sides of it. -/
def redOrRose : Operation := ⟨"in", [.str "red", color, .str "rose"]⟩

def written (op : Operation) : Json := .obj [(op.name, .arr op.args)]

end Paints

/-! ## The operator of a rule -/

/-- With the index of its schema, a conversion gives a rule the operator that a reading of
the schema gives, and finds no rule where that gives none. -/
theorem operator_of_parseRule (hix : c.index = Index.ofSchema c.schema) (e : Json) (s : RuleShape)
    (parent : Option String) :
    (c.parseRule e s parent).toOption.map ParsedRule.op = c.scanOperator? s parent := by
  unfold scanOperator? parseRule
  rw [← op_of_tryParse hix, ← op_of_tryParse hix]
  cases c.tryParse s parent false with
  | ok r => rfl
  | error direct =>
    cases c.tryParse s parent true with
    | ok r => rfl
    | error reversed =>
      simp only
      cases direct.toList ++ reversed.toList with
      | nil => rfl
      | cons first rest => rfl

theorem operators_of_paints :
    Paints.converter.index = Index.ofSchema Paints.schema ∧
      (Paints.converter.parseRule (Paints.written Paints.isRed) (.ofOperation Paints.isRed) none).toOption.map
        ParsedRule.op = some "same_shade" ∧
      (Paints.converter.parseRule (Paints.written Paints.redOrRose) (.ofOperation Paints.redOrRose)
        none).toOption.map ParsedRule.op = some "any_in" := by
  have hscan : Paints.converter.scanOperator? (.ofOperation Paints.isRed) none = some "same_shade" ∧
      Paints.converter.scanOperator? (.ofOperation Paints.redOrRose) none = some "any_in" := by
    decide +kernel
  refine ⟨rfl, ?_, ?_⟩
  · exact (operator_of_parseRule rfl _ _ none).trans hscan.1
  · exact (operator_of_parseRule rfl _ _ none).trans hscan.2

end Converter
end RuleTree
