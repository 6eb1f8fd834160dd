/-
  RuleTree.Proofs.Cars — a schema of cars, for trying things on.

  Cars are a collection with a vendor and a year, and a user has cars too. `==` and `!=`,
  `some` and `none` are inverse to each other; `in` under `all` has an operator of its own.
  In the model every record is a number of cars, `==` holds of all fields and `in` of
  vendors only; the operators on collections mean what they should (`model_quantifies`).
-/

import RuleTree.Proofs.Truth

namespace RuleTree
namespace Cars

def cars : Field where
  type := "!group"
  mode := some .some
  mainWidget := some "text"
  subfields := [("vendor", { type := "text" }), ("year", { type := "text" })]

def schema : Schema where
  conjunctions := [("AND", {}), ("OR", {})]
  operators := [
    ("equal", { name := some "==", inverse := some "not_equal" }),
    ("not_equal", { name := some "!=", inverse := some "equal" }),
    ("less", { name := some "<" }),
    ("in", { name := some "in" }),
    ("some", { name := some "some", cardinality := some 0, inverse := some "none" }),
    ("none", { name := some "none", cardinality := some 0, inverse := some "some" }),
    ("all_in", { name := some "all-in" })]
  fields := [
    ("color", { type := "text" }),
    ("cars", cars),
    ("user", { type := "!struct", subfields := [("cars", cars)] })]
  widgets := [("text", { type := "text" })]

def converter : Converter := .ofSchema schema []

/-! ## Expressions -/

def call (name : String) (args : List Json) : Json := .obj [(name, .arr args)]

/-- The value of a field. -/
def read (path : String) : Json := .obj [("var", .str path)]

def equals (path value : String) : Json := call "==" [read path, .str value]

def not (e : Json) : Json := call "!" [e]

/-- So many cars are as the clause says. -/
def ofCars (quantifier : String) (having : Json) : Json := call quantifier [read "cars", having]

/-- Not both a car of a vendor and neither a red user nor an old car. -/
def notBoth : Json :=
  not (call "and" [equals "cars.vendor" "vw",
    not (call "Or" [equals "color" "red", call "<" [read "cars.year", .str "1999"]])])

/-- Red, and some car of a vendor is not old. -/
def redWithNewCar : Json :=
  call "and" [ofCars "some" (call "and" [equals "vendor" "vw", not (call "<" [read "year", .str "1999"])]),
    equals "color" "red"]

/-- The number of cars for which a predicate holds. -/
def counted (predicate : Json) : Json :=
  call "reduce" [call "filter" [read "cars", predicate], call "+" [.num (.int 1), read "accumulator"], .num (.int 0)]

/-! ## A model -/

theorem inverse_cases {op inv : String} (h : converter.inverse? op = some inv) :
    op = "equal" ∧ inv = "not_equal" ∨ op = "not_equal" ∧ inv = "equal" ∨
      op = "some" ∧ inv = "none" ∨ op = "none" ∧ inv = "some" := by
  obtain ⟨o, ho, hinv⟩ := Option.bind_eq_some_iff.mp h
  have hm : (op, o) ∈ schema.operators := Table.mem_of_get? ho
  simp only [schema, List.mem_cons, Prod.mk.injEq, List.not_mem_nil, or_false] at hm
  rcases hm with ⟨rfl, rfl⟩ | ⟨rfl, rfl⟩ | ⟨rfl, rfl⟩ | ⟨rfl, rfl⟩ | ⟨rfl, rfl⟩ | ⟨rfl, rfl⟩ |
    ⟨rfl, rfl⟩ <;>
    simp_all

def holds (op path : String) : Bool :=
  op == "equal" || op == "some" || op == "in" && path == "cars.vendor"

def valuation : Valuation converter where
  atom a := holds a.op a.path
  rule p := holds p.operator p.field
  rule_eq := by
    rintro a p ⟨f, operands, limit, n, m, -, -, rfl⟩
    rfl
  atom_inverse := by
    intro a inv h
    rcases inverse_cases h with ⟨ho, rfl⟩ | ⟨ho, rfl⟩ | ⟨ho, rfl⟩ | ⟨ho, rfl⟩ <;> simp [holds, ho]

/-- A record is a number of cars, each a record again. -/
def model : Model converter where
  Record := Nat
  elements n _ := List.range n
  valuation _ := valuation
  connective key := (Connective.ofName? key).getD .all
  connective_eq h := by rw [h]; rfl
  quantifier key bs := key == "equal" || key == "some" && bs.any id || key == "none" && !bs.any id

theorem model_seesProps : model.SeesProps := by
  intro r p q h
  simp only [RuleProps.same, Bool.and_eq_true, beq_iff_eq] at h
  obtain ⟨⟨⟨hf, ho⟩, -⟩, -⟩ := h
  simp only [model, valuation, hf, ho]

theorem model_quantifies : model.Quantifies where
  quantifier_eq := by
    intro q key hkey bs
    have hkeys : converter.index.operatorKeys ⟨"some", 0, false⟩ = ["some"] ∧
        converter.index.operatorKeys ⟨"none", 0, false⟩ = ["none"] ∧
        converter.index.operatorKeys ⟨"all", 0, false⟩ = [] := by
      decide +kernel
    cases q <;> simp only [Quantifier.name, hkeys, List.mem_singleton, List.not_mem_nil] at hkey <;> subst hkey <;>
      simp [model, Quantifier.eval]
  quantifier_inverse := by
    intro op inv h bs
    rcases inverse_cases h with ⟨ho, rfl⟩ | ⟨ho, rfl⟩ | ⟨ho, rfl⟩ | ⟨ho, rfl⟩ <;> simp [model, ho]

theorem states_rule {style : Converter.HavingNegation} {parent : Option String} {e : Json} {op : Operation}
    {path key : String} {args : List Json} (he : e.operation? = some op) (hn : converter.negated? op = none)
    (hk : converter.index.conjunction? op.name = none)
    (hr : converter.parseRule e (.ofOperation op) parent = .ok ⟨path, { type := "text" }, key, args, none⟩) :
    converter.States style parent e (.atom ⟨parent, path, key, args⟩) :=
  .rule he hn hk hr rfl

end Cars
end RuleTree
