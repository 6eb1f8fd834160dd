/-
  RuleTree.Operand — the values of a rule.

  An operand is a literal, a date, a field or a function call whose arguments are operands
  again. Its source follows from what it is.
  - `same` is equality of operands: literals by value, the arguments of a call by name,
    whatever their order.
-/

import RuleTree.Date.Instant
import RuleTree.Json.Basic

namespace RuleTree

inductive ValueSource where
  | value
  | field
  | func
deriving DecidableEq, Repr

def ValueSource.name : ValueSource → String
  | value => "value"
  | field => "field"
  | func => "func"

mutual

/-- One value of a rule, with the type of its widget and the values to fetch later. -/
inductive Operand where
  | mk (content : Content) (type : Option String) (async : Option (List Json))

inductive Content where
  | literal (value : Json)
  | date (at_ : Instant)
  | field (path : String)
  /-- A call of a function, its arguments by name in order of declaration. -/
  | call (func : String) (args : List (String × Operand))

end

instance : Inhabited Operand := ⟨.mk (.literal .null) none none⟩

namespace Operand

def content : Operand → Content
  | mk content _ _ => content

def type : Operand → Option String
  | mk _ type _ => type

def async : Operand → Option (List Json)
  | mk _ _ async => async

def source (o : Operand) : ValueSource :=
  match o.content with
  | .literal _ | .date _ => .value
  | .field _ => .field
  | .call _ _ => .func

def literal (value : Json) (type : String) : Operand := mk (.literal value) (some type) none

def date (i : Instant) (type : String) : Operand := mk (.date i) (some type) none

def field (path type : String) : Operand := mk (.field path) (some type) none

def call (func : String) (args : List (String × Operand)) (type : String) : Operand :=
  mk (.call func args) (some type) none

def asLiteral? (o : Operand) : Option Json :=
  match o.content with
  | .literal v => some v
  | _ => none

def asField? (o : Operand) : Option String :=
  match o.content with
  | .field path => some path
  | _ => none

def asCall? (o : Operand) : Option (String × List (String × Operand)) :=
  match o.content with
  | .call func args => some (func, args)
  | _ => none

end Operand

/-! ## Equality -/

def sameOptional : Option (List Json) → Option (List Json) → Bool
  | none, none => true
  | some xs, some ys => Json.sameItems xs ys
  | _, _ => false

mutual

def Operand.same : Operand → Operand → Bool
  | .mk c t a, .mk c' t' a' => c.same c' && t == t' && sameOptional a a'

def Content.same : Content → Content → Bool
  | .literal v, .literal w => v.same w
  | .date i, .date j => i == j
  | .field p, .field q => p == q
  | .call f xs, .call g ys => f == g && xs.length == ys.length && sameArgs xs ys
  | _, _ => false

/-- Every argument has an equal one of its name. -/
def sameArgs : List (String × Operand) → List (String × Operand) → Bool
  | [], _ => true
  | (k, x) :: xs, ys =>
    (match ys.lookup k with
      | some y => x.same y
      | none => false) && sameArgs xs ys

end

def sameOperands : List Operand → List Operand → Bool
  | [], [] => true
  | x :: xs, y :: ys => x.same y && sameOperands xs ys
  | _, _ => false

end RuleTree
