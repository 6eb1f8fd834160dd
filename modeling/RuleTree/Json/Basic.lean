/-
  RuleTree.Json.Basic — JSON values.

  Whole numbers and doubles are kept apart (`1` and `1.0` differ), and the members of an
  object are listed by key in increasing order, each key once: `Json.object` puts them so.
  - `Json.same` is equality of values: as `=`, but for the two zeros among doubles, which
    are equal.
  - `Json.size` counts the values inside a value.
-/

import RuleTree.Number.Binary

namespace RuleTree

inductive Num where
  | int (n : Int)
  | float (x : Binary)
deriving DecidableEq, Repr, Inhabited

namespace Num

/-- The double a number stands for. -/
def toBinary : Num → Binary
  | int n => Binary.ofInt n
  | float x => x

def isZero (n : Num) : Bool := n.toBinary.isZero

/-- The number is one, in either spelling. -/
def isOne (n : Num) : Bool := n.toBinary == Binary.ofInt 1

def same : Num → Num → Bool
  | int m, int n => m == n
  | float x, float y => x == y || (x.isZero && y.isZero)
  | _, _ => false

end Num

inductive Json where
  | null
  | bool (b : Bool)
  | num (n : Num)
  | str (s : String)
  | arr (items : List Json)
  | obj (entries : List (String × Json))
deriving Repr, Inhabited

namespace Json

/-! ## Objects -/

/-- Put a member in its place by key; a key that is there already takes the new value. -/
def putEntry (k : String) (v : Json) : List (String × Json) → List (String × Json)
  | [] => [(k, v)]
  | (k', v') :: rest =>
    if k = k' then (k, v) :: rest
    else if k < k' then (k, v) :: (k', v') :: rest
    else (k', v') :: putEntry k v rest

/-- The object with these members; of a repeated key the last one counts. -/
def object (entries : List (String × Json)) : Json :=
  .obj (entries.foldl (fun acc (k, v) => putEntry k v acc) [])

/-- The value of a member. -/
def get? (j : Json) (key : String) : Option Json :=
  match j with
  | .obj entries => entries.lookup key
  | _ => none

def asString? : Json → Option String
  | .str s => some s
  | _ => none

/-- The number as a double. -/
def asBinary? : Json → Option Binary
  | .num n => some n.toBinary
  | _ => none

/-- Present: all but `null`, `false`, zero and the empty string. -/
def isTruthy : Json → Bool
  | .null => false
  | .bool b => b
  | .num n => !n.isZero
  | .str s => !s.isEmpty
  | .arr _ | .obj _ => true

/-! ## Size and equality -/

mutual

def size : Json → Nat
  | .arr items => sizeItems items + 1
  | .obj entries => sizeEntries entries + 1
  | _ => 1

def sizeItems : List Json → Nat
  | [] => 0
  | x :: rest => x.size + sizeItems rest

def sizeEntries : List (String × Json) → Nat
  | [] => 0
  | (_, x) :: rest => x.size + sizeEntries rest

end

mutual

def same : Json → Json → Bool
  | .null, .null => true
  | .bool a, .bool b => a == b
  | .num m, .num n => m.same n
  | .str s, .str t => s == t
  | .arr xs, .arr ys => sameItems xs ys
  | .obj xs, .obj ys => sameEntries xs ys
  | _, _ => false

def sameItems : List Json → List Json → Bool
  | [], [] => true
  | x :: xs, y :: ys => x.same y && sameItems xs ys
  | _, _ => false

def sameEntries : List (String × Json) → List (String × Json) → Bool
  | [], [] => true
  | (k, x) :: xs, (l, y) :: ys => k == l && x.same y && sameEntries xs ys
  | _, _ => false

end

instance : BEq Json := ⟨same⟩

end Json
end RuleTree
