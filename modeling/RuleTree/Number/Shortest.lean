/-
  RuleTree.Number.Shortest — decimal text of a double.

  `digits` finds the fewest significant digits that read back as the number, and of the
  decimals with that many digits the nearest. A double is the nearest one to every real
  in an interval around it, ends included iff its mantissa is even; for 1, 2, … digits
  the two decimals around the value are tried against that interval, exactly.
  `Layout` says how the digits are set out; `Layout.json` is the form of every number the
  library writes, `Layout.plain` the form inside a time of day.
-/

import RuleTree.Number.Binary

namespace RuleTree
namespace Binary

/-! ## The fewest digits -/

/-- Compare `c · 10^k` with `a · 2^e`. -/
def compareDecimal (c : Nat) (k : Int) (a : Nat) (e : Int) : Ordering :=
  compare (c * Nat.pow 10 k.toNat * Nat.pow 2 (-e).toNat)
    (a * Nat.pow 2 e.toNat * Nat.pow 10 (-k).toNat)

/-- `c · 10^k` reads back as `x`. -/
def readsBack (x : Binary) (c : Nat) (k : Int) : Bool :=
  let low :=
    if x.mant == Nat.pow 2 52 && -1074 < x.exp then 4 * x.mant - 1 else 4 * x.mant - 2
  let high := 4 * x.mant + 2
  let closed := x.mant % 2 == 0
  let above := match compareDecimal c k low (x.exp - 2) with
    | .gt => true
    | .eq => closed
    | .lt => false
  let below := match compareDecimal c k high (x.exp - 2) with
    | .lt => true
    | .eq => closed
    | .gt => false
  above && below

/-- The `e` with `10^e ≤ |x| < 10^(e+1)`, for a number that is not zero. -/
def floorLog10 (x : Binary) : Int :=
  let (a, b) := x.ratio
  let e : Int := ((Nat.toDigits 10 a).length : Int) - ((Nat.toDigits 10 b).length : Int)
  if b * Nat.pow 10 e.toNat ≤ a * Nat.pow 10 (-e).toNat then e else e - 1

/-- The decimal just below or at `|x|` on the grid of `10^k`. -/
def gridBelow (x : Binary) (k : Int) : Nat :=
  let (a, b) := x.ratio
  (a * Nat.pow 10 (-k).toNat) / (b * Nat.pow 10 k.toNat)

/-- Of `c` and `c + 1` on the grid of `10^k`, the one that reads back and is nearer. -/
def pick (x : Binary) (k : Int) : Option Nat :=
  let c := x.gridBelow k
  match x.readsBack c k && c != 0, x.readsBack (c + 1) k with
  | false, false => none
  | true, false => some c
  | false, true => some (c + 1)
  | true, true =>
    match compareDecimal (2 * c + 1) k (2 * x.mant) x.exp with
    | .gt => some c
    | .lt => some (c + 1)
    | .eq => some (if c % 2 == 0 then c else c + 1)

def stripZeros (c : Nat) (k : Int) : Nat → Nat × Int
  | 0 => (c, k)
  | n + 1 => if c % 10 == 0 && c != 0 then stripZeros (c / 10) (k + 1) n else (c, k)

/-- `(c, k)` with `c · 10^k` the shortest decimal of `|x|`, for a number that is not zero. -/
def digits (x : Binary) : Nat × Int :=
  let top := x.floorLog10
  let found := (List.range 17).findSome? fun (i : Nat) =>
    (x.pick (top - i)).map fun c => (c, top - i)
  match found with
  | some (c, k) => stripZeros c k 20
  | none => (x.gridBelow (top - 16), top - 16)

end Binary

/-! ## Setting out the digits -/

/-- How a number is set out: positional when the power of ten of its first digit is in
`[low, high)`, and with `.0` after a whole number or not. Elsewhere the exponent is written
with its sign. -/
structure Layout where
  low : Int
  high : Int
  point : Bool

/-- Positional from a hundred-thousandth up to ten to the sixteenth, always with a fraction. -/
def Layout.json : Layout := ⟨-5, 16, true⟩

/-- Always positional, a whole number without a fraction. -/
def Layout.plain : Layout := ⟨-400, 400, false⟩

namespace Layout

def zeros (n : Nat) : List Char := List.replicate n '0'

/-- Text of the digits `ds` with the first one at the power of ten `e`. -/
def digitText (l : Layout) (ds : List Char) (e : Int) : List Char :=
  let n : Int := ds.length
  if l.low ≤ e && e < l.high then
    if e < 0 then ['0', '.'] ++ zeros (-e - 1).toNat ++ ds
    else if n ≤ e + 1 then
      ds ++ zeros (e + 1 - n).toNat ++ (if l.point then ['.', '0'] else [])
    else ds.take (e + 1).toNat ++ '.' :: ds.drop (e + 1).toNat
  else
    let head := match ds with
      | [] => []
      | [d] => [d]
      | d :: rest => d :: '.' :: rest
    head ++ 'e' :: (if e < 0 then '-' else '+') :: Nat.toDigits 10 e.natAbs

def text (l : Layout) (x : Binary) : String :=
  let body :=
    if x.isZero then l.digitText ['0'] 0
    else
      let (c, k) := x.digits
      let ds := Nat.toDigits 10 c
      l.digitText ds (k + ds.length - 1)
  String.ofList (if x.neg then '-' :: body else body)

end Layout
end RuleTree
