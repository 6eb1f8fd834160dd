/-
  RuleTree.Number.Binary — finite double-precision numbers, held exactly.

  A number is a sign, a mantissa and a power of two, so every operation is done on
  natural numbers and rounded once (`ofRatio`: to nearest, ties to the even mantissa).
  Nothing here is opaque: the kernel can evaluate all of it.
  - `ofRatio` is the only place that rounds; `add`, `mul`, `div` go through it.
  - `ofScaled` reads `sig · 10^exp` in two roundings, the significand first and the
    power of ten next. Expression and schema text is read this way.
  - `floor` and `modulo` are exact on the value.
-/

namespace RuleTree

/-- The number `(-1)^neg · mant · 2^exp`. Numbers made by `ofRatio` have `mant < 2^53`,
`-1074 ≤ exp ≤ 971`, and `2^52 ≤ mant` unless `exp = -1074`. -/
structure Binary where
  neg : Bool
  mant : Nat
  exp : Int
deriving DecidableEq, Repr, Inhabited

namespace Binary

def zero (neg : Bool) : Binary := ⟨neg, 0, -1074⟩

def isZero (x : Binary) : Bool := x.mant == 0

/-! ## Rounding -/

/-- The integer nearest to `num / den`; a half goes to the even neighbour. -/
def roundDiv (num den : Nat) : Nat :=
  let q := num / den
  let r := num % den
  if 2 * r < den then q
  else if den < 2 * r then q + 1
  else if q % 2 == 0 then q else q + 1

/-- Numerator and denominator of `num / den / 2^e`. -/
def unscale (num den : Nat) (e : Int) : Nat × Nat :=
  if 0 ≤ e then (num, den * Nat.pow 2 e.toNat) else (num * Nat.pow 2 (-e).toNat, den)

/-- The `e` with `2^e ≤ num / den < 2^(e+1)`, for a positive ratio. -/
def floorLog2 (num den : Nat) : Int :=
  let e : Int := (Nat.log2 num : Int) - (Nat.log2 den : Int)
  let (n, d) := unscale num den e
  if d ≤ n then e else e - 1

/-- The double nearest to `num / den`; `none` past the largest one. -/
def ofRatio (neg : Bool) (num den : Nat) : Option Binary :=
  if num == 0 then some (zero neg)
  else
    let e := max (floorLog2 num den - 52) (-1074)
    let (n, d) := unscale num den e
    let m := roundDiv n d
    let (m, e) := if m == Nat.pow 2 53 then (Nat.pow 2 52, e + 1) else (m, e)
    if 971 < e then none else some ⟨neg, m, e⟩

/-- The absolute value as a ratio. -/
def ratio (x : Binary) : Nat × Nat :=
  if 0 ≤ x.exp then (x.mant * Nat.pow 2 x.exp.toNat, 1) else (x.mant, Nat.pow 2 (-x.exp).toNat)

/-! ## Arithmetic -/

/-- The double nearest to an integer below `2^1000` in size. -/
def ofInt (n : Int) : Binary := (ofRatio (n < 0) n.natAbs 1).getD (zero false)

def mul (x y : Binary) : Option Binary :=
  let (a, b) := x.ratio
  let (c, d) := y.ratio
  ofRatio (x.neg != y.neg) (a * c) (b * d)

/-- The quotient; `none` past the largest double or for a zero divisor. -/
def div (x y : Binary) : Option Binary :=
  let (a, b) := x.ratio
  let (c, d) := y.ratio
  if c == 0 then none else ofRatio (x.neg != y.neg) (a * d) (b * c)

/-- The greatest integer not above the value. -/
def floor (x : Binary) : Int :=
  let (a, b) := x.ratio
  if x.neg then -(((a + (b - 1)) / b : Nat) : Int) else ((a / b : Nat) : Int)

/-- The integer this number is, if it is one. -/
def toInt? (x : Binary) : Option Int :=
  let (a, b) := x.ratio
  if a % b == 0 then some (if x.neg then -((a / b : Nat) : Int) else ((a / b : Nat) : Int)) else none

/-- The remainder in `[0, n)` of the value by `n`, rounded: just below zero it is `n` itself. -/
def modulo (x : Binary) (n : Nat) : Binary :=
  let (a, b) := x.ratio
  let r := a % (n * b)
  let r := if x.neg && r != 0 then n * b - r else r
  (ofRatio false r b).getD (zero false)

/-! ## Decimal text -/

/-- The double nearest to `10^k`, for `k ≤ 308`. -/
def tenTo (k : Nat) : Binary := (ofRatio false (Nat.pow 10 k) 1).getD (zero false)

/-- Quotient by `10^e`, in steps of at most `10^308`. -/
def divTen (x : Binary) (e : Nat) : Binary :=
  if x.isZero then x
  else if e ≤ 308 then (x.div (tenTo e)).getD x
  else divTen ((x.div (tenTo 308)).getD x) (e - 308)
termination_by e
decreasing_by omega

/-- `sig · 10^exp` with the significand rounded first; `none` when too large. -/
def ofScaled (neg : Bool) (sig : Nat) (exp : Int) : Option Binary :=
  let x := { ofInt sig with neg := neg }
  if x.isZero then some x
  else if exp < 0 then some (divTen x (-exp).toNat)
  else if 308 < exp then none
  else x.mul (tenTo exp.toNat)

/-- `sig · 10^exp` rounded once; `none` when too large. Exponents past a thousand and the
digits of `sig` are out of range either way, so they are not expanded. -/
def ofDecimal (neg : Bool) (sig : Nat) (exp : Int) : Option Binary :=
  let digits : Int := (Nat.log2 sig : Int) + 1
  if sig == 0 then some (zero neg)
  else if 1000 < exp then none
  else if exp < -1000 - digits then some (zero neg)
  else if 0 ≤ exp then ofRatio neg (sig * Nat.pow 10 exp.toNat) 1
  else ofRatio neg sig (Nat.pow 10 (-exp).toNat)

end Binary
end RuleTree
