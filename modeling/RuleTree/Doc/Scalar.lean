/-
  RuleTree.Doc.Scalar — what an unquoted scalar stands for.

  Text without quotes is nothing, a truth value, a number or text, by its look:
  - `~`, `null` and the empty scalar are nothing;
  - `true` and `false` in three capitalizations are truth values;
  - whole numbers are decimal, or hexadecimal, octal or binary behind `0x`, `0o`, `0b`;
    digits behind a leading zero are text;
  - decimals have a point or an exponent, and are rounded once.
-/

import RuleTree.Json.Basic

namespace RuleTree.Scalar

def isNull (s : String) : Bool := s.isEmpty || ["~", "null", "Null", "NULL"].contains s

def toBool? (s : String) : Option Bool :=
  if ["true", "True", "TRUE"].contains s then some true
  else if ["false", "False", "FALSE"].contains s then some false
  else none

/-! ## Whole numbers -/

def isDigit (c : Char) : Bool := '0' ≤ c && c ≤ '9'

def digitValue (c : Char) : Nat :=
  if isDigit c then c.toNat - '0'.toNat
  else if 'a' ≤ c && c ≤ 'z' then c.toNat - 'a'.toNat + 10
  else if 'A' ≤ c && c ≤ 'Z' then c.toNat - 'A'.toNat + 10
  else 36

def fromDigits? (base : Nat) (cs : List Char) : Option Nat :=
  if cs.isEmpty then none
  else cs.foldl (fun acc c =>
    acc.bind fun n => if digitValue c < base then some (n * base + digitValue c) else none) (some 0)

def dropSign : List Char → List Char
  | '+' :: rest | '-' :: rest => rest
  | cs => cs

/-- A zero with more digits behind it: text, not a number. -/
def leadingZero (cs : List Char) : Bool :=
  match dropSign cs with
  | '0' :: c :: rest => (c :: rest).all isDigit
  | _ => false

/-- A whole number without its sign. -/
def magnitude? (cs : List Char) : Option Nat :=
  match cs with
  | '0' :: 'x' :: rest => fromDigits? 16 rest
  | '0' :: 'o' :: rest => fromDigits? 8 rest
  | '0' :: 'b' :: rest => fromDigits? 2 rest
  | _ => if leadingZero cs then none else fromDigits? 10 cs

def toInt? (s : String) : Option Int :=
  match s.toList with
  | '-' :: rest => (magnitude? rest).map fun n => -(n : Int)
  | '+' :: rest => (magnitude? rest).map fun n => (n : Int)
  | cs => (magnitude? cs).map fun n => (n : Int)

/-- A count below `2^64`. -/
def toCount? (s : String) : Option Nat :=
  match s.toList with
  | '-' :: _ => none
  | _ => (toInt? s).bind fun n => if n < Int.pow 2 64 then some n.toNat else none

/-! ## Decimals -/

/-- Digits, a point with digits on at least one side, and an exponent: the value as
`sig · 10^exp`. -/
def decimal? (cs : List Char) : Option (Nat × Int) :=
  let whole := cs.takeWhile isDigit
  let rest := cs.dropWhile isDigit
  let (frac, rest) := match rest with
    | '.' :: r => (r.takeWhile isDigit, r.dropWhile isDigit)
    | r => ([], r)
  let exponent? : Option Int := match rest with
    | [] => some 0
    | e :: r =>
      if e == 'e' || e == 'E' then
        match r with
        | '-' :: ds => (fromDigits? 10 ds).map fun n => -(n : Int)
        | '+' :: ds => (fromDigits? 10 ds).map fun n => (n : Int)
        | ds => (fromDigits? 10 ds).map fun n => (n : Int)
      else none
  match fromDigits? 10 (whole ++ frac), exponent? with
  | some sig, some e => some (sig, e - frac.length)
  | _, _ => none

def toFloat? (s : String) : Option Binary :=
  let cs := s.toList
  let (neg, body) := match cs with
    | '-' :: r => (true, r)
    | '+' :: r => (false, r)
    | r => (false, r)
  if leadingZero cs then none
  else (decimal? body).bind fun (sig, e) => Binary.ofDecimal neg sig e

/-- An infinity or the number that is none: they have no JSON value. -/
def isNonFinite (s : String) : Bool :=
  [".inf", ".Inf", ".INF", "+.inf", "+.Inf", "+.INF", "-.inf", "-.Inf", "-.INF",
    ".nan", ".NaN", ".NAN"].contains s

/-! ## The value -/

/-- A decimal, or the text itself. -/
def decimalOrText (s : String) : Json :=
  if isNonFinite s then .null
  else match toFloat? s with
    | some x => .num (.float x)
    | none => .str s

/-- The value of an unquoted scalar. Whole numbers past 64 bits have none, and those past
128 bits are read as decimals. -/
def toJson? (s : String) : Option Json :=
  if isNull s then some .null
  else match toBool? s with
    | some b => some (.bool b)
    | none =>
      match toInt? s with
      | some n =>
        if -Int.pow 2 63 ≤ n && n < Int.pow 2 64 then some (.num (.int n))
        else if -Int.pow 2 127 ≤ n && n < Int.pow 2 128 then none
        else some (decimalOrText s)
      | none => some (decimalOrText s)

end RuleTree.Scalar
