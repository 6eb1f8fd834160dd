/-
  RuleTree.Json.Reader — JSON text read strictly.

  The whole text is one value between blanks; trailing commas, comments and bare words are
  refused. Members keep their order and their repeats (`readDoc?`); `readJson?` forgets
  both. Text with an unpaired surrogate, a number past all doubles and what the 128th open
  bracket holds are unreadable: the text around them is still read.
  A number with neither point nor exponent that fits 64 bits (signed or not) is whole;
  any other is a double, read from its first digits below `2^64` and a power of ten.
  Digits past those count as powers of ten before the point and not at all behind it.
-/

import RuleTree.Doc.Basic

namespace RuleTree.JsonText

/-! ## Blanks and text -/

def isBlank (c : Char) : Bool := c == ' ' || c == '\n' || c == '\t' || c == '\r'

def skipBlanks (cs : List Char) : List Char := cs.dropWhile isBlank

def hexValue? (c : Char) : Option Nat :=
  if Scalar.digitValue c < 16 then some (Scalar.digitValue c) else none

def hex4? (a b c d : Char) : Option Nat := do
  return (((← hexValue? a) * 16 + (← hexValue? b)) * 16 + (← hexValue? c)) * 16 + (← hexValue? d)

/-- The character behind a backslash, `u` apart. -/
def escape? (c : Char) : Option Char :=
  match c with
  | '"' => some '"'
  | '\\' => some '\\'
  | '/' => some '/'
  | 'b' => some (Char.ofNat 8)
  | 'f' => some (Char.ofNat 12)
  | 'n' => some '\n'
  | 'r' => some '\r'
  | 't' => some '\t'
  | _ => none

/-- The character of a surrogate pair. -/
def pair? (high low : Nat) : Option Char :=
  if 0xDC00 ≤ low && low < 0xE000 then
    some (Char.ofNat (0x10000 + (high - 0xD800) * 1024 + (low - 0xDC00)))
  else none

/-- Text up to its closing quote, if its surrogates are paired, and what follows. -/
def string? : List Char → Option (Option (List Char) × List Char)
  | [] => none
  | '"' :: rest => some (some [], rest)
  | '\\' :: 'u' :: a :: b :: c :: d :: rest => do
    let n ← hex4? a b c d
    if 0xD800 ≤ n && n < 0xDC00 then
      match rest with
      | '\\' :: 'u' :: a :: b :: c :: d :: rest =>
        let low ← hex4? a b c d
        let (s, rest) ← string? rest
        return (do return (← pair? n low) :: (← s), rest)
      | other =>
        let (_, rest) ← string? other
        return (none, rest)
    else
      let (s, rest) ← string? rest
      return (if 0xDC00 ≤ n && n < 0xE000 then none else s.map (Char.ofNat n :: ·), rest)
  | '\\' :: e :: rest => do
    let ch ← escape? e
    let (s, rest) ← string? rest
    return (s.map (ch :: ·), rest)
  | c :: rest =>
    if c.toNat < 32 || c == '\\' then none
    else do
      let (s, rest) ← string? rest
      return (s.map (c :: ·), rest)

def textDoc : Option (List Char) → Doc
  | some s => .str (String.ofList s)
  | none => .unreadable

/-! ## Numbers -/

/-- Take digits into the significand while it stays below `2^64`. -/
def absorb (sig : Nat) : List Char → Nat × List Char
  | [] => (sig, [])
  | c :: rest =>
    let sig' := sig * 10 + Scalar.digitValue c
    if sig' < Nat.pow 2 64 then absorb sig' rest else (sig, c :: rest)

/-- The exponent behind `e`, and what follows. -/
def exponent? (cs : List Char) : Option (Int × List Char) :=
  let (neg, cs) := match cs with
    | '-' :: r => (true, r)
    | '+' :: r => (false, r)
    | r => (false, r)
  let ds := cs.takeWhile Scalar.isDigit
  (Scalar.fromDigits? 10 ds).map fun n =>
    (if neg then -(n : Int) else (n : Int), cs.dropWhile Scalar.isDigit)

/-- A whole number in 64 bits; the negative zero is a double. -/
def wholeNumber (neg : Bool) (sig : Nat) : Num :=
  if !neg then .int sig
  else if sig == 0 || Nat.pow 2 63 < sig then .float { Binary.ofInt sig with neg := true }
  else .int (-(sig : Int))

/-- A number behind its sign, if some double is near, and what follows. -/
def number? (neg : Bool) (cs : List Char) : Option (Option Num × List Char) := do
  let whole := cs.takeWhile Scalar.isDigit
  let rest := cs.dropWhile Scalar.isDigit
  let scaled (sig : Nat) (exp : Int) : Option Num := (Binary.ofScaled neg sig exp).map .float
  match whole with
  | [] => none
  | '0' :: _ :: _ => none
  | _ =>
    let (sig, extra) := absorb 0 whole
    match rest with
    | '.' :: r =>
      let frac := r.takeWhile Scalar.isDigit
      let r := r.dropWhile Scalar.isDigit
      if frac.isEmpty then none
      let (sig, dropped) := absorb sig frac
      let exp : Int := extra.length - (frac.length - dropped.length)
      let (e, r) ← match r with
        | c :: r' => if c == 'e' || c == 'E' then exponent? r' else some (0, r)
        | [] => some (0, [])
      return (scaled sig (exp + e), r)
    | c :: r =>
      if c == 'e' || c == 'E' then
        let (e, r) ← exponent? r
        return (scaled sig (extra.length + e), r)
      else if extra.isEmpty then return (some (wholeNumber neg sig), rest)
      else return (scaled sig extra.length, rest)
    | [] =>
      if extra.isEmpty then return (some (wholeNumber neg sig), [])
      else return (scaled sig extra.length, [])

def numberDoc : Option Num → Doc
  | some x => .num x
  | none => .unreadable

/-! ## Values -/

def word? (word : List Char) (cs : List Char) : Option (List Char) :=
  if word.isPrefixOf cs then some (cs.drop word.length) else none

mutual

/-- One value at the start of the text, and what follows; `deep` brackets may still open. -/
def valueN : Nat → Nat → List Char → Option (Doc × List Char)
  | 0, _, _ => none
  | n + 1, deep, cs =>
    let held (d : Doc) : Doc := if deep == 0 then .unreadable else d
    match skipBlanks cs with
    | '"' :: rest => (string? rest).map fun (s, rest) => (textDoc s, rest)
    | '[' :: rest =>
      match skipBlanks rest with
      | ']' :: rest => some (held (.list []), rest)
      | rest => (itemsN n (deep - 1) rest).map fun (items, rest) => (held (.list items), rest)
    | '\x7b' :: rest =>
      match skipBlanks rest with
      | '\x7d' :: rest => some (held (.map []), rest)
      | rest => (membersN n (deep - 1) rest).map fun (entries, rest) =>
          (held (Doc.ofEntries entries), rest)
    | 'n' :: rest => (word? ['u', 'l', 'l'] rest).map fun rest => (.null, rest)
    | 't' :: rest => (word? ['r', 'u', 'e'] rest).map fun rest => (.bool true, rest)
    | 'f' :: rest => (word? ['a', 'l', 's', 'e'] rest).map fun rest => (.bool false, rest)
    | '-' :: rest => (number? true rest).map fun (x, rest) => (numberDoc x, rest)
    | rest => (number? false rest).map fun (x, rest) => (numberDoc x, rest)

/-- Items up to the closing bracket. -/
def itemsN : Nat → Nat → List Char → Option (List Doc × List Char)
  | 0, _, _ => none
  | n + 1, deep, cs => do
    let (x, rest) ← valueN n deep cs
    match skipBlanks rest with
    | ',' :: rest =>
      let (xs, rest) ← itemsN n deep rest
      return (x :: xs, rest)
    | ']' :: rest => return ([x], rest)
    | _ => none

/-- Members up to the closing brace. -/
def membersN : Nat → Nat → List Char → Option (List (Doc × Doc) × List Char)
  | 0, _, _ => none
  | n + 1, deep, cs => do
    match skipBlanks cs with
    | '"' :: rest =>
      let (k, rest) ← string? rest
      match skipBlanks rest with
      | ':' :: rest =>
        let (x, rest) ← valueN n deep rest
        match skipBlanks rest with
        | ',' :: rest =>
          let (xs, rest) ← membersN n deep rest
          return ((textDoc k, x) :: xs, rest)
        | '\x7d' :: rest => return ([(textDoc k, x)], rest)
        | _ => none
      | _ => none
    | _ => none

end

/-- The document a text holds. -/
def readDoc? (text : String) : Option Doc :=
  let cs := text.toList
  match valueN (2 * cs.length + 2) 127 cs with
  | some (d, rest) => if (skipBlanks rest).isEmpty then some d else none
  | none => none

/-- The value a text holds. -/
def readJson? (text : String) : Option Json := (readDoc? text).bind Doc.toJson?

end RuleTree.JsonText
