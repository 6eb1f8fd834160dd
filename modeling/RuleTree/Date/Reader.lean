/-
  RuleTree.Date.Reader — instants read from text.

  Four forms, the first that fits: the strict ISO form with an offset (`strict?`), then
  date and time parted by `T`, date and time parted by blanks, and a date alone. The last
  three are in UTC and lenient: blanks may stand before a number, numbers may be shorter
  than usual, and a year may have a sign and any number of digits. The day must exist.
-/

import RuleTree.Date.Instant
import RuleTree.Doc.Scalar
import RuleTree.Text.Blank

namespace RuleTree.Instant

open RuleTree.Scalar (isDigit fromDigits?)

/-! ## Numbers -/

/-- A number of exactly so many digits, and what follows. -/
def fixed? (width : Nat) (cs : List Char) : Option (Nat × List Char) :=
  let ds := cs.take width
  if ds.length == width && ds.all isDigit then
    (fromDigits? 10 ds).map fun n => (n, cs.drop width)
  else none

/-- A number of at most so many digits behind blanks, and what follows. -/
def upTo? (width : Nat) (cs : List Char) : Option (Nat × List Char) :=
  let cs := Text.trimStart cs
  let ds := (cs.take width).takeWhile isDigit
  (fromDigits? 10 ds).map fun n => (n, cs.drop ds.length)

/-- A year behind blanks: up to four digits, or a sign and any number of them. -/
def year? (cs : List Char) : Option (Int × List Char) :=
  match Text.trimStart cs with
  | '-' :: rest => (fromDigits? 10 (rest.takeWhile isDigit)).map fun n =>
      (-(n : Int), rest.dropWhile isDigit)
  | '+' :: rest => (fromDigits? 10 (rest.takeWhile isDigit)).map fun n =>
      ((n : Int), rest.dropWhile isDigit)
  | cs => (upTo? 4 cs).map fun (n, rest) => ((n : Int), rest)

def mark? (c : Char) : List Char → Option (List Char)
  | d :: rest => if c = d then some rest else none
  | [] => none

/-- Nanoseconds from a point and digits, the tenth digit and later ones passed over; zero
where there is no point. -/
def fraction? (cs : List Char) : Option (Nat × List Char) :=
  match cs with
  | '.' :: rest =>
    let ds := (rest.take 9).takeWhile isDigit
    (fromDigits? 10 ds).map fun n => (n * Nat.pow 10 (9 - ds.length), rest.dropWhile isDigit)
  | cs => some (0, cs)

/-! ## The strict form -/

/-- Seconds east of UTC. -/
def offset? (cs : List Char) : Option (Int × List Char) :=
  match cs with
  | 'Z' :: rest | 'z' :: rest => some (0, rest)
  | sign :: rest => do
    let neg ← if sign == '+' then some false
      else if sign == '-' || sign.toNat == 0x2212 then some true
      else none
    let (h, rest) ← fixed? 2 rest
    let rest ← mark? ':' rest
    let (m, rest) ← fixed? 2 rest
    if h < 24 && m < 60 then
      let secs : Int := (h * 3600 + m * 60 : Nat)
      some (if neg then -secs else secs, rest)
    else none
  | [] => none

def strict? (cs : List Char) : Option Instant := do
  let (y, cs) ← fixed? 4 cs
  let cs ← mark? '-' cs
  let (mo, cs) ← fixed? 2 cs
  let cs ← mark? '-' cs
  let (d, cs) ← fixed? 2 cs
  let cs ← match cs with
    | c :: rest => if c == 'T' || c == 't' || c == ' ' then some rest else none
    | [] => none
  let (h, cs) ← fixed? 2 cs
  let cs ← mark? ':' cs
  let (mi, cs) ← fixed? 2 cs
  let cs ← mark? ':' cs
  let (s, cs) ← fixed? 2 cs
  let (nano, cs) ← fraction? cs
  let (offset, cs) ← offset? cs
  let i ← ofParts? ⟨y, mo, d⟩ h mi s nano
  if cs.isEmpty then some (i.shift offset) else none

/-! ## The lenient forms -/

def date? (cs : List Char) : Option (Date × List Char) := do
  let (y, cs) ← year? cs
  let cs ← mark? '-' cs
  let (mo, cs) ← upTo? 2 cs
  let cs ← mark? '-' cs
  let (d, cs) ← upTo? 2 cs
  return (⟨y, mo, d⟩, cs)

/-- A time of day to the end of the text. -/
def clock? (date : Date) (cs : List Char) : Option Instant := do
  let (h, cs) ← upTo? 2 cs
  let cs ← mark? ':' cs
  let (mi, cs) ← upTo? 2 cs
  let cs ← mark? ':' cs
  let (s, cs) ← upTo? 2 cs
  let (nano, cs) ← fraction? cs
  if cs.isEmpty then ofParts? date h mi s nano else none

def lenientT? (cs : List Char) : Option Instant := do
  let (date, cs) ← date? cs
  clock? date (← mark? 'T' cs)

def lenientBlank? (cs : List Char) : Option Instant := do
  let (date, cs) ← date? cs
  clock? date (Text.trimStart cs)

def dateAlone? (cs : List Char) : Option Instant := do
  let (date, cs) ← date? cs
  if cs.isEmpty then ofParts? date 0 0 0 0 else none

/-! ## Any form -/

/-- The instant of a text in the strict form. -/
def ofIso? (text : String) : Option Instant := strict? text.toList

/-- The instant of a text in any of the four forms. -/
def read? (text : String) : Option Instant :=
  let cs := text.toList
  strict? cs <|> lenientT? cs <|> lenientBlank? cs <|> dateAlone? cs

end RuleTree.Instant
