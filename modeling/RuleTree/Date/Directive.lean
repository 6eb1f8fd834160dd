/-
  RuleTree.Date.Directive — directive text, and an instant shown by it.

  Directive text is running text with directives behind a percent sign: `%Y` is the year,
  `%-d` the day without a leading zero, `%%` a percent sign. A percent sign with anything
  else behind it is invalid (`Item.invalid`).
  - `items` reads directive text, `render` is the text of an instant under it.
-/

import RuleTree.Date.Printer

namespace RuleTree

inductive Directive where
  | year | yearInCentury
  | month (pad : Bool) | monthName | monthShort
  | day (pad : Bool) | weekdayName | weekdayShort
  | hour (pad : Bool) | hourOf12 (pad : Bool) | minute (pad : Bool) | second (pad : Bool)
  | millis | halfUpper | halfLower
  | offset | offsetColon | timestamp
deriving DecidableEq, Repr

namespace Directive

/-- The directive behind `%`, and how many characters it takes. -/
def parse? : List Char → Option (Directive × Nat)
  | 'Y' :: _ => some (year, 1)
  | 'y' :: _ => some (yearInCentury, 1)
  | 'm' :: _ => some (month true, 1)
  | 'B' :: _ => some (monthName, 1)
  | 'b' :: _ => some (monthShort, 1)
  | 'd' :: _ => some (day true, 1)
  | 'A' :: _ => some (weekdayName, 1)
  | 'a' :: _ => some (weekdayShort, 1)
  | 'H' :: _ => some (hour true, 1)
  | 'I' :: _ => some (hourOf12 true, 1)
  | 'M' :: _ => some (minute true, 1)
  | 'S' :: _ => some (second true, 1)
  | 'p' :: _ => some (halfUpper, 1)
  | 'P' :: _ => some (halfLower, 1)
  | 'z' :: _ => some (offset, 1)
  | 's' :: _ => some (timestamp, 1)
  | '3' :: 'f' :: _ => some (millis, 2)
  | ':' :: 'z' :: _ => some (offsetColon, 2)
  | '-' :: 'm' :: _ => some (month false, 2)
  | '-' :: 'd' :: _ => some (day false, 2)
  | '-' :: 'H' :: _ => some (hour false, 2)
  | '-' :: 'I' :: _ => some (hourOf12 false, 2)
  | '-' :: 'M' :: _ => some (minute false, 2)
  | '-' :: 'S' :: _ => some (second false, 2)
  | _ => none

/-! ## Names -/

def monthNames : List String :=
  ["January", "February", "March", "April", "May", "June", "July", "August", "September",
    "October", "November", "December"]

def weekdayNames : List String :=
  ["Sunday", "Monday", "Tuesday", "Wednesday", "Thursday", "Friday", "Saturday"]

def nameAt (names : List String) (n : Nat) : List Char := ((names[n]?).getD "").toList

/-- A number of two digits, or without the leading zero. -/
def two (pad : Bool) (n : Nat) : List Char := padded (if pad then 2 else 1) n

def intChars (n : Int) : List Char :=
  if n < 0 then '-' :: Nat.toDigits 10 n.natAbs else Nat.toDigits 10 n.natAbs

/-- What a directive shows of an instant. -/
def chars (i : Instant) : Directive → List Char
  | year => yearChars i.date.year
  | yearInCentury => padded 2 (i.date.year % 100).toNat
  | month pad => two pad i.date.month
  | monthName => nameAt monthNames (i.date.month - 1)
  | monthShort => (nameAt monthNames (i.date.month - 1)).take 3
  | day pad => two pad i.date.day
  | weekdayName => nameAt weekdayNames i.date.weekday
  | weekdayShort => (nameAt weekdayNames i.date.weekday).take 3
  | hour pad => two pad i.hour
  | hourOf12 pad => two pad (if i.hour % 12 == 0 then 12 else i.hour % 12)
  | minute pad => two pad i.minute
  | second pad => two pad i.shownSecond
  | millis => padded 3 (i.shownNano / 1000000)
  | halfUpper => if i.hour < 12 then ['A', 'M'] else ['P', 'M']
  | halfLower => if i.hour < 12 then ['a', 'm'] else ['p', 'm']
  | offset => ['+', '0', '0', '0', '0']
  | offsetColon => ['+', '0', '0', ':', '0', '0']
  | timestamp => intChars i.timestamp

/-! ## Directive text -/

inductive Item where
  | text (c : Char)
  | directive (d : Directive)
  /-- A percent sign that begins no directive. -/
  | invalid
deriving DecidableEq, Repr

/-- The items of directive text; `skip` characters belong to the last one. -/
def itemsFrom : Nat → List Char → List Item
  | _, [] => []
  | skip + 1, _ :: cs => itemsFrom skip cs
  | 0, '%' :: cs =>
    match cs with
    | '%' :: cs => .text '%' :: itemsFrom 0 cs
    | cs =>
      match parse? cs with
      | some (d, n) => .directive d :: itemsFrom n cs
      | none => .invalid :: itemsFrom 0 cs
  | 0, c :: cs => .text c :: itemsFrom 0 cs

def items (cs : List Char) : List Item := itemsFrom 0 cs

def Item.chars (i : Instant) : Item → List Char
  | .text c => [c]
  | .directive d => d.chars i
  | .invalid => []

/-- The text of an instant under directive text. -/
def render (i : Instant) (cs : List Char) : List Char := (items cs).flatMap (Item.chars i)

end Directive
end RuleTree
