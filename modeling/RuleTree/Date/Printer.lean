/-
  RuleTree.Date.Printer — instants as ISO text.

  Years from 0 to 9999 have four digits, others a sign and at least four. The fraction has
  three digits (`isoMillis`), or none, three, six or nine, as few as are exact (`iso`).
-/

import RuleTree.Date.Instant

namespace RuleTree

/-- Decimal digits, with zeros in front up to a width. -/
def padded (width n : Nat) : List Char :=
  let ds := Nat.toDigits 10 n
  List.replicate (width - ds.length) '0' ++ ds

def yearChars (y : Int) : List Char :=
  if 0 ≤ y && y ≤ 9999 then padded 4 y.toNat
  else (if y < 0 then '-' else '+') :: padded 4 y.natAbs

def Date.chars (d : Date) : List Char :=
  yearChars d.year ++ '-' :: padded 2 d.month ++ '-' :: padded 2 d.day

namespace Instant

def clockChars (i : Instant) : List Char :=
  padded 2 i.hour ++ ':' :: padded 2 i.minute ++ ':' :: padded 2 i.shownSecond

/-- A fraction of as few digits as are exact. -/
def fractionChars (i : Instant) : List Char :=
  let n := i.shownNano
  if n == 0 then []
  else if n % 1000000 == 0 then '.' :: padded 3 (n / 1000000)
  else if n % 1000 == 0 then '.' :: padded 6 (n / 1000)
  else '.' :: padded 9 n

def isoChars (i : Instant) (fraction zone : List Char) : List Char :=
  i.date.chars ++ 'T' :: i.clockChars ++ fraction ++ zone

/-- ISO text with milliseconds and `Z`. -/
def isoMillis (i : Instant) : String :=
  String.ofList (i.isoChars ('.' :: padded 3 (i.shownNano / 1000000)) ['Z'])

/-- ISO text with an exact fraction and `Z`. -/
def iso (i : Instant) : String := String.ofList (i.isoChars i.fractionChars ['Z'])

/-- ISO text with an exact fraction and a numeric offset. -/
def isoOffset (i : Instant) : String :=
  String.ofList (i.isoChars i.fractionChars ['+', '0', '0', ':', '0', '0'])

end Instant
end RuleTree
