/-
  RuleTree.Date.Instant — days of the calendar and instants in UTC.

  The calendar is the Gregorian one carried on in both directions, with a year zero. An
  instant is a day and a time of it; during a leap second the second stays 59 and the
  nanoseconds pass one thousand million. An instant at another offset is moved to UTC by at
  most one day (`shift`), so only `next` and `prev` are needed; the running number of a day
  serves weekdays and time stamps.
-/

namespace RuleTree

structure Date where
  year : Int
  month : Nat
  day : Nat
deriving DecidableEq, Repr, Inhabited

namespace Date

def isLeap (y : Int) : Bool := y % 4 == 0 && (y % 100 != 0 || y % 400 == 0)

def daysInMonth (y : Int) (m : Nat) : Nat :=
  if m == 2 then (if isLeap y then 29 else 28)
  else if m == 4 || m == 6 || m == 9 || m == 11 then 30
  else 31

/-- The day exists, in the years that are kept. -/
def exists? (d : Date) : Bool :=
  -262143 ≤ d.year && d.year ≤ 262142 && 1 ≤ d.month && d.month ≤ 12 &&
    1 ≤ d.day && d.day ≤ daysInMonth d.year d.month

def next (d : Date) : Date :=
  if d.day < daysInMonth d.year d.month then { d with day := d.day + 1 }
  else if d.month < 12 then { d with month := d.month + 1, day := 1 }
  else ⟨d.year + 1, 1, 1⟩

def prev (d : Date) : Date :=
  if 1 < d.day then { d with day := d.day - 1 }
  else if 1 < d.month then { d with month := d.month - 1, day := daysInMonth d.year (d.month - 1) }
  else ⟨d.year - 1, 12, 31⟩

/-- Days from the first day of 1970. -/
def number (d : Date) : Int :=
  let y := d.year - 1
  let months := (List.range (d.month - 1)).map fun m => daysInMonth d.year (m + 1)
  365 * y + y / 4 - y / 100 + y / 400 - 719162 + (months.foldl (· + ·) 0 : Nat) + (d.day : Int) - 1

/-- Zero for Sunday up to six for Saturday. -/
def weekday (d : Date) : Nat := ((d.number + 4) % 7).toNat

end Date

structure Instant where
  date : Date
  hour : Nat
  minute : Nat
  second : Nat
  /-- From one thousand million on inside a leap second. -/
  nano : Nat
deriving DecidableEq, Repr, Inhabited

namespace Instant

/-- The second as clocks show it: 60 inside a leap second. -/
def shownSecond (i : Instant) : Nat := if 1000000000 ≤ i.nano then i.second + 1 else i.second

def shownNano (i : Instant) : Nat := i.nano % 1000000000

/-- A time of day from its parts as read, second 60 included. -/
def ofParts? (date : Date) (h m s nano : Nat) : Option Instant :=
  if date.exists? && h < 24 && m < 60 && s ≤ 60 then
    some (if s == 60 then ⟨date, h, m, 59, nano + 1000000000⟩ else ⟨date, h, m, s, nano⟩)
  else none

/-- The instant `offset` seconds earlier, for an offset below one day. -/
def shift (i : Instant) (offset : Int) : Instant :=
  let total : Int := (i.hour * 3600 + i.minute * 60 + i.second : Nat) - offset
  let date := if total < 0 then i.date.prev else if 86400 ≤ total then i.date.next else i.date
  let t := (total % 86400).toNat
  ⟨date, t / 3600, t / 60 % 60, t % 60, i.nano⟩

/-- Seconds from the start of 1970. -/
def timestamp (i : Instant) : Int :=
  i.date.number * 86400 + (i.hour * 3600 + i.minute * 60 + i.second : Nat)

end Instant
end RuleTree
