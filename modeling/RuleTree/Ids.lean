/-
  RuleTree.Ids — names for numbered nodes.

  A source of names gives the name of each number; one that gives no name twice makes the
  nodes of a tree distinct. `sequential` counts from one behind a prefix. `random` makes
  names in the form of random 128-bit identifiers, different for each number and seed.
-/

namespace RuleTree.Ids

/-- The prefix and the number, counted from one. -/
def sequential (stem : String) (n : Nat) : String := stem ++ toString (n + 1)

/-! ## Random identifiers -/

/-- A one-to-one scrambling of 64-bit words. -/
def scramble (x : UInt64) : UInt64 :=
  let x := (x ^^^ (x >>> 30)) * 0xbf58476d1ce4e5b9
  let x := (x ^^^ (x >>> 27)) * 0x94d049bb133111eb
  x ^^^ (x >>> 31)

def hexChars (width n : Nat) : List Char :=
  let ds := Nat.toDigits 16 (n % Nat.pow 16 width)
  List.replicate (width - ds.length) '0' ++ ds

/-- Five groups of hexadecimal digits, the version digit 4 and the variant `8`, `9`, `a` or
`b` in their places. -/
def random (seed : UInt64) (n : Nat) : String :=
  let high := (scramble (seed + UInt64.ofNat n * 0x9e3779b97f4a7c15)).toNat
  let low := (scramble (UInt64.ofNat n ^^^ scramble seed)).toNat
  String.ofList (
    hexChars 8 (high >>> 32) ++ '-' :: hexChars 4 (high >>> 16) ++ '-' :: '4' ::
    hexChars 3 high ++ '-' :: hexChars 1 (8 + (low >>> 60) % 4) ++ hexChars 3 (low >>> 48) ++
    '-' :: hexChars 12 low)

/-- The form of a random identifier. -/
def isRandomForm (s : String) : Bool :=
  let cs := s.toList
  let hex (c : Char) : Bool := ('0' ≤ c && c ≤ '9') || ('a' ≤ c && c ≤ 'f')
  cs.length == 36 &&
    (cs.zipIdx.all fun (c, i) =>
      if [8, 13, 18, 23].contains i then c == '-'
      else if i == 14 then c == '4'
      else if i == 19 then ['8', '9', 'a', 'b'].contains c
      else hex c)

end RuleTree.Ids
