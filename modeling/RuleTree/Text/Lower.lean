/-
  RuleTree.Text.Lower — lower case.

  One character has at most one lower-case form, but for the dotted capital I, which
  becomes two characters, and the capital sigma, which at the end of a word becomes the
  final sigma. A word ends where no letter with a case follows and one comes before,
  skipping marks.
-/

import RuleTree.Text.CaseTable

namespace RuleTree.Text

def inRanges (ranges : List (Nat × Nat)) (c : Char) : Bool :=
  ranges.any fun (a, b) => a ≤ c.toNat && c.toNat ≤ b

/-- The first character that is not skipped has a case. -/
def meetsCased (cs : List Char) : Bool :=
  match cs.dropWhile (inRanges CaseTable.skippedRanges) with
  | c :: _ => inRanges CaseTable.casedRanges c
  | [] => false

def tableLower (c : Char) : Char :=
  let n := c.toNat
  match CaseTable.lowerRanges.find? fun (a, b, step, _) => a ≤ n && n ≤ b && (n - a) % step == 0 with
  | some (_, _, _, shift) => Char.ofNat ((n : Int) + shift).toNat
  | none => c

/-- The lower-case form of a character other than the capital sigma. -/
def lowerChar (c : Char) : List Char :=
  if c.toNat < 128 then [c.toLower]
  else if c.toNat == 0x130 then ['i', Char.ofNat 0x307]
  else [tableLower c]

/-- Lower case of `cs`, with `before` the characters in front of it, nearest first. -/
def lowerFrom (before : List Char) : List Char → List Char
  | [] => []
  | c :: rest =>
    let low :=
      if c.toNat == 0x3A3 then
        if meetsCased before && !meetsCased rest then [Char.ofNat 0x3C2] else [Char.ofNat 0x3C3]
      else lowerChar c
    low ++ lowerFrom (c :: before) rest

def lower (s : String) : String := String.ofList (lowerFrom [] s.toList)

end RuleTree.Text
