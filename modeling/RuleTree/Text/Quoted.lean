/-
  RuleTree.Text.Quoted — text shown in quotes for a reader of reports.

  The quote, the backslash and the usual controls are written with a backslash, characters
  that do not show by their code point, all else as it is. File paths have their
  apostrophes behind a backslash as well.
-/

import RuleTree.Text.HiddenTable

namespace RuleTree.Text

def isHidden (c : Char) : Bool :=
  if 0x20 ≤ c.toNat && c.toNat < 0x7F then false
  else HiddenTable.ranges.any fun (a, b) => a ≤ c.toNat && c.toNat ≤ b

def shownChar (c : Char) : List Char :=
  match c with
  | '"' => ['\\', '"']
  | '\\' => ['\\', '\\']
  | '\n' => ['\\', 'n']
  | '\r' => ['\\', 'r']
  | '\t' => ['\\', 't']
  | c =>
    if c.toNat == 0 then ['\\', '0']
    else if isHidden c then
      ['\\', 'u', '\x7b'] ++ Nat.toDigits 16 c.toNat ++ ['\x7d']
    else [c]

/-- Text in quotes, each character by its written form. -/
def inQuotes (written : Char → List Char) (s : String) : String :=
  String.ofList ('"' :: s.toList.flatMap written ++ ['"'])

def quoted (s : String) : String := inQuotes shownChar s

def quotedPath (s : String) : String :=
  inQuotes (fun c => if c = '\'' then ['\\', '\''] else shownChar c) s

end RuleTree.Text
