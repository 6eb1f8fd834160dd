/-
  RuleTree.Doc.Printer — compact JSON text of documents and values.

  No blanks; members in the order of the document; text raw but for the quote, the
  backslash and the control characters; doubles as `Layout.json` sets them out. What is
  unreadable is written as nothing.
-/

import RuleTree.Doc.Basic
import RuleTree.Number.Shortest

namespace RuleTree

def Num.text : Num → String
  | .int n => toString n
  | .float x => Layout.json.text x

/-! ## Text in quotes -/

def hexDigit (n : Nat) : Char := (Nat.digitChar (n % 16))

/-- The written form of one character inside quotes. -/
def escapeChar (c : Char) : List Char :=
  match c with
  | '"' => ['\\', '"']
  | '\\' => ['\\', '\\']
  | '\n' => ['\\', 'n']
  | '\r' => ['\\', 'r']
  | '\t' => ['\\', 't']
  | c =>
    if c.toNat == 8 then ['\\', 'b']
    else if c.toNat == 12 then ['\\', 'f']
    else if c.toNat < 32 then ['\\', 'u', '0', '0', hexDigit (c.toNat / 16), hexDigit c.toNat]
    else [c]

def quoteText (s : String) : String :=
  String.ofList ('"' :: s.toList.flatMap escapeChar ++ ['"'])

/-! ## Documents -/

namespace Doc

mutual

def text : Doc → String
  | .null | .unreadable => "null"
  | .bool b => if b then "true" else "false"
  | .num n => n.text
  | .str s => quoteText s
  | .plain s => quoteText s
  | .list items | .sequence items => "[" ++ ",".intercalate (itemTexts items) ++ "]"
  | .map entries => "\x7b" ++ ",".intercalate (entryTexts entries) ++ "\x7d"

def itemTexts : List Doc → List String
  | [] => []
  | x :: rest => x.text :: itemTexts rest

def entryTexts : List (String × Doc) → List String
  | [] => []
  | (k, x) :: rest => (quoteText k ++ ":" ++ x.text) :: entryTexts rest

end

end Doc

def Json.text (j : Json) : String := j.toDoc.text

end RuleTree
