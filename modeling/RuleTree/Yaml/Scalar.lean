/-
  RuleTree.Yaml.Scalar — scalars as they are written.

  Each reader takes the text behind the opening quote, or from the first character of
  unquoted text, and gives the scalar with the number of characters it takes up. Document
  marks at the start of a line end unquoted text and are refused inside quotes.
-/

import RuleTree.Doc.Scalar
import RuleTree.Yaml.Folding

namespace RuleTree.Yaml

/-- A scalar that begins with these characters, in `n` more characters of text. -/
def more (n : Nat) (cs : List Char) (r : Option (List Char × Nat)) : Option (List Char × Nat) :=
  r.map fun (text, used) => (cs ++ text, used + n)

/-! ## Quoted text -/

/-- A line begins behind this gap; `joined` tells that a backslash took a line end away. -/
def beginsLine (gap : List Char) (joined : Bool) : Bool :=
  match gap with
  | [] => joined
  | c :: _ => isBreak c

/-- Text up to the closing single quote; a quote written twice is one. -/
def single? (gap : List Char) : List Char → Option (List Char × Nat)
  | [] => none
  | c :: rest =>
    if isWhite c then more 1 [] (single? (c :: gap) rest)
    else if beginsLine gap false && isMark (c :: rest) then none
    else if c == '\'' then
      match rest with
      | '\'' :: rest => more 2 (folded gap ++ ['\'']) (single? [] rest)
      | _ => some (folded gap, 1)
    else more 1 (folded gap ++ [c]) (single? [] rest)

def hexChar? (cs : List Char) : Option Char :=
  (Scalar.fromDigits? 16 cs).bind fun n => if n.isValidChar then some (Char.ofNat n) else none

/-- The character behind a backslash, the numbered ones apart. -/
def escape? (c : Char) : Option Char :=
  match c with
  | '0' => some (Char.ofNat 0)
  | 'a' => some (Char.ofNat 7)
  | 'b' => some (Char.ofNat 8)
  | 't' | '\t' => some '\t'
  | 'n' => some '\n'
  | 'v' => some (Char.ofNat 11)
  | 'f' => some (Char.ofNat 12)
  | 'r' => some '\r'
  | 'e' => some (Char.ofNat 27)
  | ' ' => some ' '
  | '"' => some '"'
  | '/' => some '/'
  | '\\' => some '\\'
  | 'N' => some (Char.ofNat 0x85)
  | '_' => some (Char.ofNat 0xA0)
  | 'L' => some (Char.ofNat 0x2028)
  | 'P' => some (Char.ofNat 0x2029)
  | _ => none

/-- Text up to the closing double quote. A backslash at the end of a line joins it with the
next one. -/
def double? (gap : List Char) (joined : Bool) : List Char → Option (List Char × Nat)
  | [] => none
  | c :: rest =>
    let lead := if joined then foldedOn gap else folded gap
    if isWhite c then more 1 [] (double? (c :: gap) joined rest)
    else if beginsLine gap joined && isMark (c :: rest) then none
    else if c == '"' then some (lead, 1)
    else if c != '\\' then more 1 (lead ++ [c]) (double? [] false rest)
    else
      match rest with
      | [] => none
      | 'x' :: a :: b :: rest =>
        (hexChar? [a, b]).bind fun x => more 4 (lead ++ [x]) (double? [] false rest)
      | 'u' :: a :: b :: c :: d :: rest =>
        (hexChar? [a, b, c, d]).bind fun x => more 6 (lead ++ [x]) (double? [] false rest)
      | 'U' :: a :: b :: c :: d :: e :: f :: g :: h :: rest =>
        (hexChar? [a, b, c, d, e, f, g, h]).bind fun x =>
          more 10 (lead ++ [x]) (double? [] false rest)
      | e :: rest =>
        if isBreak e then more 2 lead (double? [] true rest)
        else (escape? e).bind fun x => more 2 (lead ++ [x]) (double? [] false rest)

/-! ## Unquoted text -/

def isFlowMark (c : Char) : Bool := [',', '[', ']', '\x7b', '\x7d'].contains c

/-- Unquoted text ends before a word that begins so, for the gap in front of it: at a
comment, at a document mark, and in a block left of its margin. -/
def endsAtGap (flow : Bool) (margin : Nat) (gap next : List Char) : Bool :=
  !gap.isEmpty && (next.head? == some '#' || (beginsLine gap false && isMark next) ||
    (!flow && gap.any isBreak && indentBehind gap < margin))

/-- Unquoted text ends at this character: at a colon with a blank behind, and in brackets
at their marks. -/
def endsAtChar (flow : Bool) (c : Char) (rest : List Char) : Bool :=
  (c == ':' && endsWord rest) || (flow && isFlowMark c)

/-- A colon in brackets with a mark close behind, which is refused. -/
def looseColon (flow : Bool) (c : Char) (rest : List Char) : Bool :=
  flow && c == ':' && rest.head?.any fun d => isFlowMark d || d == '?'

/-- Unquoted text from here on, and the white space behind it. Lines that go on with it keep
to the right of the margin in a block. The flag tells that a line end follows the text. -/
def plain? (flow : Bool) (margin : Nat) (gap : List Char) :
    List Char → Option ((List Char × Nat) × Bool)
  | [] => if tabInMargin margin gap then none else some (([], 0), gap.any isBreak)
  | c :: rest =>
    if isWhite c then
      (plain? flow margin (c :: gap) rest).map fun ((text, used), b) => ((text, used + 1), b)
    else if tabInMargin margin gap then none
    else if endsAtGap flow margin gap (c :: rest) then some (([], 0), gap.any isBreak)
    else if looseColon flow c rest then none
    else if endsAtChar flow c rest then some (([], 0), gap.any isBreak)
    else (plain? flow margin [] rest).map fun ((text, used), b) =>
      ((folded gap ++ c :: text, used + 1), b)

end RuleTree.Yaml
