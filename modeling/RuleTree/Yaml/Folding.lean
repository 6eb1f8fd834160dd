/-
  RuleTree.Yaml.Folding — the characters of YAML text, and how the lines of a scalar join.

  A scalar may go on over several lines. The blanks around a line end go; one line end
  stands for a space, and of several the first goes (`folded`; `folded_of_no_break`).
  Every line end is one character here: `unifyBreaks` takes the pairs and the other forms
  away. The line and paragraph separators end lines too, but are kept in scalars.
-/

namespace RuleTree.Yaml

/-- Characters that may stand in a text. -/
def isAllowed (c : Char) : Bool :=
  let n := c.toNat
  n == 9 || n == 10 || n == 13 || (32 ≤ n && n ≤ 126) || n == 0x85 ||
    (0xA0 ≤ n && n ≤ 0xFFFD) || 0x10000 ≤ n

/-- The text with a line feed for every line end but the separators. -/
def unifyBreaks : List Char → List Char
  | [] => []
  | '\r' :: '\n' :: rest => '\n' :: unifyBreaks rest
  | c :: rest => (if c == '\r' || c.toNat == 0x85 then '\n' else c) :: unifyBreaks rest

def isBreak (c : Char) : Bool := c == '\n' || c.toNat == 0x2028 || c.toNat == 0x2029

def isBlank (c : Char) : Bool := c == ' ' || c == '\t'

def isWhite (c : Char) : Bool := isBlank c || isBreak c

/-- A word ends in front of this text. -/
def endsWord : List Char → Bool
  | [] => true
  | c :: _ => isWhite c

/-- The start or end mark of a document, where a line begins with this text. -/
def isMark : List Char → Bool
  | '-' :: '-' :: '-' :: rest => endsWord rest
  | '.' :: '.' :: '.' :: rest => endsWord rest
  | _ => false

/-! ## Between the words of a scalar

A gap is the white space behind a word, the newest character first. -/

/-- What the white space between two words of a scalar stands for. -/
def folded (gap : List Char) : List Char :=
  match (gap.filter isBreak).reverse with
  | [] => gap.reverse
  | ['\n'] => [' ']
  | '\n' :: more => more
  | breaks => breaks

/-- Blanks inside a line are kept as they are. -/
theorem folded_of_no_break {gap : List Char} (h : gap.filter isBreak = []) :
    folded gap = gap.reverse := by
  simp [folded, h]

/-- The same behind a line end that a backslash takes away. -/
def foldedOn (gap : List Char) : List Char := (gap.filter isBreak).reverse

/-- Blanks in front of the next word, in the line it begins. -/
def indentBehind (gap : List Char) : Nat := (gap.takeWhile isBlank).length

/-- In a line that begins in this gap, a tab stands left of the margin. -/
def tabInMargin (margin : Nat) (gap : List Char) : Bool :=
  match gap with
  | [] => false
  | c :: before =>
    (c == '\t' && before.any isBreak && indentBehind before < margin) || tabInMargin margin before

end RuleTree.Yaml
