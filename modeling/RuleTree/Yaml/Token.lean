/-
  RuleTree.Yaml.Token — plain YAML text as tokens.

  Marks, scalars, and what indentation says: where block lists and maps begin and end. A
  scalar or a bracket may turn out to be a key once the colon behind it is read, if that
  stands in the same line and within 1024 characters; the mark of the key then goes in
  front of it. Anchors, aliases, tags, directives and block scalars are no part of plain
  text and are refused.
-/

import RuleTree.Yaml.Scalar

namespace RuleTree.Yaml

inductive Token where
  /-- A document begins, and one ends. -/
  | start
  | stop
  | blockList
  | blockMap
  | blockEnd
  | listOpen
  | listClose
  | mapOpen
  | mapClose
  /-- The dash of a block list. -/
  | item
  | comma
  /-- A key follows, and its value. -/
  | key
  | value
  | scalar (text : String) (isQuoted : Bool)
deriving DecidableEq, Repr

/-! ## Places -/

structure Place where
  index : Nat
  line : Nat
  column : Nat
deriving DecidableEq, Repr

def Place.past (p : Place) (c : Char) : Place :=
  if isBreak c then ⟨p.index + 1, p.line + 1, 0⟩ else ⟨p.index + 1, p.line, p.column + 1⟩

theorem Place.index_past (p : Place) (c : Char) : (p.past c).index = p.index + 1 := by
  unfold past
  split <;> rfl

/-- A token that is a key if a colon follows. -/
structure Candidate where
  place : Place
  /-- The tokens in front of it. -/
  count : Nat
  /-- It stands where only a key may stand. -/
  required : Bool
deriving DecidableEq, Repr

def Candidate.isStale (k : Candidate) (p : Place) : Bool :=
  k.place.line < p.line || k.place.index + 1024 < p.index

/-! ## The scan -/

structure Scan where
  rest : List Char
  place : Place
  tokens : Array Token
  /-- Columns of the open block lists and maps, the innermost first. -/
  blocks : List Nat
  keyAllowed : Bool
  candidate : Option Candidate
  /-- The candidates around the open brackets, the innermost first. -/
  outer : List (Option Candidate)

namespace Scan

def ofText (cs : List Char) : Scan := ⟨cs, ⟨0, 0, 0⟩, #[], [], true, none, []⟩

def inFlow (s : Scan) : Bool := !s.outer.isEmpty

/-- The least column of what belongs to the innermost block. -/
def margin (s : Scan) : Nat :=
  match s.blocks with
  | [] => 0
  | c :: _ => c + 1

def emit (t : Token) (s : Scan) : Scan := { s with tokens := s.tokens.push t }

def advance : Nat → Scan → Scan
  | 0, s => s
  | n + 1, s =>
    match s.rest with
    | [] => s
    | c :: rest => advance n { s with rest, place := s.place.past c }

/-! ## Blocks and candidates -/

/-- Close the blocks that something in this column does not belong to. -/
def closeBlocks (keep : Nat → Bool) (s : Scan) : Scan :=
  if s.inFlow then s
  else
    let closed := s.blocks.takeWhile (!keep ·)
    { s with
      blocks := s.blocks.drop closed.length
      tokens := s.tokens ++ Array.replicate closed.length Token.blockEnd }

/-- Open a block in this column in front of the last tokens, unless one is open there. -/
def openBlock (t : Token) (column count : Nat) (s : Scan) : Scan :=
  if s.inFlow || column < s.margin then s
  else { s with blocks := column :: s.blocks, tokens := s.tokens.insertIdxIfInBounds count t }

/-- Forget the candidate; one that had to be a key is missed. -/
def dropCandidate? (s : Scan) : Option Scan :=
  if s.candidate.any Candidate.required then none else some { s with candidate := none }

/-- The next token is a candidate where a key may stand. -/
def markCandidate? (s : Scan) : Option Scan :=
  if s.keyAllowed then
    s.dropCandidate?.map fun s =>
      { s with candidate := some {
          place := s.place
          count := s.tokens.size
          required := !s.inFlow && s.blocks.head? == some s.place.column } }
  else some s

/-- Forget the candidates that are too far away. -/
def dropStale? (s : Scan) : Option Scan :=
  let isStale (k : Candidate) : Bool := k.isStale s.place
  let fresh (k : Option Candidate) : Option Candidate := k.filter (!isStale ·)
  if (s.candidate :: s.outer).any fun k => k.any fun k => isStale k && k.required then none
  else some { s with candidate := fresh s.candidate, outer := s.outer.map fresh }

/-! ## Between tokens -/

/-- How far blanks, comments and line ends go, and whether a key may stand behind them. A
tab is a blank in brackets and where no key may stand. -/
def skipped (flow : Bool) (keyAllowed inComment : Bool) : List Char → Nat × Bool
  | [] => (0, keyAllowed)
  | c :: rest =>
    let on (r : Nat × Bool) : Nat × Bool := (r.1 + 1, r.2)
    if isBreak c then on (skipped flow (keyAllowed || !flow) false rest)
    else if inComment || c == '#' then on (skipped flow keyAllowed true rest)
    else if c == ' ' || (c == '\t' && (flow || !keyAllowed)) then
      on (skipped flow keyAllowed false rest)
    else (0, keyAllowed)

/-- Go to the next token. A byte order mark may stand in front of the text. -/
def toToken (s : Scan) : Scan :=
  let isMarked := s.place.index == 0 && s.rest.head?.any fun c => c.toNat == 0xFEFF
  let s := if isMarked then s.advance 1 else s
  let (n, keyAllowed) := skipped s.inFlow s.keyAllowed false s.rest
  { s.advance n with keyAllowed }

/-! ## One token -/

/-- A document begins or ends. -/
def mark? (t : Token) (s : Scan) : Option Scan :=
  (s.closeBlocks fun _ => false).dropCandidate?.map fun s =>
    ({ s with keyAllowed := false }.advance 3).emit t

def openFlow? (t : Token) (s : Scan) : Option Scan :=
  s.markCandidate?.map fun s =>
    let inside := { s with keyAllowed := true, outer := s.candidate :: s.outer, candidate := none }
    (inside.advance 1).emit t

def closeFlow? (t : Token) (s : Scan) : Option Scan :=
  match s.outer with
  | [] => none
  | k :: outer => some (({ s with keyAllowed := false, outer, candidate := k }.advance 1).emit t)

def comma? (s : Scan) : Option Scan :=
  s.dropCandidate?.map fun s => ({ s with keyAllowed := true }.advance 1).emit .comma

/-- A dash: only where a key may stand, and not in brackets. -/
def item? (s : Scan) : Option Scan :=
  if s.inFlow || !s.keyAllowed then none
  else (s.openBlock .blockList s.place.column s.tokens.size).dropCandidate?.map fun s =>
    (s.advance 1).emit .item

/-- A question mark: a key follows that need not fit in a line. -/
def key? (s : Scan) : Option Scan :=
  if !s.inFlow && !s.keyAllowed then none
  else (s.openBlock .blockMap s.place.column s.tokens.size).dropCandidate?.map fun s =>
    ({ s with keyAllowed := !s.inFlow }.advance 1).emit .key

/-- A colon: the candidate is a key, or a value follows whose key has its own mark. -/
def value? (s : Scan) : Option Scan :=
  match s.candidate with
  | some k =>
    let s := { s with
      tokens := s.tokens.insertIdxIfInBounds k.count .key
      candidate := none
      keyAllowed := false }
    some (((s.openBlock .blockMap k.place.column k.count).advance 1).emit .value)
  | none =>
    if !s.inFlow && !s.keyAllowed then none
    else
      let s := s.openBlock .blockMap s.place.column s.tokens.size
      some (({ s with keyAllowed := !s.inFlow }.advance 1).emit .value)

/-- Quoted text, read behind its opening quote. -/
def quoted? (read : List Char → Option (List Char × Nat)) (rest : List Char) (s : Scan) :
    Option Scan := do
  let s ← s.markCandidate?
  let (text, used) ← read rest
  let s := { s with keyAllowed := false }.advance (used + 1)
  return s.emit (.scalar (String.ofList text) true)

/-- Unquoted text. A key may stand behind it if a line ends there. -/
def unquoted? (s : Scan) : Option Scan := do
  let s ← s.markCandidate?
  let ((text, used), broken) ← plain? s.inFlow s.margin [] s.rest
  let s := { s with keyAllowed := broken }.advance used
  return s.emit (.scalar (String.ofList text) false)

/-- Characters that no token of plain text begins with. -/
def isReserved (c : Char) : Bool :=
  ['#', '&', '*', '!', '|', '>', '%', '@', '\t'].contains c || c.toNat == 0x60

/-- The token that begins with this character. -/
def token? (c : Char) (rest : List Char) (s : Scan) : Option Scan :=
  if s.place.column == 0 && isMark (c :: rest) then s.mark? (if c == '-' then .start else .stop)
  else if c == '[' then s.openFlow? .listOpen
  else if c == '\x7b' then s.openFlow? .mapOpen
  else if c == ']' then s.closeFlow? .listClose
  else if c == '\x7d' then s.closeFlow? .mapClose
  else if c == ',' then s.comma?
  else if c == '-' && endsWord rest then s.item?
  else if c == '?' && (s.inFlow || endsWord rest) then s.key?
  else if c == ':' && (s.inFlow || endsWord rest) then s.value?
  else if c == '\'' then s.quoted? (single? []) rest
  else if c == '"' then s.quoted? (double? [] false) rest
  else if isReserved c then none
  else s.unquoted?

/-! ## All tokens -/

/-- The tokens of the text that is left, up to the first argument many. -/
def tokensN : Nat → Scan → Option (Array Token)
  | 0, _ => none
  | n + 1, s => do
    let s ← s.toToken.dropStale?
    match s.rest with
    | [] => return (← (s.closeBlocks fun _ => false).dropCandidate?).tokens
    | c :: rest => tokensN n (← (s.closeBlocks (· ≤ s.place.column)).token? c rest)

end Scan

/-- The tokens of a text, each of which takes up a character at least. -/
def tokens? (text : String) : Option (List Token) :=
  let cs := text.toList
  if cs.all isAllowed then
    (Scan.tokensN (cs.length + 1) (Scan.ofText (unifyBreaks cs))).map Array.toList
  else none

end RuleTree.Yaml
