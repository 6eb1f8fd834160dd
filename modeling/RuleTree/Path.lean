/-
  RuleTree.Path — field paths.

  A path is text cut into segments by the schema's separator; a point cuts as well, and
  empty segments do not count. The separator may be any text, the empty one included,
  which cuts between all characters.
  - `pieces` cuts a text, first occurrences first; `beforeLast?` is what stands before the
    last occurrence.
  - `isUnder` is "equal or nested in": the rest must start with the separator.
  - `outermost` keeps the paths that are not under another one, shortest first.
  - `ancestors` are the paths from the first segment of a path to the path itself.
-/

import RuleTree.Json.Basic

namespace RuleTree.Path

/-! ## Cutting text -/

def consHead (c : Char) : List (List Char) → List (List Char)
  | [] => [[c]]
  | p :: ps => (c :: p) :: ps

/-- Cut at each occurrence of a separator that is not empty; `skip` characters are still
inside the last occurrence. -/
def cut (sep : List Char) : Nat → List Char → List (List Char)
  | _, [] => [[]]
  | skip + 1, _ :: cs => cut sep skip cs
  | 0, c :: cs =>
    if sep.isPrefixOf (c :: cs) then [] :: cut sep (sep.length - 1) cs
    else consHead c (cut sep 0 cs)

/-- The pieces between the occurrences of the separator. -/
def pieces (sep cs : List Char) : List (List Char) :=
  match sep with
  | [] => [] :: cs.map (fun c => [c]) ++ [[]]
  | _ => cut sep 0 cs

/-- What stands before the last occurrence of the separator. -/
def beforeLast? (sep : List Char) : List Char → Option (List Char)
  | [] => if sep.isEmpty then some [] else none
  | c :: cs =>
    match beforeLast? sep cs with
    | some p => some (c :: p)
    | none => if sep.isPrefixOf (c :: cs) then some [] else none

/-! ## Segments -/

/-- The segments of a path. -/
def segmentChars (sep cs : List Char) : List (List Char) :=
  let parts := (pieces sep cs).filter (!·.isEmpty)
  if sep == ['.'] then parts
  else (parts.flatMap (pieces ['.'])).filter (!·.isEmpty)

def segments (sep path : String) : List String :=
  (segmentChars sep.toList path.toList).map String.ofList

def join (sep : String) (segs : List String) : String := sep.intercalate segs

/-- The path of the segments before the last separator. -/
def parent? (sep path : String) : Option String :=
  (beforeLast? sep.toList path.toList).map String.ofList

/-- From the first piece of the path on, each piece joined to those before it. -/
def ancestorsFrom (sep : String) (path : String) : List (List Char) → List String
  | [] => []
  | p :: ps =>
    let path := (if path.isEmpty then path else path ++ sep) ++ String.ofList p
    path :: ancestorsFrom sep path ps

def ancestors (sep path : String) : List String :=
  ancestorsFrom sep "" (pieces sep.toList path.toList)

/-! ## Nesting -/

def dropPrefix? : List Char → List Char → Option (List Char)
  | [], cs => some cs
  | p :: ps, c :: cs => if p = c then dropPrefix? ps cs else none
  | _ :: _, [] => none

/-- The path is the root or lies under it. -/
def isUnder (sep path root : String) : Bool :=
  match dropPrefix? root.toList path.toList with
  | some [] => true
  | some rest => sep.toList.isPrefixOf rest
  | none => false

/-- Keep, in order, the paths that are under none kept before them. -/
def keepRoots (sep : String) (kept : List String) : List String → List String
  | [] => kept
  | p :: ps =>
    if kept.any (isUnder sep p ·) then keepRoots sep kept ps
    else keepRoots sep (kept ++ [p]) ps

/-- Put a path in front of those at least as long; length is counted in UTF-8. -/
def insertBySize (p : String) : List String → List String
  | [] => [p]
  | q :: qs => if p.utf8ByteSize ≤ q.utf8ByteSize then p :: q :: qs else q :: insertBySize p qs

/-- Shortest first, those of one length in the order given. -/
def bySize (paths : List String) : List String := paths.foldr insertBySize []

/-- The paths that are not under another one, shortest first. -/
def outermost (sep : String) (paths : List String) : List String :=
  keepRoots sep [] (bySize paths)

end RuleTree.Path
