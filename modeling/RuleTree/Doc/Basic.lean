/-
  RuleTree.Doc.Basic — documents as they are written.

  A document keeps what a value forgets: the order of members, repeated keys, unquoted
  scalars whose type the reader of the document decides (`plain`), and values that are
  well written but cannot be read (`unreadable`), which do no harm where they are passed
  over. Schemas are read from documents and written as documents; a JSON value is a
  document too.
  - `Doc.toJson?` is the value of a document: members sorted, the last of repeated keys,
    unquoted scalars by their own look.
  - `Json.toDoc` is the document of a value.
-/

import RuleTree.Json.Basic
import RuleTree.Doc.Scalar

namespace RuleTree

inductive Doc where
  | null
  | bool (b : Bool)
  | num (n : Num)
  | str (s : String)
  /-- An unquoted scalar: text, number, truth value or nothing, as its place asks. -/
  | plain (text : String)
  /-- Items in order; they may also stand for the members of a part. -/
  | list (items : List Doc)
  /-- Items in order that stand for nothing else. -/
  | sequence (items : List Doc)
  | map (entries : List (String × Doc))
  /-- A well written value that its reader cannot hold, such as a number past all doubles. -/
  | unreadable
deriving Inhabited, Repr

/-! ## Documents and values -/

namespace Doc

mutual

/-- The value of a document; `none` when an unquoted number is too large for one or a part
is unreadable. -/
def toJson? : Doc → Option Json
  | .null => some .null
  | .bool b => some (.bool b)
  | .num n => some (.num n)
  | .str s => some (.str s)
  | .plain text => Scalar.toJson? text
  | .list items | .sequence items => (itemsToJson? items).map .arr
  | .map entries => (entriesToJson? entries).map Json.object
  | .unreadable => none

def itemsToJson? : List Doc → Option (List Json)
  | [] => some []
  | x :: rest => do return (← x.toJson?) :: (← itemsToJson? rest)

def entriesToJson? : List (String × Doc) → Option (List (String × Json))
  | [] => some []
  | (k, x) :: rest => do return (k, ← x.toJson?) :: (← entriesToJson? rest)

end

mutual

/-- How deep the brackets of a document go. -/
def depth : Doc → Nat
  | .list items | .sequence items => depthItems items + 1
  | .map entries => depthEntries entries + 1
  | _ => 0

def depthItems : List Doc → Nat
  | [] => 0
  | x :: rest => max x.depth (depthItems rest)

def depthEntries : List (String × Doc) → Nat
  | [] => 0
  | (_, x) :: rest => max x.depth (depthEntries rest)

end

/-- The text of a scalar. -/
def asText? : Doc → Option String
  | .str s | .plain s => some s
  | _ => none

/-- The map of these members; one whose name is no text makes it unreadable. -/
def ofEntries (entries : List (Doc × Doc)) : Doc :=
  match entries.mapM fun (k, x) => k.asText?.map fun k => (k, x) with
  | some entries => .map entries
  | none => .unreadable

/-- Text, or nothing. -/
def ofOptional : Option String → Doc
  | none => .null
  | some s => .str s

end Doc

namespace Json

mutual

def toDoc : Json → Doc
  | .null => .null
  | .bool b => .bool b
  | .num n => .num n
  | .str s => .str s
  | .arr items => .list (itemsToDoc items)
  | .obj entries => .map (entriesToDoc entries)

def itemsToDoc : List Json → List Doc
  | [] => []
  | x :: rest => x.toDoc :: itemsToDoc rest

def entriesToDoc : List (String × Json) → List (String × Doc)
  | [] => []
  | (k, x) :: rest => (k, x.toDoc) :: entriesToDoc rest

end

end Json
end RuleTree
