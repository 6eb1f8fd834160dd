/-
  RuleTree.Yaml.Reader — plain YAML text as a document.

  Block lists and maps by indentation, the same in brackets, and scalars. A list under a
  key may stand at the indentation of the key; a pair among the items of a list in brackets
  is a map; a key or a value that is left out is an empty scalar. One document, with or
  without its marks; an empty text is an empty scalar. Lists and maps nested in more than
  128 of them are unreadable.
-/

import RuleTree.Doc.Basic
import RuleTree.Yaml.Token

namespace RuleTree.Yaml

/-! ## Nodes -/

mutual

/-- The node at the head of the tokens, and what follows. `deep` lists and maps may still
open; `inBlock` tells whether indentation may open them, and `underKey` whether dashes may. -/
def nodeN : Nat → Nat → (inBlock underKey : Bool) → List Token → Option (Doc × List Token)
  | 0, _, _, _, _ => none
  | n + 1, deep, inBlock, underKey, ts =>
    let ofItems (r : List Doc × List Token) : Doc × List Token :=
      (if deep == 0 then .unreadable else .sequence r.1, r.2)
    let ofEntries (r : List (Doc × Doc) × List Token) : Doc × List Token :=
      (if deep == 0 then .unreadable else Doc.ofEntries r.1, r.2)
    match ts with
    | .scalar text isQuoted :: ts => some (if isQuoted then .str text else .plain text, ts)
    | .listOpen :: ts => (flowItemsN n (deep - 1) ts).map ofItems
    | .mapOpen :: ts => (flowEntriesN n (deep - 1) ts).map ofEntries
    | .blockList :: ts => if inBlock then (itemsN n (deep - 1) ts).map ofItems else none
    | .blockMap :: ts => if inBlock then (entriesN n (deep - 1) ts).map ofEntries else none
    | .item :: _ => if underKey then (dashesN n (deep - 1) ts).map ofItems else none
    | _ => none

/-- A node, or an empty scalar in front of one of these tokens. -/
def nodeOrN : Nat → Nat → (inBlock underKey : Bool) → (stops : List Token) → List Token →
    Option (Doc × List Token)
  | 0, _, _, _, _, _ => none
  | n + 1, deep, inBlock, underKey, stops, ts =>
    if ts.head?.any stops.contains then some (.plain "", ts) else nodeN n deep inBlock underKey ts

/-- The value behind its mark; an empty scalar without it. -/
def valueN : Nat → Nat → (inBlock : Bool) → (stops : List Token) → List Token →
    Option (Doc × List Token)
  | 0, _, _, _, _ => none
  | n + 1, deep, inBlock, stops, .value :: ts => nodeOrN n deep inBlock inBlock stops ts
  | _ + 1, _, _, _, ts => some (.plain "", ts)

/-- The items of a block list up to its end. -/
def itemsN : Nat → Nat → List Token → Option (List Doc × List Token)
  | n + 1, deep, .item :: ts => do
    let (x, ts) ← nodeOrN n deep true false [.item, .blockEnd] ts
    let (xs, ts) ← itemsN n deep ts
    return (x :: xs, ts)
  | _ + 1, _, .blockEnd :: ts => some ([], ts)
  | _, _, _ => none

/-- Items at the indentation of their key, up to the next key. -/
def dashesN : Nat → Nat → List Token → Option (List Doc × List Token)
  | 0, _, _ => none
  | n + 1, deep, .item :: ts => do
    let (x, ts) ← nodeOrN n deep true false [.item, .key, .value, .blockEnd] ts
    let (xs, ts) ← dashesN n deep ts
    return (x :: xs, ts)
  | _ + 1, _, ts => some ([], ts)

/-- The members of a block map up to its end. -/
def entriesN : Nat → Nat → List Token → Option (List (Doc × Doc) × List Token)
  | n + 1, deep, .key :: ts => do
    let (k, ts) ← nodeOrN n deep true true [.key, .value, .blockEnd] ts
    let (x, ts) ← valueN n deep true [.key, .value, .blockEnd] ts
    let (xs, ts) ← entriesN n deep ts
    return ((k, x) :: xs, ts)
  | _ + 1, _, .blockEnd :: ts => some ([], ts)
  | _, _, _ => none

/-- The items of a list in brackets from here to its end, a comma or the bracket before. -/
def flowItemsN : Nat → Nat → List Token → Option (List Doc × List Token)
  | n + 1, deep, ts => do
    match ts with
    | .listClose :: ts => return ([], ts)
    | ts =>
      let (x, ts) ← flowItemN n deep ts
      match ts with
      | .comma :: ts =>
        let (xs, ts) ← flowItemsN n deep ts
        return (x :: xs, ts)
      | .listClose :: ts => return ([x], ts)
      | _ => none
  | _, _, _ => none

/-- An item of a list in brackets; a pair is a map of its own. -/
def flowItemN : Nat → Nat → List Token → Option (Doc × List Token)
  | n + 1, deep, .key :: ts => do
    let (k, ts) ← nodeN n (deep - 1) false false ts
    let (x, ts) ← valueN n (deep - 1) false [.comma, .listClose] ts
    return (if deep == 0 then .unreadable else Doc.ofEntries [(k, x)], ts)
  | n + 1, deep, ts => nodeN n deep false false ts
  | _, _, _ => none

/-- The members of a map in brackets from here to its end, a comma or the bracket before. -/
def flowEntriesN : Nat → Nat → List Token → Option (List (Doc × Doc) × List Token)
  | n + 1, deep, ts => do
    match ts with
    | .mapClose :: ts => return ([], ts)
    | ts =>
      let (x, ts) ← flowEntryN n deep ts
      match ts with
      | .comma :: ts =>
        let (xs, ts) ← flowEntriesN n deep ts
        return (x :: xs, ts)
      | .mapClose :: ts => return ([x], ts)
      | _ => none
  | _, _, _ => none

/-- A member of a map in brackets; a node that is no key has no value. -/
def flowEntryN : Nat → Nat → List Token → Option ((Doc × Doc) × List Token)
  | n + 1, deep, .key :: ts => do
    let (k, ts) ← nodeOrN n deep false false [.value, .comma, .mapClose] ts
    let (x, ts) ← valueN n deep false [.comma, .mapClose] ts
    return ((k, x), ts)
  | n + 1, deep, ts => do
    let (k, ts) ← nodeN n deep false false ts
    return ((k, .plain ""), ts)
  | _, _, _ => none

end

/-! ## Documents -/

/-- The only document of these tokens. -/
def document? (ts : List Token) : Option Doc := do
  let n := 4 * ts.length + 4
  let (d, ts) ← match ts with
    | [] => some (.plain "", [])
    | .start :: ts =>
      if ts.isEmpty then some (.plain "", [])
      else nodeOrN n 128 true false [.start, .stop] ts
    | ts => nodeN n 128 true false ts
  if ts.all (· == .stop) then some d else none

/-- The document a text holds. -/
def readDoc? (text : String) : Option Doc := (tokens? text).bind document?

end RuleTree.Yaml
