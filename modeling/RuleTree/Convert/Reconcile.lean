/-
  RuleTree.Convert.Reconcile — the node of a conjunction.

  The children of a conjunction are converted apart, so a rule on `cars.vendor` comes back
  as a plain rule although `cars` is a collection. Here such rules are moved under rule
  groups for their collections:
    and(cars.vendor, cars.year) becomes a rule group on `cars` with both rules,
    and(age, cars.vendor) a group with `age` and a rule group on `cars`.
  - `collection?` is the collection a child lies directly in; `usedGroups` lists those of all
    children, `singleRoot?` is the outermost one when there is one and every child lies in
    a collection.
  - `chain` is where a rule goes: the paths down to its collection, but for those above
    the single root.
  - `place` puts a child at the end of its chain, making the rule groups on the way that
    are not there yet. Each path has at most one.
-/

import RuleTree.Convert.Run
import RuleTree.Convert.Converter
import RuleTree.Node

namespace RuleTree

/-! ## Children and the rule groups made for them -/

/-- A child as it came, or a rule group made for a path, with what it holds. -/
inductive Item where
  | child (node : Node Nat)
  | made (id : Nat) (path : String) (items : List Item)

namespace Item

mutual

/-- The paths of the rule groups made. -/
def paths : Item → List String
  | child _ => []
  | made _ path items => path :: pathsAll items

def pathsAll : List Item → List String
  | [] => []
  | x :: rest => x.paths ++ pathsAll rest

end

mutual

/-- Put an item last in the rule group made for a path. -/
def pushUnder (path : String) (x : Item) : Item → Item
  | child n => child n
  | made id p items =>
    if p = path then made id p (pushUnderAll path x items ++ [x])
    else made id p (pushUnderAll path x items)

def pushUnderAll (path : String) (x : Item) : List Item → List Item
  | [] => []
  | y :: rest => pushUnder path x y :: pushUnderAll path x rest

end

/-- Put an item last in the rule group made for a path, or last of all. -/
def push (container : Option String) (x : Item) (items : List Item) : List Item :=
  match container with
  | some path => pushUnderAll path x items
  | none => items ++ [x]

mutual

/-- The node of an item; rule groups take the conjunction, and their modes from the paths. -/
def toNode (conjunction : String) (modeOf : String → Option GroupMode) : Item → Node Nat
  | child n => n
  | made id path items =>
    .ruleGroup id { conjunction, field := path, mode := modeOf path }
      (toNodes conjunction modeOf items)

def toNodes (conjunction : String) (modeOf : String → Option GroupMode) :
    List Item → List (Node Nat)
  | [] => []
  | x :: rest => x.toNode conjunction modeOf :: toNodes conjunction modeOf rest

end

end Item

namespace Converter

/-! ## Collections of the children -/

/-- The collection that is the direct parent of a node's field. -/
def collection? (c : Converter) (n : Node Nat) : Option String :=
  match n.field?.bind (Path.parent? c.separator) with
  | some p => if (c.fields.resolve p).any Field.isGroup then some p else none
  | none => none

/-- The collections of the children, each once. -/
def usedGroups (c : Converter) (children : List (Node Nat)) : List String :=
  (children.filterMap c.collection?).foldl addNew []

/-- The collection that holds all others, when every child lies in one. -/
def singleRoot? (c : Converter) (children : List (Node Nat)) : Option String :=
  match Path.outermost c.separator (c.usedGroups children) with
  | [root] => if children.all fun n => (c.collection? n).isSome then some root else none
  | _ => none

/-- The longest text; of equal ones the last. -/
def longest? : List String → Option String
  | [] => none
  | s :: rest =>
    match longest? rest with
    | some t => if s.utf8ByteSize ≤ t.utf8ByteSize then some t else some s
    | none => some s

/-- The used collection a rule belongs to; other nodes belong to none. -/
def homeOf? (c : Converter) (used : List String) : Node Nat → Option String
  | .rule _ p => longest? (used.filter fun g => Path.isUnder c.separator p.field g)
  | _ => none

/-- The canonical paths down to a collection. -/
def pathsTo (c : Converter) (home : String) : List String :=
  (Path.ancestors c.separator home).map c.fields.normalize

/-- A path is the root or lies above it. -/
def isAbove (c : Converter) (root : Option String) (path : String) : Bool :=
  root.any fun r => Path.isUnder c.separator r path

/-- The paths of the rule groups a rule of a collection stands in, below the root. -/
def chain (c : Converter) (root : Option String) (home : String) : List String :=
  (c.pathsTo home).filter fun p => !c.isAbove root p

/-! ## Placing the children -/

/-- The items so far and the next free number. -/
structure Placing where
  items : List Item
  next : Nat

/-- Make the rule groups of a chain that are not there; the last path of the chain, or the
start, is where to go on. -/
def openChain (st : Placing) (container : Option String) : List String → Placing × Option String
  | [] => (st, container)
  | p :: ps =>
    if p ∈ Item.pathsAll st.items then openChain st (some p) ps
    else openChain ⟨Item.push container (.made st.next p []) st.items, st.next + 1⟩ (some p) ps

/-- Put a child where its collection is. -/
def place (c : Converter) (used : List String) (root : Option String) (st : Placing)
    (n : Node Nat) : Placing :=
  match c.homeOf? used n with
  | none => { st with items := st.items ++ [.child n] }
  | some home =>
    let (st, container) := openChain st none (c.chain root home)
    { st with items := Item.push container (.child n) st.items }

/-- Some rule stands at or below the root, which then is the conjunction itself. -/
def meetsRoot (c : Converter) (used : List String) (root : Option String)
    (children : List (Node Nat)) : Bool :=
  children.any fun n =>
    match c.homeOf? used n with
    | some home => (c.pathsTo home).any (c.isAbove root)
    | none => false

/-- The mode of the field at a path. -/
def modeOf (c : Converter) (path : String) : Option GroupMode :=
  (c.fields.resolve path).bind Field.mode

/-- The node of a conjunction over converted children, and the next free number. -/
def reconcileFrom (c : Converter) (conjunction : String) (negated : Bool)
    (children : List (Node Nat)) (n : Nat) : Node Nat × Nat :=
  let used := c.usedGroups children
  let root := c.singleRoot? children
  let st := children.foldl (c.place used root) ⟨[], n + 1⟩
  let placed := Item.toNodes conjunction c.modeOf st.items
  match root with
  | some r =>
    if c.meetsRoot used root children then
      (.ruleGroup n { conjunction, negated, field := r, mode := c.modeOf r } placed, st.next)
    else (.group n ⟨conjunction, negated⟩ placed, st.next)
  | none => (.group n ⟨conjunction, negated⟩ placed, st.next)

def reconcile (c : Converter) (conjunction : String) (negated : Bool)
    (children : List (Node Nat)) : Run (Node Nat) :=
  .drawing (c.reconcileFrom conjunction negated children)

end Converter
end RuleTree
