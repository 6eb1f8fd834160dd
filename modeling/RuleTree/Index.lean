/-
  RuleTree.Index — look-up tables over a schema.

  Expressions name operators, functions and conjunctions in their own way; the index finds
  the schema's keys for such a name. Keys that share a name stay in order of declaration.
  - An operator is found by its name, its number of values and whether it takes them in
    reverse; one known by its second name only is never reversed.
  - A conjunction is found by its key in lower case; of two keys alike the later one counts.
  - `Groups.find_add`: adding a key changes the group it is added to and no other.
-/

import RuleTree.Schema.Basic
import RuleTree.Text.Lower

namespace RuleTree

structure OpSignature where
  name : String
  arity : Nat
  reversed : Bool
deriving DecidableEq, Repr, Inhabited

def OpSignature.text (s : OpSignature) : String :=
  (if s.reversed then "#" else "") ++ s.name ++ "/" ++ toString s.arity

structure FuncSignature where
  name : String
  isMethod : Bool
deriving DecidableEq, Repr, Inhabited

def FuncSignature.text (s : FuncSignature) : String :=
  (if s.isMethod then "#" else "") ++ s.name

/-! ## Groups of keys -/

/-- Keys of the schema by what they answer to. -/
abbrev Groups (κ : Type) := List (κ × List String)

namespace Groups

variable {κ : Type} [DecidableEq κ]

def find (g : Groups κ) (k : κ) : List String :=
  match g with
  | [] => []
  | (k', keys) :: rest => if k' = k then keys else find rest k

def add (k : κ) (key : String) : Groups κ → Groups κ
  | [] => [(k, [key])]
  | (k', keys) :: rest =>
    if k' = k then (k', keys ++ [key]) :: rest else (k', keys) :: add k key rest

theorem find_add (g : Groups κ) (j k : κ) (key : String) :
    find (add k key g) j = if k = j then find g j ++ [key] else find g j := by
  induction g with
  | nil => by_cases h : k = j <;> simp [add, find, h]
  | cons p rest ih =>
    obtain ⟨k', keys⟩ := p
    by_cases hk : k' = k
    · subst hk; by_cases hj : k' = j <;> simp [add, find, hj]
    · by_cases hj : k' = j
      · subst hj; simp [add, find, hk, Ne.symm hk]
      · simp [add, find, hk, hj, ih]

end Groups

/-! ## The index -/

structure Index where
  operators : Groups OpSignature := []
  conjunctions : Table String := []
  funcs : Groups FuncSignature := []
  varKeys : List String := []
deriving Repr, Inhabited

/-- What an operator answers to. -/
def Operator.signature? (op : Operator) : Option OpSignature :=
  match op.name, op.secondName with
  | some name, _ => some ⟨name, op.arity, op.reversedArgs⟩
  | none, some name => some ⟨name, op.arity, false⟩
  | none, none => none

def Func.signature? (f : Func) : Option FuncSignature :=
  f.name.map fun name => ⟨name, f.isMethod⟩

/-- The list with a key at its end, unless it is there. -/
def addNew (keys : List String) (key : String) : List String :=
  if keys.contains key then keys else keys ++ [key]

namespace Index

def ofSchema (s : Schema) : Index where
  operators := s.operators.foldl (fun g (key, op) =>
    match op.signature? with
    | some sig => g.add sig key
    | none => g) []
  conjunctions := Table.ofPairs (s.conjunctions.map fun (key, _) => (Text.lower key, key))
  funcs := s.funcs.foldl (fun g (key, f) =>
    match f.signature? with
    | some sig => g.add sig key
    | none => g) []
  varKeys := addNew (addNew ["var"] s.settings.groupVarKey) s.settings.altVarKey

/-- The operator keys a signature stands for. -/
def operatorKeys (ix : Index) (sig : OpSignature) : List String := Groups.find ix.operators sig

/-- The conjunction key a name stands for, in any case of letters. -/
def conjunction? (ix : Index) (name : String) : Option String :=
  ix.conjunctions.get? (Text.lower name)

def funcKeys (ix : Index) (sig : FuncSignature) : List String := Groups.find ix.funcs sig

def isVarKey (ix : Index) (key : String) : Bool := ix.varKeys.contains key

end Index
end RuleTree
