/-
  RuleTree.Schema.Basic — what may appear in a query.

  A schema names the conjunctions, operators, functions, fields and widgets of queries, in
  order of declaration, and how logic expressions spell them. Fields nest: a collection
  (`!group`) or a struct holds the fields of its elements.
  The functions at the end read defaults off a schema: which conjunction to use where none
  is given, which widget types a value, whether a NOT can be shown.
-/

import RuleTree.Json.Basic
import RuleTree.Table

namespace RuleTree

structure Conjunction where
  label : Option String := none
deriving Repr, Inhabited, DecidableEq

structure Operator where
  label : Option String := none
  /-- Its name in expressions. -/
  name : Option String := none
  /-- Its name in expressions when it has no first one. -/
  secondName : Option String := none
  /-- Expressions list the value before the field. -/
  reversedArgs : Bool := false
  /-- How many values it takes. -/
  cardinality : Option Nat := none
  /-- The operator that holds where this one does not. -/
  inverse : Option String := none
deriving Repr, Inhabited, DecidableEq

/-- Values an operator takes where it does not say: one. -/
def Operator.arity (op : Operator) : Nat := op.cardinality.getD 1

structure FuncArg where
  label : Option String := none
  type : String := ""
  /-- Used when the argument is missing or cannot be converted. -/
  default : Option Json := none
  mainWidget : Option String := none
  asyncFetch : Bool := false
deriving Repr, Inhabited

/-- The widget of the argument's values: the declared one, else the type's name. -/
def FuncArg.widget (a : FuncArg) : String := a.mainWidget.getD a.type

structure Func where
  label : Option String := none
  /-- Its name in expressions. -/
  name : Option String := none
  /-- Called on its first argument. -/
  isMethod : Bool := false
  returnType : String := ""
  args : Table FuncArg := []
deriving Repr, Inhabited

/-- How the elements of a collection are matched. -/
inductive GroupMode where
  | struct
  | some
  | array
deriving Repr, Inhabited, DecidableEq

def GroupMode.name : GroupMode → String
  | .struct => "struct"
  | .some => "some"
  | .array => "array"

structure Field where
  label : Option String := none
  type : String := ""
  /-- The operators allowed; all of them when absent. -/
  operators : Option (List String) := none
  mainWidget : Option String := none
  /-- For a widget, the operators whose values it types. -/
  widgets : Table (List String) := []
  mode : Option GroupMode := none
  showNot : Option Bool := none
  defaultConjunction : Option String := none
  asyncFetch : Bool := false
  subfields : List (String × Field) := []
deriving Repr, Inhabited

structure Widget where
  /-- The type of the values it produces. -/
  type : String := ""
  /-- The display pattern of its dates and times. -/
  valueFormat : Option String := none
deriving Repr, Inhabited, DecidableEq

structure Settings where
  separator : String := "."
  defaultConjunction : Option String := none
  defaultGroupConjunction : Option String := none
  /-- Operators on collections that take no value. -/
  groupOperators : List String := ["some", "all", "none"]
  showNot : Bool := true
  /-- The key that reads a field of a collection's element. -/
  groupVarKey : String := "var"
  /-- Another key that reads a field. -/
  altVarKey : String := "$"
deriving Repr, Inhabited, DecidableEq

structure Schema where
  conjunctions : Table Conjunction := []
  operators : Table Operator := []
  funcs : Table Func := []
  fields : Table Field := []
  widgets : Table Widget := []
  settings : Settings := {}
deriving Repr, Inhabited

/-! ## Fields -/

namespace Field

def isGroup (f : Field) : Bool := f.type == "!group"

/-- A collection compared as a whole. -/
def isArrayGroup (f : Field) : Bool := f.isGroup && f.mode == some .array

def widget (f : Field) : String := f.mainWidget.getD f.type

def allows (f : Field) (op : String) : Bool :=
  match f.operators with
  | some ops => ops.contains op
  | none => true

end Field

/-! ## Defaults -/

namespace Schema

/-- The conjunction used where a schema declares none. -/
def fallbackConjunction : String := "AND"

/-- The configured conjunction, else the first declared one. -/
def defaultConjunction? (s : Schema) : Option String :=
  s.settings.defaultConjunction <|> s.conjunctions.keys.head?

/-- The conjunction of a rule group on a field: the field's, else the one configured for
rule groups, else the default one. -/
def groupConjunction? (s : Schema) (field : Option Field) : Option String :=
  field.bind Field.defaultConjunction <|> s.settings.defaultGroupConjunction <|>
    s.defaultConjunction?

def defaultConjunction (s : Schema) : String :=
  s.defaultConjunction?.getD fallbackConjunction

def groupConjunction (s : Schema) (field : Option Field) : String :=
  (s.groupConjunction? field).getD fallbackConjunction

def showNot (s : Schema) (f : Field) : Bool := f.showNot.getD s.settings.showNot

end Schema
end RuleTree
