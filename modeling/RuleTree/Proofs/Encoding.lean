/-
  RuleTree.Proofs.Encoding — a schema that is written and read again.

  A schema that was read keeps each name of a table once, at all depths of its fields, and
  its defaults are values with their members in order (`Schema.AsRead`). Such a schema is
  read again from its own document, member by member and table by table:
  - `Json.toJson?_toDoc`: a value with its members in order is the value of its document.
  - `Doc.readOr_table`: a table without repeated names is read from its document in the same
    order.
  - `Field.ofDocN_toDoc`: so is a field with its fields, given room for their nesting.

  What is lost is a default that is an explicit `null`, for it is written as no default
  (`Schema.read_again_iff`). Only a scalar that is left without its type can be read as one,
  and JSON text has none, so that a schema in JSON text is always read again
  (`Schema.read_again_of_jsonText`).
-/

import Mathlib.Data.List.Forall2
import Mathlib.Data.String.Basic
import RuleTree.Proofs.Reading
import RuleTree.Schema.Encode
import RuleTree.Schema.Load

namespace RuleTree

/-! ## Values with their members in order -/

namespace Json

/-- The members of objects stand by increasing key, at all depths. -/
inductive Ordered : Json → Prop
  | null : Ordered .null
  | bool (b : Bool) : Ordered (.bool b)
  | num (n : Num) : Ordered (.num n)
  | str (s : String) : Ordered (.str s)
  | arr {items : List Json} (h : ∀ x ∈ items, Ordered x) : Ordered (.arr items)
  | obj {entries : List (String × Json)} (hkeys : entries.Pairwise fun p q => p.1 < q.1)
      (h : ∀ p ∈ entries, Ordered p.2) : Ordered (.obj entries)

section PutEntry

variable {k : String} {v : Json} {entries : List (String × Json)} {p : String × Json}

theorem mem_of_mem_putEntry (h : p ∈ putEntry k v entries) : p = (k, v) ∨ p ∈ entries := by
  induction entries with
  | nil => simpa [putEntry] using h
  | cons q rest ih =>
    unfold putEntry at h
    split at h
    · rcases List.mem_cons.mp h with h | h
      · exact .inl h
      · exact .inr (List.mem_cons_of_mem q h)
    split at h
    · exact List.mem_cons.mp h
    · rcases List.mem_cons.mp h with h | h
      · exact .inr (by simp [h])
      · exact (ih h).imp id (List.mem_cons_of_mem q)

theorem pairwise_putEntry (h : entries.Pairwise fun p q => p.1 < q.1) :
    (putEntry k v entries).Pairwise fun p q => p.1 < q.1 := by
  induction entries with
  | nil => simp [putEntry]
  | cons q rest ih =>
    obtain ⟨hhead, hrest⟩ := List.pairwise_cons.mp h
    unfold putEntry
    split
    · rename_i heq
      subst heq
      exact .cons hhead hrest
    split
    · rename_i hlt
      refine .cons (fun x hx => ?_) h
      rcases List.mem_cons.mp hx with rfl | hx
      · exact hlt
      · exact lt_trans hlt (hhead x hx)
    · rename_i hne hnlt
      refine .cons (fun x hx => ?_) (ih hrest)
      rcases mem_of_mem_putEntry hx with rfl | hx
      · exact lt_of_le_of_ne (not_lt.mp hnlt) (Ne.symm hne)
      · exact hhead x hx

/-- A member with a key past all others comes last. -/
theorem putEntry_of_forall_lt (h : ∀ q ∈ entries, q.1 < k) : putEntry k v entries = entries ++ [(k, v)] := by
  induction entries with
  | nil => rfl
  | cons q rest ih =>
    have hlt : q.1 < k := h q (by simp)
    rw [putEntry, if_neg (ne_of_gt hlt), if_neg (not_lt_of_gt hlt), ih fun x hx => h x (by simp [hx])]
    rfl

/-- Members that stand in order are those of their object. -/
theorem object_of_pairwise (h : entries.Pairwise fun p q => p.1 < q.1) : object entries = .obj entries := by
  have run : ∀ (todo acc : List (String × Json)), (acc ++ todo).Pairwise (fun p q => p.1 < q.1) →
      todo.foldl (fun acc p => putEntry p.1 p.2 acc) acc = acc ++ todo := by
    intro todo
    induction todo with
    | nil => simp
    | cons p rest ih =>
      intro acc h
      have hlast : ∀ q ∈ acc, q.1 < p.1 := fun q hq => (List.pairwise_append.mp h).2.2 q hq p (by simp)
      rw [List.foldl_cons, putEntry_of_forall_lt hlast, ih _ (by simpa using h), List.append_assoc]
      rfl
  exact congrArg Json.obj (run entries [] h)

theorem ordered_object (h : ∀ p ∈ entries, p.2.Ordered) : (object entries).Ordered := by
  have run : ∀ (todo acc : List (String × Json)), (∀ p ∈ todo, p.2.Ordered) → (Json.obj acc).Ordered →
      (Json.obj (todo.foldl (fun acc p => putEntry p.1 p.2 acc) acc)).Ordered := by
    intro todo
    induction todo with
    | nil => exact fun _ _ hacc => hacc
    | cons p rest ih =>
      intro acc hp hacc
      refine ih _ (fun q hq => hp q (by simp [hq])) ?_
      cases hacc with
      | obj hkeys hvalues =>
        refine .obj (pairwise_putEntry hkeys) fun q hq => ?_
        rcases mem_of_mem_putEntry hq with rfl | hq
        · exact hp p (by simp)
        · exact hvalues q hq
  exact run entries [] h (.obj .nil (by simp))

end PutEntry

end Json

namespace Doc

theorem ordered_of_scalar {s : String} {j : Json} (h : Scalar.toJson? s = some j) : j.Ordered := by
  have hdecimal : (Scalar.decimalOrText s).Ordered := by
    unfold Scalar.decimalOrText
    split
    · exact .null
    · split
      · exact .num _
      · exact .str _
  unfold Scalar.toJson? at h
  split at h
  · cases h
    exact .null
  split at h
  · cases h
    exact .bool _
  split at h
  · split at h
    · cases h
      exact .num _
    split at h
    · cases h
    · cases h
      exact hdecimal
  · cases h
    exact hdecimal

mutual

/-- The value of a document has its members in order. -/
theorem ordered_of_toJson? : ∀ {d : Doc} {j : Json}, d.toJson? = some j → j.Ordered
  | .null, _, h => by cases h; exact .null
  | .bool _, _, h => by cases h; exact .bool _
  | .num _, _, h => by cases h; exact .num _
  | .str _, _, h => by cases h; exact .str _
  | .plain _, _, h => ordered_of_scalar h
  | .list items, _, h => by
    obtain ⟨xs, hxs, rfl⟩ := Option.map_eq_some_iff.mp h
    exact .arr (ordered_of_itemsToJson? hxs)
  | .sequence items, _, h => by
    obtain ⟨xs, hxs, rfl⟩ := Option.map_eq_some_iff.mp h
    exact .arr (ordered_of_itemsToJson? hxs)
  | .map entries, _, h => by
    obtain ⟨ps, hps, rfl⟩ := Option.map_eq_some_iff.mp h
    exact Json.ordered_object (ordered_of_entriesToJson? hps)

theorem ordered_of_itemsToJson? : ∀ {items : List Doc} {xs : List Json}, itemsToJson? items = some xs →
    ∀ x ∈ xs, x.Ordered
  | [], _, h => by cases h; simp
  | d :: rest, _, h => by
    obtain ⟨x, hx, h⟩ := Option.bind_eq_some_iff.mp h
    obtain ⟨xs, hxs, h⟩ := Option.bind_eq_some_iff.mp h
    cases h
    exact List.forall_mem_cons.mpr ⟨ordered_of_toJson? hx, ordered_of_itemsToJson? hxs⟩

theorem ordered_of_entriesToJson? : ∀ {entries : List (String × Doc)} {ps : List (String × Json)},
    entriesToJson? entries = some ps → ∀ p ∈ ps, p.2.Ordered
  | [], _, h => by cases h; simp
  | (k, d) :: rest, _, h => by
    obtain ⟨x, hx, h⟩ := Option.bind_eq_some_iff.mp h
    obtain ⟨ps, hps, h⟩ := Option.bind_eq_some_iff.mp h
    cases h
    exact List.forall_mem_cons.mpr ⟨ordered_of_toJson? hx, ordered_of_entriesToJson? hps⟩

end

end Doc

namespace Json

theorem itemsToJson?_toDoc {items : List Json} (h : ∀ x ∈ items, x.toDoc.toJson? = some x) :
    Doc.itemsToJson? (itemsToDoc items) = some items := by
  induction items with
  | nil => rfl
  | cons x rest ih =>
    obtain ⟨hx, hrest⟩ := List.forall_mem_cons.mp h
    simp [itemsToDoc, Doc.itemsToJson?, hx, ih hrest]

theorem entriesToJson?_toDoc {entries : List (String × Json)} (h : ∀ p ∈ entries, p.2.toDoc.toJson? = some p.2) :
    Doc.entriesToJson? (entriesToDoc entries) = some entries := by
  induction entries with
  | nil => rfl
  | cons p rest ih =>
    obtain ⟨hp, hrest⟩ := List.forall_mem_cons.mp h
    simp [entriesToDoc, Doc.entriesToJson?, hp, ih hrest]

/-- A value with its members in order is the value of its document. -/
theorem toJson?_toDoc {j : Json} (h : j.Ordered) : j.toDoc.toJson? = some j := by
  induction h with
  | null => rfl
  | bool b => rfl
  | num n => rfl
  | str s => rfl
  | arr _ ih => simp [toDoc, Doc.toJson?, itemsToJson?_toDoc ih]
  | obj hkeys _ ih => simp [toDoc, Doc.toJson?, entriesToJson?_toDoc ih, object_of_pairwise hkeys]

end Json

/-! ## Tables -/

namespace Table

variable {α : Type} {t : Table α}

/-- A new name comes last. -/
theorem put_of_not_mem {k : String} {v : α} (h : k ∉ t.keys) : put k v t = t ++ [(k, v)] := by
  induction t with
  | nil => rfl
  | cons p rest ih =>
    obtain ⟨hne, hrest⟩ := List.ne_and_not_mem_of_not_mem_cons h
    rw [put, if_neg (Ne.symm hne), ih hrest]
    rfl

/-- Pairs without a repeated name are their own table. -/
theorem ofPairs_of_nodup (h : t.keys.Nodup) : ofPairs t = t := by
  have run : ∀ (todo acc : Table α), (keys (acc ++ todo)).Nodup →
      todo.foldl (fun t p => put p.1 p.2 t) acc = acc ++ todo := by
    intro todo
    induction todo with
    | nil => simp
    | cons p rest ih =>
      intro acc h
      have hnew : p.1 ∉ acc.keys := by
        intro hk
        rw [keys, List.map_append, List.nodup_append] at h
        exact h.2.2 p.1 hk p.1 (by simp) rfl
      rw [List.foldl_cons, put_of_not_mem hnew, ih _ (by simpa using h), List.append_assoc]
      rfl
  exact run t [] h

end Table

namespace Doc

variable {α : Type}

/-! ## Members -/

@[simp] theorem readOr_text (dflt s : String) : readOr dflt asText? (some (.str s)) = some s := rfl

@[simp] theorem readOr_bool (dflt b : Bool) : readOr dflt asBool? (some (.bool b)) = some b := rfl

@[simp] theorem readOptional_text (s : Option String) : readOptional asText? (some (ofOptional s)) = some s := by
  cases s <;> rfl

/-- The document of what may be nothing. -/
def orNull (g : α → Doc) : Option α → Doc
  | some a => g a
  | none => .null

@[simp] theorem readOptional_bool (b : Option Bool) : readOptional asBool? (some (orNull .bool b)) = some b := by
  cases b <;> rfl

@[simp] theorem readOptional_count (n : Option Nat) :
    readOptional asCount? (some (orNull (fun n : Nat => .num (.int n)) n)) = some n := by
  cases n with
  | none => rfl
  | some n => simp [orNull, readOptional, asOptional?, asCount?]

@[simp] theorem asList?_texts (ss : List String) : asList? asText? (texts ss) = some ss := by
  have hread : (ss.map Doc.str).mapM asText? = some ss := by
    induction ss with
    | nil => rfl
    | cons s rest ih => simp [asText?, ih]
  exact hread

@[simp] theorem readOr_texts (dflt ss : List String) :
    readOr dflt (asList? asText?) (some (texts ss)) = some ss := asList?_texts ss

/-- A table without repeated names is read in its order, when each of its parts is. -/
theorem readOr_table {f : Doc → Option α} {g : α → Doc} {t : Table α} (dflt : Table α) (hn : t.keys.Nodup)
    (h : ∀ p ∈ t, f (g p.2) = some p.2) : readOr dflt (asTable? f) (some (t.toDoc g)) = some t := by
  have hread : (t.map fun p => (p.1, g p.2)).mapM (fun e => (f e.2).map fun v => (e.1, v)) = some t := by
    clear hn
    induction t with
    | nil => rfl
    | cons p rest ih =>
      obtain ⟨hp, hrest⟩ := List.forall_mem_cons.mp h
      simp [hp, ih hrest]
  calc readOr dflt (asTable? f) (some (t.toDoc g))
      = ((t.map fun p => (p.1, g p.2)).mapM fun e => (f e.2).map fun v => (e.1, v)).map Table.ofPairs := rfl
    _ = some t := by rw [hread, Option.map_some, Table.ofPairs_of_nodup hn]

/-- A table that is only written when there is something in it. -/
theorem readOr_table_of_isEmpty {f : Doc → Option α} {g : α → Doc} {t : Table α} (hn : t.keys.Nodup)
    (h : ∀ p ∈ t, f (g p.2) = some p.2) :
    readOr [] (asTable? f) (if t.isEmpty then none else some (t.toDoc g)) = some t := by
  cases t with
  | nil => rfl
  | cons p rest => exact readOr_table [] hn h

/-- What is read from the document of a table was read from documents of its parts. -/
theorem exists_of_readOr_table {f : Doc → Option α} {g : α → Doc} {t u dflt : Table α}
    (h : readOr dflt (asTable? f) (some (t.toDoc g)) = some u) {p : String × α} (hp : p ∈ u) :
    ∃ v, f (g v) = some p.2 := by
  obtain ⟨pairs, hpairs, rfl⟩ := Option.map_eq_some_iff.mp h
  obtain ⟨e, he, hread⟩ := exists_of_mem_mapM hpairs (Table.mem_of_mem_ofPairs hp)
  obtain ⟨q, -, rfl⟩ := List.mem_map.mp he
  obtain ⟨v, hv, rfl⟩ := Option.map_eq_some_iff.mp hread
  exact ⟨q.2, hv⟩

end Doc

open Doc

/-! ## Parts without tables -/

theorem Conjunction.ofDoc?_toDoc (c : Conjunction) : ofDoc? c.toDoc = some c := by
  have hmembers : c.toDoc.members? [["label"]] = some [some (ofOptional c.label)] := rfl
  simp [ofDoc?, hmembers]

theorem Operator.ofDoc?_toDoc (op : Operator) : ofDoc? op.toDoc = some op := by
  have hmembers : op.toDoc.members? [["label"], ["jsonLogic"], ["jsonLogic2"],
      ["jsonLogicIsRevArgs", "_jsonLogicIsRevArgs"], ["cardinality"], ["reversedOp"]] =
        some [some (ofOptional op.label), some (ofOptional op.name), some (ofOptional op.secondName),
          some (.bool op.reversedArgs), some (orNull (fun n : Nat => .num (.int n)) op.cardinality),
          some (ofOptional op.inverse)] := by
    obtain ⟨label, name, secondName, reversedArgs, cardinality, inverse⟩ := op
    cases cardinality <;> rfl
  simp [ofDoc?, hmembers]

@[simp] theorem readOr_asyncFetch (dflt b : Bool) :
    readOr dflt asyncFetchOfDoc? (some (asyncFetchToDoc b)) = some b := rfl

theorem fieldWidgetOfDoc?_toDoc (operators : List String) :
    fieldWidgetOfDoc? (fieldWidgetToDoc operators) = some operators := by
  have hmembers : (fieldWidgetToDoc operators).members? [["operators"]] = some [some (texts operators)] := rfl
  simp [fieldWidgetOfDoc?, hmembers]

theorem Widget.ofDoc?_toDoc (w : Widget) : ofDoc? w.toDoc = some w := by
  have hmembers : w.toDoc.members? [["type"], ["valueFormat"]] =
      some [some (.str w.type), some (ofOptional w.valueFormat)] := rfl
  simp [ofDoc?, hmembers]

theorem Settings.ofDoc?_toDoc (s : Settings) : ofDoc? s.toDoc = some s := by
  let keys : Doc := .map [("groupVarKey", .str s.groupVarKey), ("altVarKey", .str s.altVarKey)]
  have hkeys : readOr ("var", "$") varKeysOfDoc? (some keys) = some (s.groupVarKey, s.altVarKey) := rfl
  have hmembers : s.toDoc.members? [["fieldSeparator"], ["defaultConjunction"], ["defaultGroupConjunction"],
      ["groupOperators"], ["showNot"], ["jsonLogic"]] =
        some [some (.str s.separator), some (ofOptional s.defaultConjunction),
          some (ofOptional s.defaultGroupConjunction), some (texts s.groupOperators), some (.bool s.showNot),
          some keys] := rfl
  simp [ofDoc?, hmembers, hkeys]

@[simp] theorem readOptional_mode (mode : Option GroupMode) :
    readOptional GroupMode.ofDoc? (some (ofOptional (mode.map GroupMode.name))) = some mode := by
  cases mode with
  | none => rfl
  | some m => cases m <;> rfl

/-! ## Defaults -/

theorem asOptional?_toDoc {v : Json} (h : v ≠ .null) : v.toDoc.asOptional? toJson? = v.toDoc.toJson?.map some := by
  cases v with
  | null => exact absurd rfl h
  | _ => rfl

theorem readOptional_default {v? : Option Json} (ho : ∀ v ∈ v?, v.Ordered) (hn : v? ≠ some .null) :
    readOptional toJson? (some (orNull Json.toDoc v?)) = some v? := by
  cases v? with
  | none => rfl
  | some v =>
    have hv : v ≠ .null := fun h => hn (h ▸ rfl)
    simp [readOptional, orNull, asOptional?_toDoc hv, Json.toJson?_toDoc (ho v rfl)]

theorem of_asOptional? {α : Type} {f : Doc → Option α} {d : Doc} {v : α} (h : d.asOptional? f = some (some v)) :
    f d = some v := by
  unfold asOptional? at h
  split at h
  · cases h
  · split at h
    · cases h
    · simpa using h
  · simpa using h

theorem ordered_of_readOptional {d : Option Doc} {v? : Option Json} (h : readOptional toJson? d = some v?) :
    ∀ v ∈ v?, v.Ordered := by
  rintro v rfl
  cases d with
  | none => cases h
  | some d => exact ordered_of_toJson? (of_asOptional? h)

/-- What is written of a default is never read as an explicit `null`. -/
theorem ne_null_of_readOptional {v? w? : Option Json}
    (h : readOptional toJson? (some (orNull Json.toDoc v?)) = some w?) : w? ≠ some .null := by
  rintro rfl
  cases v? with
  | none => cases h
  | some v =>
    cases v with
    | obj entries =>
      simp [readOptional, orNull, Json.toDoc, asOptional?, toJson?, Json.object] at h
    | _ => simp [readOptional, orNull, Json.toDoc, asOptional?, toJson?] at h

/-! ## Functions -/

/-- A default is a value with its members in order. -/
def FuncArg.AsRead (a : FuncArg) : Prop := ∀ v ∈ a.default, v.Ordered

structure Func.AsRead (f : Func) : Prop where
  names : f.args.keys.Nodup
  args : ∀ p ∈ f.args, p.2.AsRead

/-- The default is no explicit `null`. -/
def FuncArg.NoNull (a : FuncArg) : Prop := a.default ≠ some .null

def Func.NoNull (f : Func) : Prop := ∀ p ∈ f.args, p.2.NoNull

theorem FuncArg.members_toDoc (a : FuncArg) :
    a.toDoc.members? [["label"], ["type"], ["defaultValue"], ["mainWidget"], ["fieldSettings"]] =
      some [some (ofOptional a.label), some (.str a.type), some (orNull Json.toDoc a.default),
        some (ofOptional a.mainWidget), some (asyncFetchToDoc a.asyncFetch)] := by
  obtain ⟨label, type, default, mainWidget, asyncFetch⟩ := a
  cases default <;> rfl

theorem FuncArg.default_of_ofDoc? {d : Doc} {a : FuncArg} (h : ofDoc? d = some a) :
    ∃ label type default mainWidget fieldSettings,
      d.members? [["label"], ["type"], ["defaultValue"], ["mainWidget"], ["fieldSettings"]] =
        some [label, type, default, mainWidget, fieldSettings] ∧ readOptional toJson? default = some a.default := by
  obtain ⟨members, hmembers, h⟩ := Option.bind_eq_some_iff.mp h
  split at h
  · obtain ⟨label, -, h⟩ := Option.bind_eq_some_iff.mp h
    obtain ⟨type, -, h⟩ := Option.bind_eq_some_iff.mp h
    obtain ⟨default, hdefault, h⟩ := Option.bind_eq_some_iff.mp h
    obtain ⟨mainWidget, -, h⟩ := Option.bind_eq_some_iff.mp h
    obtain ⟨asyncFetch, -, h⟩ := Option.bind_eq_some_iff.mp h
    cases h
    exact ⟨_, _, _, _, _, hmembers, hdefault⟩
  · cases h

theorem FuncArg.asRead_of_ofDoc? {d : Doc} {a : FuncArg} (h : ofDoc? d = some a) : a.AsRead := by
  obtain ⟨_, _, _, _, _, -, hdefault⟩ := default_of_ofDoc? h
  exact ordered_of_readOptional hdefault

theorem FuncArg.noNull_of_toDoc {a b : FuncArg} (h : ofDoc? a.toDoc = some b) : b.NoNull := by
  obtain ⟨_, _, _, _, _, hmembers, hdefault⟩ := default_of_ofDoc? h
  rw [members_toDoc] at hmembers
  cases hmembers
  exact ne_null_of_readOptional hdefault

theorem FuncArg.ofDoc?_toDoc {a : FuncArg} (ha : a.AsRead) (hn : a.NoNull) : ofDoc? a.toDoc = some a := by
  simp [ofDoc?, members_toDoc, readOptional_default ha hn]

theorem Func.members_toDoc (f : Func) :
    f.toDoc.members? [["label"], ["jsonLogic"], ["jsonLogicIsMethod"], ["returnType"], ["args"]] =
      some [some (ofOptional f.label), some (ofOptional f.name), some (.bool f.isMethod), some (.str f.returnType),
        some (f.args.toDoc FuncArg.toDoc)] := rfl

theorem Func.args_of_ofDoc? {d : Doc} {f : Func} (h : ofDoc? d = some f) :
    ∃ label name isMethod returnType args,
      d.members? [["label"], ["jsonLogic"], ["jsonLogicIsMethod"], ["returnType"], ["args"]] =
        some [label, name, isMethod, returnType, args] ∧ readOr [] (asTable? FuncArg.ofDoc?) args = some f.args := by
  obtain ⟨members, hmembers, h⟩ := Option.bind_eq_some_iff.mp h
  split at h
  · obtain ⟨label, -, h⟩ := Option.bind_eq_some_iff.mp h
    obtain ⟨name, -, h⟩ := Option.bind_eq_some_iff.mp h
    obtain ⟨isMethod, -, h⟩ := Option.bind_eq_some_iff.mp h
    obtain ⟨returnType, -, h⟩ := Option.bind_eq_some_iff.mp h
    obtain ⟨args, hargs, h⟩ := Option.bind_eq_some_iff.mp h
    cases h
    exact ⟨_, _, _, _, _, hmembers, hargs⟩
  · cases h

theorem Func.asRead_of_ofDoc? {d : Doc} {f : Func} (h : ofDoc? d = some f) : f.AsRead := by
  obtain ⟨_, _, _, _, _, -, hargs⟩ := args_of_ofDoc? h
  obtain ⟨hnames, hparts⟩ := readOr_asTable?_spec hargs
  refine ⟨hnames, fun p hp => ?_⟩
  obtain ⟨e, he⟩ := hparts p hp
  exact FuncArg.asRead_of_ofDoc? he

theorem Func.noNull_of_toDoc {f g : Func} (h : ofDoc? f.toDoc = some g) : g.NoNull := by
  obtain ⟨_, _, _, _, _, hmembers, hargs⟩ := args_of_ofDoc? h
  rw [members_toDoc] at hmembers
  cases hmembers
  intro p hp
  obtain ⟨a, ha⟩ := exists_of_readOr_table hargs hp
  exact FuncArg.noNull_of_toDoc ha

theorem Func.ofDoc?_toDoc {f : Func} (hf : f.AsRead) (hn : f.NoNull) : ofDoc? f.toDoc = some f := by
  have hargs := readOr_table [] hf.names fun p hp => FuncArg.ofDoc?_toDoc (hf.args p hp) (hn p hp)
  simp [ofDoc?, members_toDoc, hargs]

/-! ## Fields -/

/-- No name of a widget or of a field is repeated, at all depths. -/
inductive Field.AsRead : Field → Prop
  | mk {f : Field} (widgets : f.widgets.keys.Nodup) (names : (f.subfields.map Prod.fst).Nodup)
      (subfields : ∀ p ∈ f.subfields, AsRead p.2) : AsRead f

theorem Field.asRead_of_ofDocN {n : Nat} {d : Doc} {f : Field} (h : ofDocN n d = some f) : f.AsRead := by
  induction n generalizing d f with
  | zero => cases h
  | succ n ih =>
    obtain ⟨members, -, h⟩ := Option.bind_eq_some_iff.mp h
    split at h
    · obtain ⟨label, -, h⟩ := Option.bind_eq_some_iff.mp h
      obtain ⟨type, -, h⟩ := Option.bind_eq_some_iff.mp h
      obtain ⟨operators, -, h⟩ := Option.bind_eq_some_iff.mp h
      obtain ⟨mainWidget, -, h⟩ := Option.bind_eq_some_iff.mp h
      obtain ⟨widgets, hwidgets, h⟩ := Option.bind_eq_some_iff.mp h
      obtain ⟨mode, -, h⟩ := Option.bind_eq_some_iff.mp h
      obtain ⟨showNot, -, h⟩ := Option.bind_eq_some_iff.mp h
      obtain ⟨defaultConjunction, -, h⟩ := Option.bind_eq_some_iff.mp h
      obtain ⟨asyncFetch, -, h⟩ := Option.bind_eq_some_iff.mp h
      obtain ⟨subfields, hsubfields, h⟩ := Option.bind_eq_some_iff.mp h
      cases h
      obtain ⟨hnames, hparts⟩ := readOr_asTable?_spec hsubfields
      refine .mk (readOr_asTable?_spec hwidgets).1 hnames fun p hp => ?_
      obtain ⟨e, he⟩ := hparts p hp
      exact ih he
    · cases h

theorem fieldsToDoc_eq (fields : List (String × Field)) :
    Doc.map (fieldsToDoc fields) = Table.toDoc Field.toDoc fields := by
  have hmap : fieldsToDoc fields = fields.map fun p => (p.1, p.2.toDoc) := by
    induction fields with
    | nil => rfl
    | cons p rest ih => simp [fieldsToDoc, ih]
  rw [hmap]
  rfl

theorem Field.toDoc_eq (f : Field) :
    f.toDoc = .map (
      [("label", ofOptional f.label), ("type", .str f.type)] ++
      (f.operators.elim [] fun ops => [("operators", texts ops)]) ++
      [("mainWidget", ofOptional f.mainWidget)] ++
      (if f.widgets.isEmpty then [] else [("widgets", f.widgets.toDoc fieldWidgetToDoc)]) ++
      [("mode", ofOptional (f.mode.map GroupMode.name)),
       ("showNot", orNull .bool f.showNot),
       ("defaultConjunction", ofOptional f.defaultConjunction),
       ("fieldSettings", asyncFetchToDoc f.asyncFetch)] ++
      (if f.subfields.isEmpty then [] else [("subfields", Table.toDoc Field.toDoc f.subfields)])) := by
  rw [← fieldsToDoc_eq]
  obtain ⟨label, type, operators, mainWidget, widgets, mode, showNot, defaultConjunction, asyncFetch, subfields⟩ := f
  cases operators <;> cases showNot <;> rfl

/-- Operators, widgets and fields are members only when there are any. -/
theorem Field.members_toDoc (f : Field) :
    f.toDoc.members? [["label"], ["type"], ["operators"], ["mainWidget"], ["widgets"], ["mode"], ["showNot"],
        ["defaultConjunction"], ["fieldSettings"], ["subfields"]] =
      some [some (ofOptional f.label), some (.str f.type), f.operators.map texts, some (ofOptional f.mainWidget),
        if f.widgets.isEmpty then none else some (f.widgets.toDoc fieldWidgetToDoc),
        some (ofOptional (f.mode.map GroupMode.name)),
        some (orNull .bool f.showNot),
        some (ofOptional f.defaultConjunction), some (asyncFetchToDoc f.asyncFetch),
        if f.subfields.isEmpty then none else some (Table.toDoc Field.toDoc f.subfields)] := by
  rw [toDoc_eq]
  obtain ⟨label, type, operators, mainWidget, widgets, mode, showNot, defaultConjunction, asyncFetch, subfields⟩ := f
  cases operators <;> cases widgets <;> cases subfields <;> rfl

theorem depth_le_depthEntries {entries : List (String × Doc)} {k : String} {d : Doc} (h : (k, d) ∈ entries) :
    d.depth ≤ depthEntries entries := by
  induction entries with
  | nil => cases h
  | cons e rest ih =>
    obtain ⟨l, x⟩ := e
    rw [depthEntries]
    rcases List.mem_cons.mp h with he | h
    · cases he
      omega
    · have hrest := ih h
      omega

/-- The fields of a field are written inside of it. -/
theorem Field.depth_lt {f : Field} {p : String × Field} (hp : p ∈ f.subfields) : p.2.toDoc.depth < f.toDoc.depth := by
  have hsome : f.subfields.isEmpty = false := by simpa using List.ne_nil_of_mem hp
  have hinner : p.2.toDoc.depth < (Table.toDoc Field.toDoc f.subfields).depth :=
    Nat.lt_succ_of_le (depth_le_depthEntries (List.mem_map.mpr ⟨p, hp, rfl⟩))
  have houter : (Table.toDoc Field.toDoc f.subfields).depth < f.toDoc.depth := by
    rw [toDoc_eq, hsome]
    exact Nat.lt_succ_of_le (depth_le_depthEntries (k := "subfields") (by simp))
  omega

/-- A field is read again with room for what nests in it. -/
theorem Field.ofDocN_toDoc {n : Nat} {f : Field} (hf : f.AsRead) (hn : f.toDoc.depth < n) :
    ofDocN n f.toDoc = some f := by
  induction n generalizing f with
  | zero => omega
  | succ n ih =>
    obtain ⟨hwidgetNames, hnames, hparts⟩ := hf
    have hoperators : readOptional (asList? asText?) (f.operators.map texts) = some f.operators := by
      cases f.operators with
      | none => rfl
      | some ops => exact congrArg (Option.map some) (asList?_texts ops)
    have hwidgets := readOr_table_of_isEmpty hwidgetNames fun p _ => fieldWidgetOfDoc?_toDoc p.2
    have hsubfields : readOr [] (asTable? (ofDocN n))
        (if f.subfields.isEmpty then none else some (Table.toDoc toDoc f.subfields)) = some f.subfields := by
      refine readOr_table_of_isEmpty hnames fun p hp => ih (hparts p hp) ?_
      have hlt := depth_lt hp
      omega
    simp only [ofDocN, members_toDoc, Option.bind_eq_bind, Option.bind_some, readOptional_text, readOr_text,
      hoperators, hwidgets, readOptional_mode, readOptional_bool, readOr_asyncFetch, hsubfields, Option.pure_def]
    cases f
    rfl

theorem Field.ofDoc?_toDoc {f : Field} (hf : f.AsRead) : ofDoc? f.toDoc = some f :=
  ofDocN_toDoc hf (Nat.lt_succ_self _)

/-! ## Schemas -/

/-- What a schema is when it was read. -/
structure Schema.AsRead (s : Schema) : Prop where
  conjunctions : s.conjunctions.keys.Nodup
  operators : s.operators.keys.Nodup
  funcNames : s.funcs.keys.Nodup
  funcs : ∀ p ∈ s.funcs, p.2.AsRead
  fieldNames : s.fields.keys.Nodup
  fields : ∀ p ∈ s.fields, p.2.AsRead
  widgets : s.widgets.keys.Nodup

/-- No argument of a function has an explicit `null` for its default. -/
def Schema.NoNull (s : Schema) : Prop := ∀ p ∈ s.funcs, p.2.NoNull

theorem Schema.members_toDoc (s : Schema) :
    s.toDoc.members? [["conjunctions"], ["operators"], ["funcs"], ["fields"], ["widgets"], ["settings"]] =
      some [some (s.conjunctions.toDoc Conjunction.toDoc), some (s.operators.toDoc Operator.toDoc),
        some (s.funcs.toDoc Func.toDoc), some (s.fields.toDoc Field.toDoc), some (s.widgets.toDoc Widget.toDoc),
        some s.settings.toDoc] := by
  rw [← fieldsToDoc_eq]
  rfl

/-- The tables of a schema that is read, each from its member. -/
theorem Schema.tables_of_ofDoc? {d : Doc} {s : Schema} (h : ofDoc? d = some s) :
    ∃ conjunctions operators funcs fields widgets settings,
      d.members? [["conjunctions"], ["operators"], ["funcs"], ["fields"], ["widgets"], ["settings"]] =
        some [conjunctions, operators, funcs, fields, widgets, settings] ∧
      readOr [] (asTable? Conjunction.ofDoc?) conjunctions = some s.conjunctions ∧
      readOr [] (asTable? Operator.ofDoc?) operators = some s.operators ∧
      readOr [] (asTable? Func.ofDoc?) funcs = some s.funcs ∧
      readOr [] (asTable? Field.ofDoc?) fields = some s.fields ∧
      readOr [] (asTable? Widget.ofDoc?) widgets = some s.widgets := by
  obtain ⟨members, hmembers, h⟩ := Option.bind_eq_some_iff.mp h
  split at h
  · obtain ⟨conjunctions, hconjunctions, h⟩ := Option.bind_eq_some_iff.mp h
    obtain ⟨operators, hoperators, h⟩ := Option.bind_eq_some_iff.mp h
    obtain ⟨funcs, hfuncs, h⟩ := Option.bind_eq_some_iff.mp h
    obtain ⟨fields, hfields, h⟩ := Option.bind_eq_some_iff.mp h
    obtain ⟨widgets, hwidgets, h⟩ := Option.bind_eq_some_iff.mp h
    obtain ⟨settings, -, h⟩ := Option.bind_eq_some_iff.mp h
    cases h
    exact ⟨_, _, _, _, _, _, hmembers, hconjunctions, hoperators, hfuncs, hfields, hwidgets⟩
  · cases h

theorem Schema.asRead_of_ofDoc? {d : Doc} {s : Schema} (h : ofDoc? d = some s) : s.AsRead := by
  obtain ⟨_, _, _, _, _, _, -, hconjunctions, hoperators, hfuncs, hfields, hwidgets⟩ := tables_of_ofDoc? h
  obtain ⟨hfuncNames, hfuncParts⟩ := readOr_asTable?_spec hfuncs
  obtain ⟨hfieldNames, hfieldParts⟩ := readOr_asTable?_spec hfields
  exact {
    conjunctions := (readOr_asTable?_spec hconjunctions).1
    operators := (readOr_asTable?_spec hoperators).1
    funcNames := hfuncNames
    funcs := fun p hp => (hfuncParts p hp).elim fun _ he => Func.asRead_of_ofDoc? he
    fieldNames := hfieldNames
    fields := fun p hp => (hfieldParts p hp).elim fun _ he => Field.asRead_of_ofDocN he
    widgets := (readOr_asTable?_spec hwidgets).1 }

theorem Schema.noNull_of_toDoc {s t : Schema} (h : ofDoc? s.toDoc = some t) : t.NoNull := by
  obtain ⟨_, _, _, _, _, _, hmembers, -, -, hfuncs, -, -⟩ := tables_of_ofDoc? h
  rw [members_toDoc] at hmembers
  cases hmembers
  intro p hp
  obtain ⟨f, hf⟩ := exists_of_readOr_table hfuncs hp
  exact Func.noNull_of_toDoc hf

theorem Schema.ofDoc?_toDoc {s : Schema} (hs : s.AsRead) (hn : s.NoNull) : ofDoc? s.toDoc = some s := by
  have hconjunctions := readOr_table [] hs.conjunctions fun p _ => Conjunction.ofDoc?_toDoc p.2
  have hoperators := readOr_table [] hs.operators fun p _ => Operator.ofDoc?_toDoc p.2
  have hfuncs := readOr_table [] hs.funcNames fun p hp => Func.ofDoc?_toDoc (hs.funcs p hp) (hn p hp)
  have hfields := readOr_table [] hs.fieldNames fun p hp => Field.ofDoc?_toDoc (hs.fields p hp)
  have hwidgets := readOr_table [] hs.widgets fun p _ => Widget.ofDoc?_toDoc p.2
  have hsettings : readOr {} Settings.ofDoc? (some s.settings.toDoc) = some s.settings :=
    Settings.ofDoc?_toDoc s.settings
  simp only [ofDoc?, members_toDoc, Option.bind_eq_bind, Option.bind_some, hconjunctions, hoperators, hfuncs,
    hfields, hwidgets, hsettings, Option.pure_def]

/-- A schema that was read is read again from its own document, the same in content and in
order, just when no default in it is an explicit `null`. -/
theorem Schema.read_again_iff {d : Doc} {s : Schema} (h : Schema.ofDoc? d = some s) :
    Schema.ofDoc? s.toDoc = some s ↔ s.NoNull :=
  ⟨noNull_of_toDoc, ofDoc?_toDoc (asRead_of_ofDoc? h)⟩

/-- A schema with a function whose argument has a default with members out of order, an
operator by its other spelling, and a field of a field of a field. -/
def nestedSchemaDoc : Doc :=
  .map [
    ("conjunctions", .map [("OR", .map []), ("AND", .map [("label", .str "and")])]),
    ("operators", .map [("in", .map [("jsonLogic", .str "in"), ("_jsonLogicIsRevArgs", .bool true),
      ("cardinality", .num (.int 1))])]),
    ("funcs", .map [("NEAR", .map [("returnType", .str "text"),
      ("args", .map [("to", .map [("type", .str "text"),
        ("defaultValue", .map [("y", .null), ("x", .list [.num (.int 1)])])])])])]),
    ("fields", .map [
      ("cars", .map [("type", .str "!group"), ("mode", .str "array"), ("subfields", .map [
        ("vendor", .map [("type", .str "text"), ("operators", .list [.str "in"])]),
        ("engine", .map [("type", .str "!struct"), ("subfields", .map [
          ("power", .map [("type", .str "number"), ("widgets", .map [("slider", .map [])])])])])])]),
      ("color", .map [("fieldSettings", .map [("asyncFetch", .bool true)])])])]

theorem Schema.nested_schema_read_again :
    ∃ s, Schema.ofDoc? nestedSchemaDoc = some s ∧ s.NoNull ∧ Schema.ofDoc? s.toDoc = some s := by
  have hread : (Schema.ofDoc? nestedSchemaDoc).any (fun s => s.funcs.all fun p => p.2.args.all fun q =>
      q.2.default.all Json.isTruthy) = true := by
    decide +kernel
  obtain ⟨s, hs, hdefaults⟩ := (Option.any_eq_true _ _).mp hread
  have hnull : s.NoNull := by
    intro p hp q hq hdefault
    have htruthy := List.all_eq_true.mp (List.all_eq_true.mp hdefaults p hp) q hq
    rw [hdefault] at htruthy
    cases htruthy
  exact ⟨s, hs, hnull, (Schema.read_again_iff hs).mpr hnull⟩

/-! ## Schemas from JSON text -/

/-- No scalar is left without its type. -/
inductive Doc.Typed : Doc → Prop
  | null : Typed .null
  | bool (b : Bool) : Typed (.bool b)
  | num (n : Num) : Typed (.num n)
  | str (s : String) : Typed (.str s)
  | list {items : List Doc} (h : ∀ d ∈ items, Typed d) : Typed (.list items)
  | sequence {items : List Doc} (h : ∀ d ∈ items, Typed d) : Typed (.sequence items)
  | map {entries : List (String × Doc)} (h : ∀ p ∈ entries, Typed p.2) : Typed (.map entries)
  | unreadable : Typed .unreadable

namespace JsonText

/-- Whatever is read of a text is typed. -/
theorem typed_of_readDoc? {text : String} {d : Doc} (h : readDoc? text = some d) : d.Typed :=
  Doc.Hereditary.of_readDoc? ⟨.null, .bool, .str, fun _ => .num _, .list, .map, .unreadable⟩ h

end JsonText

/-! ### No explicit null -/

namespace Doc

variable {d : Doc}

/-- The members of a typed part are typed. -/
theorem typed_of_members? {names : List (List String)} {members : List (Option Doc)} (hd : d.Typed)
    (h : d.members? names = some members) : ∀ m ∈ members, ∀ x ∈ m, x.Typed := by
  unfold members? at h
  split at h
  · rename_i entries
    cases hd with
    | map hentries =>
      rintro m hm x rfl
      obtain ⟨spellings, -, hread⟩ := exists_of_mem_mapM h hm
      split at hread
      · cases hread
      · rename_i k y hfilter
        cases hread
        exact hentries _ (List.mem_of_mem_filter (hfilter ▸ List.mem_singleton.mpr rfl))
      · cases hread
  · split at h
    · cases h
      cases hd with
      | list hitems =>
        rintro m hm x rfl
        rcases List.mem_append.mp hm with hm | hm
        · obtain ⟨y, hy, he⟩ := List.mem_map.mp hm
          cases he
          exact hitems x hy
        · cases List.eq_of_mem_replicate hm
    · cases h
  · cases hd
  · cases h

/-- The parts of a table in a typed document are read from typed documents. -/
theorem exists_typed_of_asTable? {α : Type} {f : Doc → Option α} {d? : Option Doc} {t : Table α}
    (hd : ∀ d ∈ d?, d.Typed) (h : readOr [] (asTable? f) d? = some t) {p : String × α} (hp : p ∈ t) :
    ∃ e : Doc, e.Typed ∧ f e = some p.2 := by
  cases d? with
  | none =>
    cases h
    cases hp
  | some d =>
    have hd := hd d rfl
    cases hd with
    | map hentries =>
      obtain ⟨pairs, hpairs, rfl⟩ := Option.map_eq_some_iff.mp h
      obtain ⟨e, he, hread⟩ := exists_of_mem_mapM hpairs (Table.mem_of_mem_ofPairs hp)
      obtain ⟨v, hv, rfl⟩ := Option.map_eq_some_iff.mp hread
      exact ⟨e.2, hentries e he, hv⟩
    | _ => cases h

/-- A typed default is no explicit `null`: that is no default. -/
theorem ne_null_of_typed {d? : Option Doc} (hd : ∀ d ∈ d?, d.Typed) {v? : Option Json}
    (h : readOptional toJson? d? = some v?) : v? ≠ some .null := by
  rintro rfl
  cases d? with
  | none => cases h
  | some d =>
    have hd := hd d rfl
    cases hd with
    | map _ => simp [readOptional, asOptional?, toJson?, Json.object] at h
    | _ => simp [readOptional, asOptional?, toJson?] at h

end Doc

theorem FuncArg.noNull_of_typed {d : Doc} (hd : d.Typed) {a : FuncArg} (h : ofDoc? d = some a) : a.NoNull := by
  obtain ⟨_, _, _, _, _, hmembers, hdefault⟩ := default_of_ofDoc? h
  exact ne_null_of_typed (typed_of_members? hd hmembers _ (by simp)) hdefault

theorem Func.noNull_of_typed {d : Doc} (hd : d.Typed) {f : Func} (h : ofDoc? d = some f) : f.NoNull := by
  obtain ⟨_, _, _, _, _, hmembers, hargs⟩ := args_of_ofDoc? h
  intro p hp
  obtain ⟨e, he, hread⟩ := exists_typed_of_asTable? (typed_of_members? hd hmembers _ (by simp)) hargs hp
  exact FuncArg.noNull_of_typed he hread

theorem Schema.noNull_of_typed {d : Doc} (hd : d.Typed) {s : Schema} (h : ofDoc? d = some s) : s.NoNull := by
  obtain ⟨_, _, _, _, _, _, hmembers, -, -, hfuncs, -, -⟩ := tables_of_ofDoc? h
  intro p hp
  obtain ⟨e, he, hread⟩ := exists_typed_of_asTable? (typed_of_members? hd hmembers _ (by simp)) hfuncs hp
  exact Func.noNull_of_typed he hread

/-- A schema in JSON text is read again from its own document. -/
theorem Schema.read_again_of_jsonText {text : String} {s : Schema} (h : Schema.ofJsonText text = .ok s) :
    Schema.ofDoc? s.toDoc = some s := by
  have hread : ∃ d, JsonText.readDoc? text = some d ∧ Schema.ofDoc? d = some s := by
    unfold ofJsonText at h
    split at h
    · rename_i s' hs
      cases h
      exact Option.bind_eq_some_iff.mp hs
    · cases h
  obtain ⟨d, hd, hs⟩ := hread
  exact ofDoc?_toDoc (asRead_of_ofDoc? hs) (noNull_of_typed (JsonText.typed_of_readDoc? hd) hs)

end RuleTree
