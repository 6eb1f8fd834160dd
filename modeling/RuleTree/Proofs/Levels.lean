/-
  RuleTree.Proofs.Levels — paths relative to a parent, and in full.

  An expression reads fields on two levels: its operands, values and function arguments are
  read under the parent path it is converted with, and a having clause, the predicate of a
  count and the running count itself are read under the collection. `absoluteRule` puts the
  parent in front of every path of the first level and of none of the second.
  - `recognize?_absoluteOperand`, `fieldValue?_absoluteOperand`: written in full, an operand
    names and reads without a parent what it did under it.
  - `parseRule_absoluteRule`: a rule is found alike, its values in full and its having
    clause as it was.
  - `levelParts`: so conversions end alike, to any depth.

  Proved of every expression in rule position: `relative_as_absolute`, where no operand can
  be read in two ways: a negation is no variable key, a `reduce` calls no function, and an
  operator on collections always has its field at one place. With any of these it may be
  otherwise (`operands_read_in_two_ways`).
-/

import RuleTree.Proofs.DoubleNegation
import RuleTree.Proofs.Rewriting

namespace RuleTree

/-! ## Operations made anew -/

namespace Json

mutual

/-- An expression whose operations are given other arguments: by name, from their arguments
and from what these are rewritten to. An argument that is not in a list stays on its own. -/
def rewrite (F : String → List Json → List Json → List Json) : Json → Json
  | .obj [(name, .arr items)] => .obj [(name, .arr (F name items (rewriteAll F items)))]
  | .obj [(name, raw)] => .obj [(name, (F name [raw] [rewrite F raw]).headD raw)]
  | e => e

def rewriteAll (F : String → List Json → List Json → List Json) : List Json → List Json
  | [] => []
  | x :: rest => rewrite F x :: rewriteAll F rest

end

/-- The value is no list, so that it is one argument where a list of them may stand. -/
def IsBare (e : Json) : Prop := ∀ items, e ≠ .arr items

/-- Of one argument that is no list, one such argument is made. -/
def KeepsBare (F : String → List Json → List Json → List Json) : Prop :=
  ∀ name a b, a.IsBare → b.IsBare → ∃ x : Json, F name [a] [b] = [x] ∧ x.IsBare

variable {F : String → List Json → List Json → List Json} {e : Json} {op : Operation}

theorem rewriteAll_eq_map (items : List Json) : rewriteAll F items = items.map (rewrite F) := by
  induction items with
  | nil => rfl
  | cons x rest ih => rw [rewriteAll, ih, List.map_cons]

theorem rewrite_of_literal (h : e.operation? = none) : rewrite F e = e := by
  unfold rewrite
  split
  · cases h
  · cases h
  · rfl

theorem isBare_rewrite (h : e.IsBare) : (rewrite F e).IsBare := by
  intro items
  unfold rewrite
  split
  · nofun
  · nofun
  · exact h items

theorem argList_of_isBare (h : e.IsBare) : e.argList = [e] := by
  unfold argList
  split
  · exact absurd rfl (h _)
  · rfl

theorem operation?_rewrite (hF : KeepsBare F) (h : e.operation? = some op) :
    (rewrite F e).operation? = some ⟨op.name, F op.name op.args (op.args.map (rewrite F))⟩ := by
  match e with
  | .obj [(name, raw)] =>
    cases h
    by_cases hlist : ∃ items, raw = .arr items
    · obtain ⟨items, rfl⟩ := hlist
      rw [rewrite, rewriteAll_eq_map]
      rfl
    · have hbare : raw.IsBare := fun items hitems => hlist ⟨items, hitems⟩
      obtain ⟨x, hx, hxbare⟩ := hF name raw (rewrite F raw) hbare (isBare_rewrite hbare)
      rw [rewrite]
      · rw [argList_of_isBare hbare, List.map_singleton, hx, List.headD_cons]
        simp only [operation?, argList_of_isBare hxbare]
      · exact fun items hitems => hbare items hitems

theorem recasts_rewrite (hF : KeepsBare F) : Recasts fun a a' => a' = rewrite F a := by
  constructor
  · rintro a _ rfl
    unfold opName?
    cases ho : a.operation? with
    | none => rw [rewrite_of_literal ho, ho]
    | some op => rw [operation?_rewrite hF ho]; rfl
  · rintro a _ rfl ho
    exact rewrite_of_literal ho

end Json

namespace Converter

/-! ## Expressions in full -/

/-- Text with the parent and a separator in front. -/
def absolutePath (c : Converter) (p : String) : Json → Json
  | .str path => .str (p ++ c.separator ++ path)
  | e => e

/-- The arguments of a read have its path in full, those of anything else are as they are. -/
def readArgs (c : Converter) (p name : String) (args _ : List Json) : List Json :=
  if c.index.isVarKey name then args.modifyHead (c.absolutePath p) else args

/-- A read with its path in full. -/
def absoluteRead (c : Converter) (p : String) : Json → Json := Json.rewrite (c.readArgs p)

/-- The arguments of a filter: what it is over in full, the predicate as it is. -/
def filterArgs (c : Converter) (p _name : String) (args _ : List Json) : List Json :=
  args.modifyHead (c.absoluteRead p)

/-- What a count is over, in full. -/
def absoluteSource (c : Converter) (p : String) (e : Json) : Json :=
  if e.opName? = some "filter" then Json.rewrite (c.filterArgs p) e else c.absoluteRead p e

/-- The arguments of an operand: a read has its path in full, a count its collection, and any
other operation all its arguments. -/
def absoluteArgs (c : Converter) (p name : String) (args inFull : List Json) : List Json :=
  if c.index.isVarKey name then inFull.modifyHead (c.absolutePath p)
  else if name == "reduce" then args.modifyHead (c.absoluteSource p)
  else inFull

/-- An operand with all it reads under the parent in full: a field, a value, an argument. -/
def absoluteOperand (c : Converter) (p : String) : Json → Json := Json.rewrite (c.absoluteArgs p)

/-- Which arguments of a rule are read under the parent: all of them, but of an operator on
collections the field only. -/
def readsAt (c : Converter) (op : Operation) (i : Nat) : Bool :=
  let s := RuleShape.ofOperation op
  !c.isGroupOp s || i == fieldPlace s (c.index.operatorKeys ⟨s.op, 0, false⟩).isEmpty

/-- An argument of a rule in full, where it is read under the parent. -/
def absoluteAt (c : Converter) (p : String) (op : Operation) (i : Nat) (a : Json) : Json :=
  if c.readsAt op i then c.absoluteOperand p a else a

/-- The arguments of an expression in rule position: those of a negation and of a conjunction
are in rule position too. -/
def absoluteRuleArgs (c : Converter) (p name : String) (args inFull : List Json) : List Json :=
  if (c.negated? ⟨name, args⟩).isSome || (c.index.conjunction? name).isSome then inFull
  else args.mapIdx (c.absoluteAt p ⟨name, args⟩)

/-- An expression in rule position with all it reads under the parent in full, and its having
clauses as they are. -/
def absoluteRule (c : Converter) (p : String) : Json → Json := Json.rewrite (c.absoluteRuleArgs p)

/-- Every variable read in an expression, itself included, is of a path that is text and not
empty. -/
inductive NamesPaths (c : Converter) : Json → Prop
  | literal {e} (he : e.operation? = none) : NamesPaths c e
  | read {e name path rest} (he : e.operation? = some ⟨name, .str path :: rest⟩)
      (hvar : c.index.isVarKey name = true) (hne : path ≠ "") (hrest : ∀ a ∈ rest, NamesPaths c a) : NamesPaths c e
  | operation {e name args} (he : e.operation? = some ⟨name, args⟩) (hvar : c.index.isVarKey name = false)
      (hargs : ∀ a ∈ args, NamesPaths c a) : NamesPaths c e

variable {c : Converter} {p : String} {e x : Json} {op : Operation}

/-! ## What stays -/

theorem isBare_absolutePath (h : e.IsBare) : (c.absolutePath p e).IsBare := by
  unfold absolutePath
  split
  · nofun
  · exact h

theorem keepsBare_readArgs : Json.KeepsBare (c.readArgs p) := by
  intro name a b ha _
  unfold readArgs
  by_cases hvar : c.index.isVarKey name = true
  · rw [if_pos hvar]
    exact ⟨_, rfl, isBare_absolutePath ha⟩
  · rw [if_neg hvar]
    exact ⟨a, rfl, ha⟩

theorem keepsBare_filterArgs : Json.KeepsBare (c.filterArgs p) :=
  fun _ _ _ ha _ => ⟨_, rfl, Json.isBare_rewrite ha⟩

theorem isBare_absoluteSource (h : e.IsBare) : (c.absoluteSource p e).IsBare := by
  unfold absoluteSource
  split
  · exact Json.isBare_rewrite h
  · exact Json.isBare_rewrite h

theorem keepsBare_absoluteArgs : Json.KeepsBare (c.absoluteArgs p) := by
  intro name a b ha hb
  unfold absoluteArgs
  by_cases hvar : c.index.isVarKey name = true
  · rw [if_pos hvar]
    exact ⟨_, rfl, isBare_absolutePath hb⟩
  rw [if_neg hvar]
  by_cases hreduce : (name == "reduce") = true
  · rw [if_pos hreduce]
    exact ⟨_, rfl, isBare_absoluteSource ha⟩
  · rw [if_neg hreduce]
    exact ⟨b, rfl, hb⟩

theorem keepsBare_absoluteRuleArgs : Json.KeepsBare (c.absoluteRuleArgs p) := by
  intro name a b ha hb
  unfold absoluteRuleArgs
  split
  · exact ⟨b, rfl, hb⟩
  · refine ⟨_, rfl, ?_⟩
    unfold absoluteAt
    split
    · exact Json.isBare_rewrite ha
    · exact ha

theorem operation?_absoluteOperand (c : Converter) (p : String) (he : e.operation? = some op) :
    (c.absoluteOperand p e).operation? =
      some ⟨op.name, c.absoluteArgs p op.name op.args (op.args.map (c.absoluteOperand p))⟩ :=
  Json.operation?_rewrite keepsBare_absoluteArgs he

theorem operation?_absoluteRule (c : Converter) (p : String) (he : e.operation? = some op) :
    (c.absoluteRule p e).operation? =
      some ⟨op.name, c.absoluteRuleArgs p op.name op.args (op.args.map (c.absoluteRule p))⟩ :=
  Json.operation?_rewrite keepsBare_absoluteRuleArgs he

theorem recasts_absoluteOperand : Recasts fun a a' => a' = c.absoluteOperand p a :=
  Json.recasts_rewrite keepsBare_absoluteArgs

/-- Operands in full keep their names, and the list in an `in`. -/
theorem keepsNames_absoluteOperand : KeepsNames (c.absoluteOperand p) := by
  refine ⟨recasts_absoluteOperand, fun a args ha => ⟨_, operation?_absoluteOperand c p ha, ?_⟩⟩
  unfold absoluteArgs
  by_cases hvar : c.index.isVarKey "in" = true
  · rw [if_pos hvar]
    cases args <;> simp
  · rw [if_neg hvar]
    simp

/-! ## What is named and read -/

theorem varPath?_text {path : String} {rest : List Json} (hne : path ≠ "") :
    FieldOperand.varPath? (.str path :: rest) = some path := by
  have hempty : path.isEmpty = false := by simpa using hne
  simp [FieldOperand.varPath?, hempty]

theorem join_ne_empty {path : String} (hne : path ≠ "") : p ++ c.separator ++ path ≠ "" := by
  simp [hne]

theorem readPath?_absoluteRead (h : c.NamesPaths x) :
    FieldOperand.readPath? c.index (c.absoluteRead p x) =
      (FieldOperand.readPath? c.index x).map fun path => p ++ c.separator ++ path := by
  unfold FieldOperand.readPath? absoluteRead
  cases h with
  | literal hx =>
    rw [Json.rewrite_of_literal hx, hx]
    rfl
  | read hx hvar hne _ =>
    rw [Json.operation?_rewrite keepsBare_readArgs hx, hx]
    simp only [readArgs, hvar, if_true, List.modifyHead_cons, absolutePath, varPath?_text hne,
      varPath?_text (join_ne_empty hne), Option.map_some]
  | operation hx hvar _ =>
    rw [Json.operation?_rewrite keepsBare_readArgs hx, hx]
    simp only [hvar]
    rfl

/-- A field with its path in full; the predicate is read under the field and stays. -/
def inFull (c : Converter) (p : String) : FieldOperand → FieldOperand
  | .direct path => .direct (p ++ c.separator ++ path)
  | .filtered path having => .filtered (p ++ c.separator ++ path) having

theorem NamesPaths.of_mem_args (h : c.NamesPaths e) (he : e.operation? = some op) {a : Json} (ha : a ∈ op.args) :
    c.NamesPaths a := by
  cases h with
  | literal hnone => rw [hnone] at he; cases he
  | read hread _ _ hrest =>
    cases hread.symm.trans he
    rcases List.mem_cons.mp ha with rfl | ha
    · exact .literal rfl
    · exact hrest a ha
  | operation hop _ hargs =>
    cases hop.symm.trans he
    exact hargs a ha

theorem NamesPaths.of_inside (h : c.NamesPaths e) {a : Json} (ha : a.Inside e) : c.NamesPaths a := by
  induction ha using Relation.TransGen.head_induction_on with
  | single harg =>
    obtain ⟨op, he, ha⟩ := harg
    exact h.of_mem_args he ha
  | head harg _ ih =>
    obtain ⟨op, he, ha⟩ := harg
    exact ih.of_mem_args he ha

theorem namesPaths_read {path : String} (hvar : c.index.isVarKey "var" = true) (hne : path ≠ "") :
    c.NamesPaths (Cars.read path) :=
  .read rfl hvar hne nofun

theorem namesPaths_call {name : String} {args : List Json} (hvar : c.index.isVarKey name = false)
    (hargs : ∀ a ∈ args, c.NamesPaths a) : c.NamesPaths (Cars.call name args) :=
  .operation rfl hvar hargs

theorem ofSource?_absoluteSource (h : c.NamesPaths x) :
    FieldOperand.ofSource? c.index (c.absoluteSource p x) =
      (FieldOperand.ofSource? c.index x).map (c.inFull p) := by
  cases ho : x.operation? with
  | none =>
    have hsame : c.absoluteSource p x = x := by
      unfold absoluteSource
      split <;> exact Json.rewrite_of_literal ho
    rw [hsame]
    simp [FieldOperand.ofSource?, ho]
  | some op =>
    by_cases hfilter : op.name = "filter"
    · have hsource : c.absoluteSource p x = Json.rewrite (c.filterArgs p) x := by
        rw [absoluteSource, if_pos (by rw [Json.opName?, ho, Option.map_some, hfilter])]
      rw [hsource]
      unfold FieldOperand.ofSource?
      rw [Json.operation?_rewrite keepsBare_filterArgs ho, ho]
      simp only [hfilter, beq_self_eq_true, if_true, filterArgs]
      cases hargs : op.args with
      | nil => rfl
      | cons y rest =>
        have hy : c.NamesPaths y := h.of_mem_args ho (by simp [hargs])
        simp only [List.modifyHead_cons, List.head?_cons, Option.bind_some, readPath?_absoluteRead hy,
          List.getElem?_cons_succ]
        rw [Option.map_map, Option.map_map]
        rfl
    · have hsource : c.absoluteSource p x = c.absoluteRead p x := by
        rw [absoluteSource, if_neg (by rw [Json.opName?, ho, Option.map_some]; simpa using hfilter)]
      have ho' := Json.operation?_rewrite (keepsBare_readArgs (c := c) (p := p)) ho
      rw [hsource]
      unfold FieldOperand.ofSource?
      rw [readPath?_absoluteRead h, absoluteRead, ho', ho]
      simp only [beq_eq_false_iff_ne.mpr hfilter]
      rw [if_neg (by simp), if_neg (by simp), Option.map_map, Option.map_map]
      rfl

theorem recognize?_absoluteOperand (h : c.NamesPaths x) :
    FieldOperand.recognize? c.index (c.absoluteOperand p x) =
      (FieldOperand.recognize? c.index x).map (c.inFull p) := by
  cases h with
  | literal hx =>
    rw [absoluteOperand, Json.rewrite_of_literal hx]
    simp [FieldOperand.recognize?, hx]
  | read hx hvar hne _ =>
    unfold FieldOperand.recognize?
    rw [operation?_absoluteOperand c p hx, hx]
    have htext : ∀ path, c.absolutePath p (c.absoluteOperand p (.str path)) = .str (p ++ c.separator ++ path) :=
      fun _ => rfl
    simp only [absoluteArgs, hvar, if_true, List.map_cons, List.modifyHead_cons, htext, varPath?_text hne,
      varPath?_text (join_ne_empty hne), Option.map_some, inFull]
  | @operation _ name args hx hvar hargs =>
    unfold FieldOperand.recognize?
    rw [operation?_absoluteOperand c p hx, hx]
    simp only [absoluteArgs, hvar, Bool.false_eq_true, if_false]
    by_cases hreduce : (name == "reduce") = true
    · simp only [hreduce, if_true]
      -- only the three operands of a fold name a field
      rcases args with _ | ⟨source, _ | ⟨acc, _ | ⟨init, _ | ⟨_, _⟩⟩⟩⟩
      · rfl
      · rfl
      · rfl
      · have hsource := ofSource?_absoluteSource (p := p) (hargs source (by simp))
        simp only [List.modifyHead_cons, hsource]
        split
        · rfl
        · rfl
      · rfl
    · simp only [hreduce]
      rfl

theorem nameAlike_absoluteOperand (h : c.NamesPaths x) :
    NameAlike c c (· = ·) (some p) none x (c.absoluteOperand p x) := by
  unfold NameAlike
  rw [recognize?_absoluteOperand h]
  cases FieldOperand.recognize? c.index x with
  | none => exact .none
  | some operand =>
    cases operand with
    | direct path => exact .some ⟨rfl, .none⟩
    | filtered path having =>
      refine .some ⟨rfl, ?_⟩
      cases having with
      | none => exact .none
      | some predicate => exact .some rfl

/-- Written in full, an operand reads without a parent what it did under it. -/
theorem fieldValue?_absoluteOperand (h : c.NamesPaths x) :
    c.fieldValue? (c.absoluteOperand p x) none = c.fieldValue? x (some p) := by
  cases h with
  | literal hx =>
    rw [absoluteOperand, Json.rewrite_of_literal hx]
    simp [fieldValue?, hx]
  | read hx hvar _ _ =>
    rw [fieldValue?_eq hx, fieldValue?_eq (operation?_absoluteOperand c p hx)]
    simp only [absoluteArgs, hvar, if_true]
    rfl
  | operation hx hvar _ =>
    rw [fieldValue?_eq hx, fieldValue?_eq (operation?_absoluteOperand c p hx)]
    simp only [hvar]
    rfl

/-! ## Rules -/

/-- An operand in full, of an operand whose reads name paths. -/
def InFull (c : Converter) (p : String) (a a' : Json) : Prop := a' = c.absoluteOperand p a ∧ c.NamesPaths a

theorem recasts_inFull : Recasts (c.InFull p) := recasts_absoluteOperand.mono fun _ _ h => h.1

theorem forall₂_map {f : Json → Json} {args : List Json} (h : ∀ a ∈ args, c.NamesPaths a) :
    List.Forall₂ (fun a a' => a' = f a ∧ c.NamesPaths a) args (args.map f) :=
  List.forall₂_map_right_iff.mpr (List.forall₂_same.mpr fun a ha => ⟨rfl, h a ha⟩)

/-- Every operator on collections is declared for one order of its arguments only. -/
def OneOrder (c : Converter) : Prop :=
  ∀ name ∈ c.schema.settings.groupOperators,
    c.index.operatorKeys ⟨name, 0, false⟩ = [] ∨ c.index.operatorKeys ⟨name, 0, true⟩ = []

theorem keepsNames_absoluteAt (c : Converter) (p : String) (op : Operation) (i : Nat) :
    KeepsNames (c.absoluteAt p op i) := by
  unfold absoluteAt
  cases c.readsAt op i with
  | true => exact keepsNames_absoluteOperand
  | false => exact keepsNames_id

/-- An operator on collections that has its field in one place has it read under the parent
there, and the other of the first two arguments is not. -/
theorem readsAt_of_isGroupOp (hone : c.OneOrder) (hgroup : c.isGroupOp (.ofOperation op) = true) {reversed : Bool}
    (hkeys : c.index.operatorKeys ⟨(RuleShape.ofOperation op).op, 0, reversed⟩ ≠ []) :
    c.readsAt op (fieldPlace (.ofOperation op) reversed) = true ∧
      c.readsAt op (1 - fieldPlace (.ofOperation op) reversed) = false := by
  have hlisted : (RuleShape.ofOperation op).op ∈ c.schema.settings.groupOperators := by
    simpa using ((Bool.and_eq_true _ _).mp hgroup).2
  have horder : (c.index.operatorKeys ⟨(RuleShape.ofOperation op).op, 0, false⟩).isEmpty = reversed := by
    cases reversed with
    | false => simpa using hkeys
    | true => simpa using (hone _ hlisted).resolve_right hkeys
  unfold readsAt
  simp only [horder, hgroup, Bool.not_true, Bool.false_or, beq_self_eq_true, true_and]
  unfold fieldPlace
  split <;> rfl

/-- One try at a rule in full finds the rule with its values in full, or fails alike. -/
theorem tryParse_absoluteAt (hone : c.OneOrder) (he : e.operation? = some op) (h : c.NamesPaths e)
    (reversed : Bool) :
    FoundAlike (Option.map RuleFault.kind) (Corresponds (c.InFull p) (· = ·))
      (c.tryParse (.ofOperation op) (some p) reversed)
      (c.tryParse ((RuleShape.ofOperation op).mapValues (c.absoluteAt p op)) none reversed) := by
  have hvalues : ∀ x ∈ (RuleShape.ofOperation op).values, c.NamesPaths x :=
    fun x hx => h.of_inside (inside_of_mem_values he hx)
  cases hgroup : c.isGroupOp (.ofOperation op) with
  | false =>
    have hat : c.absoluteAt p op = fun _ => c.absoluteOperand p := by
      funext i a
      simp [absoluteAt, readsAt, hgroup]
    rw [hat]
    apply tryParse_mapValues fun _ => keepsNames_absoluteOperand
    · intro x hx
      exact nameAlike_absoluteOperand (hvalues x (mem_values_of_layout (.inl hx)))
    · intro _
      rw [layout_mapValues_args]
      exact forall₂_map fun x hx => hvalues x (mem_values_of_layout (.inr hx))
    · intro hg
      rw [hgroup] at hg
      cases hg
  | true =>
    by_cases hkeys : c.index.operatorKeys ⟨(RuleShape.ofOperation op).op, 0, reversed⟩ = []
    · -- no operator has this order, whatever the values
      have hnone : ∀ (s : RuleShape) (parent : Option String), s.op = (RuleShape.ofOperation op).op →
          c.isGroupOp s = true → c.tryParse s parent reversed = .error none := by
        intro s parent hop hs
        apply tryParse_of_no_keys
        intro arity harity
        rw [wantedArity?, if_pos hs, Option.some.injEq] at harity
        rw [← harity, hop]
        exact hkeys
      have hgroup' := (isGroupOp_mapValues (keepsNames_absoluteAt c p op 1)).trans hgroup
      rw [hnone (.ofOperation op) (some p) rfl hgroup,
        hnone ((RuleShape.ofOperation op).mapValues (c.absoluteAt p op)) none rfl hgroup']
      rfl
    · obtain ⟨hfield, hclause⟩ := readsAt_of_isGroupOp hone hgroup hkeys
      apply tryParse_mapValues (keepsNames_absoluteAt c p op)
      · intro x hx
        rw [absoluteAt, if_pos hfield]
        exact nameAlike_absoluteOperand (hvalues x (mem_values_of_layout (.inl hx)))
      · intro hg
        rw [hgroup] at hg
        cases hg
      · intro _ x _
        simp [absoluteAt, hclause]

theorem parseRule_absoluteRule (hone : c.OneOrder) (he : e.operation? = some op) (h : c.NamesPaths e) (e' : Json) :
    FoundAlike Problem.kind (Corresponds (c.InFull p) (· = ·)) (c.parseRule e (.ofOperation op) (some p))
      (c.parseRule e' (.ofOperation ⟨op.name, op.args.mapIdx (c.absoluteAt p op)⟩) none) := by
  rw [ofOperation_mapIdx (keepsNames_absoluteAt c p op 1)]
  exact parseRule_foundAlike (tryParse_absoluteAt hone he h false) (.inr (tryParse_absoluteAt hone he h true)) e e'

/-! ## Steps -/

theorem keepsOperations_eq : KeepsOperations (· = ·) := by
  rintro x _ rfl
  cases x.operation? with
  | none => exact .none
  | some op => exact .some ⟨rfl, List.forall₂_eq_eq_eq ▸ rfl⟩

/-- The conversions of the parts end alike under the parent and in full. -/
structure LevelParts (c : Converter) (p : String) (sub : SubRuns) : Prop where
  rule : ∀ e negated, c.NamesPaths e →
    (sub.rule e negated (some p)).Leads (sub.rule (c.absoluteRule p e) negated none)
  value : ∀ e t, c.NamesPaths e →
    (sub.value e t (some p)).Leads (sub.value (c.absoluteOperand p e) t none)

variable {sub : SubRuns}

/-- An operation of a name that nothing in value position answers to is no value. -/
theorem valueStep_of_unknown (hhooks : c.hooks = []) {name : String} {args : List Json}
    (he : e.operation? = some ⟨name, args⟩) (hbang : name ≠ "!") (hvar : c.index.isVarKey name = false)
    (hmethod : name ≠ "method")
    (hfunc : c.index.funcKeys ⟨name, false⟩ = []) (t : Target) (parent : Option String) :
    c.valueStep sub e t parent = .ofExcept (c.literalValue e t) := by
  have hfield : c.fieldValue? e parent = none := by
    rw [fieldValue?_eq he, hvar]
    rfl
  have hcall : c.call? e t.type = none := by
    unfold call? declaredFunc?
    rw [he, hookedCall?_of_nil hhooks]
    simp [callSignature?, hmethod, hfunc]
  have hneg : c.negated? ⟨name, args⟩ = none := negated?_of_ne hbang
  simp only [valueStep, he, Option.bind_some, hneg, hfield, hcall]

theorem valueStep_absoluteOperand (hhooks : c.hooks = []) (hbang : c.index.isVarKey "!" = false)
    (hreduce : c.index.funcKeys ⟨"reduce", false⟩ = []) (hsub : LevelParts c p sub) (h : c.NamesPaths e)
    (t : Target) : (c.valueStep sub e t (some p)).Leads (c.valueStep sub (c.absoluteOperand p e) t none) := by
  have hfield := fieldValue?_absoluteOperand (p := p) h
  cases h with
  | literal ho =>
    rw [absoluteOperand, Json.rewrite_of_literal ho, valueStep_of_literal ho, valueStep_of_literal ho]
    exact Run.leads_refl _
  | @read _ name path rest ho hvar hne hrest =>
    -- a read is no negation, so nothing is looked at but what it reads
    have hname : name ≠ "!" := by
      rintro rfl
      rw [hbang] at hvar
      cases hvar
    have hread : c.fieldValue? e (some p) = some (c.fieldAt (c.composePath (some p) path)) := by
      rw [fieldValue?_eq ho, if_pos hvar]
      rfl
    have ho' := operation?_absoluteOperand c p ho
    unfold valueStep
    rw [ho, ho', Option.bind_some, Option.bind_some, negated?_of_ne hname, negated?_of_ne hname, hfield, hread]
    exact Run.leads_refl _
  | @operation _ name args ho hvar hargs =>
    have ho' := operation?_absoluteOperand c p ho
    by_cases hname : name = "reduce"
    · subst hname
      have hnot : "reduce" ≠ "!" ∧ "reduce" ≠ "method" := by decide
      rw [valueStep_of_unknown hhooks ho hnot.1 hvar hnot.2 hreduce,
        valueStep_of_unknown hhooks ho' hnot.1 hvar hnot.2 hreduce]
      apply literalValue_leads
      · rw [Json.isOperation, ho]
        rfl
      · rw [Json.isOperation, ho']
        rfl
    · have hdeep : c.absoluteArgs p name args (args.map (c.absoluteOperand p)) = args.map (c.absoluteOperand p) := by
        simp [absoluteArgs, hvar, hname]
      rw [hdeep] at ho'
      apply valueStep_leads_of_args recasts_inFull hhooks ho ho' (forall₂_map hargs) hfield
      rintro a _ t ⟨rfl, ha⟩
      exact hsub.value a t ha

/-- A rule in full is no negation either. -/
theorem negated?_mapIdx {g : Nat → Json → Json} (hg : ∀ i, KeepsNames (g i)) (hx : c.negated? op = none) :
    c.negated? ⟨op.name, op.args.mapIdx g⟩ = none := by
  have hU : Recasts fun a a' => ∃ i, a' = g i a := by
    constructor
    · rintro a _ ⟨i, rfl⟩
      exact (hg i).recasts.opName? a _ rfl
    · rintro a _ ⟨i, rfl⟩ ho
      exact (hg i).recasts.literal a _ rfl ho
  have hargs : List.Forall₂ (fun a a' => ∃ i, a' = g i a) op.args (op.args.mapIdx g) := by
    rw [List.forall₂_iff_get]
    refine ⟨by simp, fun i h h' => ⟨i, by simp⟩⟩
  have hneg := negated?_rel c op.name hU hargs
  rw [hx] at hneg
  exact eq_none_of_rel_none hneg

theorem ruleStep_absoluteRule (hone : c.OneOrder) (hsub : LevelParts c p sub) (h : c.NamesPaths e)
    (negated : Bool) :
    (c.ruleStep sub e negated (some p)).Leads (c.ruleStep sub (c.absoluteRule p e) negated none) := by
  cases ho : e.operation? with
  | none =>
    rw [absoluteRule, Json.rewrite_of_literal ho]
    simp only [ruleStep, ho]
    exact Run.leads_refl _
  | some op =>
    have ho' := operation?_absoluteRule c p ho
    have hargs : ∀ a ∈ op.args, c.NamesPaths a := fun a ha => h.of_mem_args ho ha
    unfold absoluteRuleArgs at ho'
    have hinFull := forall₂_map (f := c.absoluteRule p) hargs
    have hU : Recasts fun a a' => a' = c.absoluteRule p a ∧ c.NamesPaths a :=
      (Json.recasts_rewrite keepsBare_absoluteRuleArgs).mono fun _ _ h => h.1
    have hneg := negated?_rel c op.name hU hinFull
    cases hx : c.negated? op with
    | some x =>
      rw [hx] at hneg ho'
      obtain ⟨_, hx', rfl, hpaths⟩ := exists_of_rel_some hneg
      rw [ruleStep_negation ho hx, ruleStep_negation ho' hx']
      exact hsub.rule x (!negated) hpaths
    | none =>
      cases hk : c.index.conjunction? op.name with
      | some key =>
        rw [hx] at hneg
        rw [hk, Option.isSome_some, Bool.or_true, if_pos rfl] at ho'
        rw [ruleStep_conjunction ho hx hk, ruleStep_conjunction ho' (eq_none_of_rel_none hneg) hk]
        apply convertConjunction_leads
        exact hinFull.imp fun a _ ha => ha.1 ▸ hsub.rule a false ha.2
      | none =>
        have hrule : ((c.negated? ⟨op.name, op.args⟩).isSome || (c.index.conjunction? op.name).isSome) = false := by
          rw [hx, hk]
          rfl
        rw [hrule, if_neg Bool.false_ne_true] at ho'
        rw [ruleStep_rule ho hx hk,
          ruleStep_rule ho' (negated?_mapIdx (keepsNames_absoluteAt c p op) hx) hk]
        apply convertOp_leads_of_foundAlike keepsOperations_eq (parseRule_absoluteRule hone ho h _)
        · rintro a _ t ⟨rfl, ha⟩
          exact hsub.value a t ha
        · rintro having _ path f rfl
          exact Run.leads_refl _

theorem levelParts (hhooks : c.hooks = []) (hbang : c.index.isVarKey "!" = false)
    (hreduce : c.index.funcKeys ⟨"reduce", false⟩ = []) (hone : c.OneOrder) (n : Nat) :
    LevelParts c p ⟨c.ruleN n, c.valueN n⟩ := by
  induction n with
  | zero => exact ⟨fun _ _ _ => Run.leads_stuck _, fun _ _ _ => Run.leads_stuck _⟩
  | succ n ih =>
    exact ⟨fun _ negated he => ruleStep_absoluteRule hone ih he negated,
      fun _ t he => valueStep_absoluteOperand hhooks hbang hreduce ih he t⟩

/-- An expression whose reads name paths is converted under a parent as it is converted
without one when its paths are written in full: to the same node, names and all, and with as
many problems of the same kinds. -/
theorem relative_as_absolute (c : Converter) (hhooks : c.hooks = []) (hbang : c.index.isVarKey "!" = false)
    (hreduce : c.index.funcKeys ⟨"reduce", false⟩ = []) (hone : c.OneOrder) (p : String) (h : c.NamesPaths e)
    (negated : Bool) : (c.rule e negated (some p)).EndAlike (c.rule (c.absoluteRule p e) negated none) :=
  endAlike_of_leads (hooksShrink_of_nil hhooks) fun k =>
    (levelParts hhooks hbang hreduce hone k).rule e negated h

/-- Under the user, and in full: not some of the user's cars are of a vendor. -/
theorem cars_of_user_in_full :
    let e := Cars.not (Cars.ofCars "some" (Cars.equals "vendor" "vw"))
    let c := Cars.converter
    c.hooks = [] ∧ c.index.isVarKey "!" = false ∧ c.index.funcKeys ⟨"reduce", false⟩ = [] ∧ c.OneOrder ∧
      c.NamesPaths e ∧
      c.absoluteRule "user" e = Cars.not (Cars.call "some" [Cars.read "user.cars", Cars.equals "vendor" "vw"]) ∧
      (c.rule e false (some "user") 0).any (fun d => d.value.isSome) = true ∧
      (c.rule e false (some "user")).EndAlike (c.rule (c.absoluteRule "user" e) false none) := by
  intro e c
  have hone : c.OneOrder := by
    unfold OneOrder
    decide +kernel
  have hvendor : c.NamesPaths (Cars.equals "vendor" "vw") := by
    apply namesPaths_call (by rfl)
    simp only [List.forall_mem_cons]
    exact ⟨namesPaths_read (by rfl) (by decide), .literal rfl, nofun⟩
  have hsome : c.NamesPaths (Cars.ofCars "some" (Cars.equals "vendor" "vw")) := by
    apply namesPaths_call (by rfl)
    simp only [List.forall_mem_cons]
    exact ⟨namesPaths_read (by rfl) (by decide), hvendor, nofun⟩
  have hpaths : c.NamesPaths e := namesPaths_call (by rfl) (by simpa using hsome)
  refine ⟨rfl, by rfl, by rfl, hone, hpaths, by rfl, by decide +kernel, ?_⟩
  exact relative_as_absolute c rfl (by rfl) (by rfl) hone "user" hpaths false

end Converter

/-! ## Users -/

namespace Users

open Cars (call read)

/-- A user has a name, a running count and items; `==` is written in either order. -/
def schema : Schema where
  conjunctions := [("AND", {})]
  operators := [("equal", { name := some "==" }), ("same", { name := some "==", reversedArgs := true })]
  fields := [
    ("alias", { type := "text" }),
    ("user", {
      type := "!struct"
      subfields := [
        ("name", { type := "text" }),
        ("accumulator", { type := "text" }),
        ("items", { type := "!group" })] })]
  widgets := [("text", { type := "text" })]

/-- With `!` as a key for reading fields. -/
def bangReads : Converter := .ofSchema { schema with settings := { altVarKey := "!" } } []

def reduce : Func where
  name := some "reduce"
  returnType := "text"
  args := [("of", { type := "text" }), ("step", { type := "text" }), ("from", { type := "text" })]

def plus : Func where
  name := some "+"
  returnType := "text"
  args := [("one", { type := "text" }), ("other", { type := "text" })]

/-- With functions for what a count is made of. -/
def reduceCalls : Converter := .ofSchema { schema with funcs := [("REDUCE", reduce), ("PLUS", plus)] } []

/-- With `some` in either order. -/
def someEitherWay : Converter :=
  .ofSchema { schema with operators := schema.operators ++ [
    ("some", { name := some "some", cardinality := some 0 }),
    ("holds_for", { name := some "some", cardinality := some 0, reversedArgs := true })] } []

def bangAlias (path : String) : Json := .obj [("!", .str path)]

/-- A count over a field of the user. -/
def count (path : String) : Json :=
  call "reduce" [read path, call "+" [.num (.int 1), read "accumulator"], .num (.int 0)]

end Users

namespace Converter

open Users
open Cars (call read)

variable {c : Converter}

/-- The node is a rule with the text for a value. -/
def hasText (text : String) (n : Option (Node Nat)) : Bool :=
  n.any fun n => n.args.any fun o => o.asLiteral?.any fun v => v.same (.str text)

theorem namesPaths_count {path : String} (hread : c.index.isVarKey "var" = true)
    (hreduce : c.index.isVarKey "reduce" = false) (hplus : c.index.isVarKey "+" = false) (hne : path ≠ "") :
    c.NamesPaths (count path) := by
  have hacc : c.NamesPaths (read "accumulator") := namesPaths_read hread (by decide)
  have hnum : ∀ n, c.NamesPaths (.num n) := fun n => .literal rfl
  apply namesPaths_call hreduce
  simp only [List.forall_mem_cons]
  refine ⟨namesPaths_read hread hne, ?_, hnum _, nofun⟩
  apply namesPaths_call hplus
  simp only [List.forall_mem_cons]
  exact ⟨hnum _, hacc, nofun⟩

/-- Each of these expressions reads paths, and says something else in full than under the user:
a negated text that is also a read, a count whose parts are also calls, and a collection that
is also a clause. The first one does so whether or not the text is written in full. -/
theorem operands_read_in_two_ways :
    (bangReads.hooks = [] ∧ bangReads.NamesPaths (call "==" [bangAlias "alias", read "name"]) ∧
      ¬ (bangReads.rule (call "==" [bangAlias "alias", read "name"]) false (some "user")).EndAlike
        (bangReads.rule (call "==" [bangAlias "user.alias", read "user.name"]) false none) ∧
      ¬ (bangReads.rule (call "==" [bangAlias "alias", read "name"]) false (some "user")).EndAlike
        (bangReads.rule (call "==" [bangAlias "alias", read "user.name"]) false none)) ∧
    (reduceCalls.hooks = [] ∧ reduceCalls.NamesPaths (call "==" [read "name", count "name"]) ∧
      ¬ (reduceCalls.rule (call "==" [read "name", count "name"]) false (some "user")).EndAlike
        (reduceCalls.rule (call "==" [read "user.name", count "user.name"]) false none)) ∧
    someEitherWay.hooks = [] ∧ someEitherWay.NamesPaths (call "some" [read "alias", read "items"]) ∧
      ¬ (someEitherWay.rule (call "some" [read "alias", read "items"]) false (some "user")).EndAlike
        (someEitherWay.rule (call "some" [read "alias", read "user.items"]) false none) := by
  refine ⟨⟨rfl, ?_, ?_, ?_⟩, ⟨rfl, ?_, ?_⟩, rfl, ?_, ?_⟩
  · apply namesPaths_call (by rfl)
    simp only [List.forall_mem_cons]
    exact ⟨.read rfl (by rfl) (by decide) nofun, namesPaths_read (by rfl) (by decide), nofun⟩
  · exact Run.not_endAlike (hasText "alias") (by decide +kernel) (by decide +kernel)
  · exact Run.not_endAlike (hasText "alias") (by decide +kernel) (by decide +kernel)
  · apply namesPaths_call (by rfl)
    simp only [List.forall_mem_cons]
    exact ⟨namesPaths_read (by rfl) (by decide), namesPaths_count (by rfl) (by rfl) (by rfl) (by decide), nofun⟩
  · exact Run.not_endAlike Option.isSome (by decide +kernel) (by decide +kernel)
  · apply namesPaths_call (by rfl)
    simp only [List.forall_mem_cons]
    exact ⟨namesPaths_read (by rfl) (by decide), namesPaths_read (by rfl) (by decide), nofun⟩
  · exact Run.not_endAlike Option.isNone (by decide +kernel) (by decide +kernel)

end Converter
end RuleTree
