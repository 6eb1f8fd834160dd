/-
  RuleTree.Proofs.Listing — an argument on its own is a list of one.

  An operation with one argument may be written with the argument in place of a list of it.
  `Json.listed` puts every such argument into a list, in every operation that is reached
  through arguments; lists that are arguments themselves and objects that are no operations
  are data and stay.
  - `operation?_listed`: the operation is the same but for its arguments, which are listed,
    and what is no operation stays as it is.
  - `recognize?_listed`: the same field is named, the predicate of a count being listed.
  - `listedParts`: so a conversion ends alike with its expression listed, to any depth.

  Proved of whole imports: `import_of_listed`. Hooks are left out of it: they see the
  expression as it is written.
-/

import RuleTree.Proofs.DoubleNegation
import RuleTree.Proofs.Rewriting

namespace RuleTree

namespace Json

mutual

/-- The expression with a list of one for every argument that is not in a list. -/
def listed : Json → Json
  | .obj [(name, .arr items)] => .obj [(name, .arr (listedAll items))]
  | .obj [(name, raw)] => .obj [(name, .arr [listed raw])]
  | e => e

def listedAll : List Json → List Json
  | [] => []
  | x :: rest => listed x :: listedAll rest

end

theorem listedAll_eq_map (items : List Json) : listedAll items = items.map listed := by
  induction items with
  | nil => rfl
  | cons x rest ih => rw [listedAll, ih, List.map_cons]

variable {e a : Json} {op : Operation}

theorem listed_of_literal (h : e.operation? = none) : e.listed = e := by
  unfold listed
  split
  · cases h
  · cases h
  · rfl

theorem operation?_listed (h : e.operation? = some op) :
    e.listed.operation? = some ⟨op.name, op.args.map listed⟩ := by
  match e with
  | .obj [(name, raw)] =>
    cases h
    by_cases hlist : ∃ items, raw = .arr items
    · obtain ⟨items, rfl⟩ := hlist
      rw [listed, listedAll_eq_map]
      rfl
    · have hbare : raw.argList = [raw] := by
        unfold argList
        split
        · exact absurd ⟨_, rfl⟩ hlist
        · rfl
      rw [listed]
      · rw [hbare]
        rfl
      · intro items hitems
        exact hlist ⟨items, hitems⟩

/-- Operations and literals that are listed keep their names, and the list in an `in`. -/
theorem keepsNames_listed : KeepsNames listed := by
  constructor
  · constructor
    · rintro a _ rfl
      unfold opName?
      cases ho : a.operation? with
      | none => rw [listed_of_literal ho, ho]
      | some op => rw [operation?_listed ho]; rfl
    · rintro a _ rfl ho
      exact listed_of_literal ho
  · intro a args ho
    exact ⟨args.map listed, operation?_listed ho, List.getElem?_map⟩

theorem forall₂_listed (items : List Json) :
    List.Forall₂ (fun a a' => a' = a.listed) items (items.map listed) :=
  List.forall₂_map_right_iff.mpr (List.forall₂_same.mpr fun _ _ => rfl)

/-- What is the same of all objects does not see what is listed. -/
theorem congr_listed {β : Type} {F : Json → β} {d : β} (h : ∀ entries, F (.obj entries) = d) (a : Json) :
    F a.listed = F a := by
  cases ho : a.operation? with
  | none => rw [listed_of_literal ho]
  | some op =>
    have hobj : ∀ {j : Json} {op : Operation}, j.operation? = some op → F j = d := by
      intro j op hj
      match j, hj with
      | .obj entries, _ => exact h entries
    rw [hobj ho, hobj (operation?_listed ho)]

end Json

namespace FieldOperand

variable {ix : Index}

/-- The operand with its predicate listed. -/
def listed : FieldOperand → FieldOperand
  | direct path => direct path
  | filtered path having => filtered path (having.map Json.listed)

theorem varPath?_listed (args : List Json) : varPath? (args.map Json.listed) = varPath? args := by
  cases args with
  | nil => rfl
  | cons x rest =>
    have hrest : varPath? (x.listed :: rest.map Json.listed) = varPath? (x.listed :: rest) := by
      unfold varPath?
      split <;> simp_all
    rw [List.map_cons, hrest]
    exact Json.congr_listed (F := fun x => varPath? (x :: rest)) (fun _ => rfl) x

theorem readPath?_listed (a : Json) : readPath? ix a.listed = readPath? ix a := by
  cases ho : a.operation? with
  | none => rw [Json.listed_of_literal ho]
  | some op =>
    unfold readPath?
    simp only [ho, Json.operation?_listed ho, varPath?_listed]

theorem head?_listed (args : List Json) :
    (args.map Json.listed).head?.bind Json.asString? = args.head?.bind Json.asString? := by
  cases args with
  | nil => rfl
  | cons x rest => exact Json.congr_listed (F := Json.asString?) (fun _ => rfl) x

theorem isAccumulator_listed (a : Json) : isAccumulator a.listed = isAccumulator a := by
  cases ho : a.operation? with
  | none => rw [Json.listed_of_literal ho]
  | some op =>
    unfold isAccumulator
    simp only [ho, Json.operation?_listed ho, head?_listed]

theorem isIncrement_listed (a : Json) : isIncrement a.listed = isIncrement a := by
  cases ho : a.operation? with
  | none => rw [Json.listed_of_literal ho]
  | some op =>
    obtain ⟨name, args⟩ := op
    unfold isIncrement
    rw [ho, Json.operation?_listed ho]
    rcases args with _ | ⟨step, _ | ⟨acc, _ | ⟨_, _⟩⟩⟩
    · rfl
    · rfl
    · have hone : isOneNum step.listed = isOneNum step := Json.congr_listed (fun _ => rfl) step
      simp only [List.map_cons, List.map_nil, hone, isAccumulator_listed]
    · rfl

theorem ofSource?_listed (a : Json) : ofSource? ix a.listed = (ofSource? ix a).map listed := by
  cases ho : a.operation? with
  | none =>
    rw [Json.listed_of_literal ho]
    simp [ofSource?, ho]
  | some op =>
    have hhead : (op.args.map Json.listed).head?.bind (readPath? ix) = op.args.head?.bind (readPath? ix) := by
      cases op.args with
      | nil => rfl
      | cons x rest => exact readPath?_listed x
    unfold ofSource?
    simp only [ho, Json.operation?_listed ho, hhead, readPath?_listed, List.getElem?_map]
    split
    · rw [Option.map_map]
      rfl
    · rw [Option.map_map]
      rfl

/-- A field is named by the same path, with the predicate listed. -/
theorem recognize?_listed (a : Json) : recognize? ix a.listed = (recognize? ix a).map listed := by
  cases ho : a.operation? with
  | none =>
    rw [Json.listed_of_literal ho]
    simp [recognize?, ho]
  | some op =>
    obtain ⟨name, args⟩ := op
    unfold recognize?
    rw [ho, Json.operation?_listed ho]
    simp only [varPath?_listed]
    split
    · rw [Option.map_map]
      rfl
    split
    · rcases args with _ | ⟨source, _ | ⟨acc, _ | ⟨init, _ | ⟨_, _⟩⟩⟩⟩
      · rfl
      · rfl
      · rfl
      · have hzero : isZeroNum init.listed = isZeroNum init := Json.congr_listed (fun _ => rfl) init
        simp only [List.map_cons, List.map_nil, hzero, isIncrement_listed, ofSource?_listed]
        split <;> rfl
      · rfl
    · rfl

end FieldOperand

namespace Converter

variable {c : Converter} {sub : SubRuns} {e : Json} {parent : Option String}

theorem nameAlike_listed (parent : Option String) (x : Json) :
    NameAlike c c (fun h h' => h' = h.listed) parent parent x x.listed := by
  unfold NameAlike
  rw [FieldOperand.recognize?_listed]
  cases FieldOperand.recognize? c.index x with
  | none => exact .none
  | some operand =>
    cases operand with
    | direct path => exact .some ⟨rfl, .none⟩
    | filtered path having =>
      cases having with
      | none => exact .some ⟨rfl, .none⟩
      | some predicate => exact .some ⟨rfl, .some rfl⟩

theorem keepsOperations_listed : KeepsOperations fun h h' => h' = h.listed := by
  rintro h _ rfl
  cases ho : h.operation? with
  | none =>
    rw [Json.listed_of_literal ho, ho]
    exact .none
  | some op =>
    rw [Json.operation?_listed ho]
    exact .some ⟨rfl, Json.forall₂_listed op.args⟩

theorem fieldValue?_listed (e : Json) (parent : Option String) :
    c.fieldValue? e.listed parent = c.fieldValue? e parent := by
  cases ho : e.operation? with
  | none => rw [Json.listed_of_literal ho]
  | some op =>
    rw [fieldValue?_eq ho, fieldValue?_eq (Json.operation?_listed ho), FieldOperand.head?_listed]

/-- A rule is found alike with its arguments listed. -/
theorem parseRule_listed (e : Json) (op : Operation) (parent : Option String) :
    FoundAlike Problem.kind (Corresponds (fun a a' => a' = a.listed) fun h h' => h' = h.listed)
      (c.parseRule e (.ofOperation op) parent)
      (c.parseRule e.listed (.ofOperation ⟨op.name, op.args.map Json.listed⟩) parent) := by
  have hshape : RuleShape.ofOperation ⟨op.name, op.args.map Json.listed⟩ =
      (RuleShape.ofOperation op).mapValues fun _ => Json.listed := by
    rw [← ofOperation_mapIdx (g := fun _ => Json.listed) Json.keepsNames_listed]
    congr 2
    exact List.ext_getElem? fun i => by simp
  have htry : ∀ reversed, FoundAlike (Option.map RuleFault.kind)
      (Corresponds (fun a a' => a' = a.listed) fun h h' => h' = h.listed)
      (c.tryParse (.ofOperation op) parent reversed)
      (c.tryParse ((RuleShape.ofOperation op).mapValues fun _ => Json.listed) parent reversed) := by
    intro reversed
    apply tryParse_mapValues fun _ => Json.keepsNames_listed
    · intro x _
      exact nameAlike_listed parent x
    · intro _
      rw [layout_mapValues_args]
      exact Json.forall₂_listed _
    · intro _ x _
      rfl
  rw [hshape]
  exact parseRule_foundAlike (htry false) (.inr (htry true)) e e.listed

/-- The conversions of the parts end alike with their expressions listed. -/
structure ListedParts (sub : SubRuns) : Prop where
  rule : ∀ e negated parent, (sub.rule e negated parent).Leads (sub.rule e.listed negated parent)
  value : ∀ e t parent, (sub.value e t parent).Leads (sub.value e.listed t parent)

theorem filterMap_listed (h : ListedParts sub) (args : List Json) (parent : Option String) :
    List.Forall₂ (fun a b => (sub.rule a false parent).Leads (sub.rule b false parent)) args
      (args.map Json.listed) :=
  (Json.forall₂_listed args).imp fun a _ hab => hab ▸ h.rule a false parent

theorem convertHaving_listed (h : ListedParts sub) (having : Json) (path : String) (f : Field) :
    (c.convertHaving sub having path f).Leads (c.convertHaving sub having.listed path f) := by
  cases ho : having.operation? with
  | none =>
    rw [Json.listed_of_literal ho]
    exact Run.leads_refl _
  | some op =>
    have ho' := Json.operation?_listed ho
    cases hk : c.index.conjunction? op.name with
    | some key => exact convertHaving_leads_conjunction ho ho' rfl hk (filterMap_listed h _ _) f
    | none =>
      apply convertHaving_leads_rule
      · rw [ho, Option.bind_some, hk]
      · rw [ho', Option.bind_some, hk]
      · exact h.rule having false (some path)

theorem ruleStep_listed (h : ListedParts sub) (e : Json) (negated : Bool) (parent : Option String) :
    (c.ruleStep sub e negated parent).Leads (c.ruleStep sub e.listed negated parent) := by
  cases ho : e.operation? with
  | none =>
    rw [Json.listed_of_literal ho]
    exact Run.leads_refl _
  | some op =>
    have ho' := Json.operation?_listed ho
    have hneg := negated?_rel c op.name Json.keepsNames_listed.recasts (Json.forall₂_listed op.args)
    rcases rel_cases hneg with ⟨hx, hx'⟩ | ⟨x, _, hx, hx', rfl⟩
    · cases hk : c.index.conjunction? op.name with
      | some key =>
        rw [ruleStep_conjunction ho hx hk, ruleStep_conjunction ho' hx' hk]
        exact convertConjunction_leads (filterMap_listed h _ _) key negated
      | none =>
        rw [ruleStep_rule ho hx hk, ruleStep_rule ho' hx' hk]
        apply convertOp_leads_of_foundAlike keepsOperations_listed (parseRule_listed e op parent)
        · rintro a _ t rfl
          exact h.value a t parent
        · rintro having _ path f rfl
          exact convertHaving_listed h having path f
    · rw [ruleStep_negation ho hx, ruleStep_negation ho' hx']
      exact h.rule x (!negated) parent

theorem valueStep_listed (hhooks : c.hooks = []) (h : ListedParts sub) (e : Json) (t : Target)
    (parent : Option String) : (c.valueStep sub e t parent).Leads (c.valueStep sub e.listed t parent) := by
  cases ho : e.operation? with
  | none =>
    rw [Json.listed_of_literal ho]
    exact Run.leads_refl _
  | some op =>
    apply valueStep_leads_of_args Json.keepsNames_listed.recasts hhooks ho (Json.operation?_listed ho)
      (Json.forall₂_listed op.args) (fieldValue?_listed e parent)
    rintro a _ t rfl
    exact h.value a t parent

theorem listedParts (hhooks : c.hooks = []) (n : Nat) : ListedParts ⟨c.ruleN n, c.valueN n⟩ := by
  induction n with
  | zero => exact ⟨fun _ _ _ => Run.leads_stuck _, fun _ _ _ => Run.leads_stuck _⟩
  | succ n ih => exact ⟨ruleStep_listed ih, valueStep_listed hhooks ih⟩

/-! ## Imports -/

theorem isTruthy_listed (e : Json) : e.listed.isTruthy = e.isTruthy :=
  Json.congr_listed (fun _ => rfl) e

/-- Without hooks, an expression is imported as the same tree with every argument in a list as
with single arguments on their own, and with as many problems of the same kinds. -/
theorem import_of_listed (c : Converter) (hhooks : c.hooks = []) {ι : Type} (ids : Nat → ι) (start : Nat)
    (e : Json) :
    ∃ o o', c.importTree ids start e = some o ∧ c.importTree ids start e.listed = some o' ∧
      o'.tree = o.tree ∧ o'.drawn = o.drawn ∧ o'.problems.map Problem.kind = o.problems.map Problem.kind :=
  importTree_of_leads (hooksShrink_of_nil hhooks) (isTruthy_listed e)
    (fun k => (listedParts hhooks k).rule e false none) ids start

/-- No cars are of a vendor: the fields and the negated rule on their own and in lists. -/
theorem clause_on_cars_listed :
    let e := Json.bang (Cars.ofCars "some" (Cars.equals "vendor" "vw"))
    let listedRead path := Cars.call "var" [.str path]
    Cars.converter.hooks = [] ∧
      e.listed = Cars.not (Cars.call "some" [listedRead "cars", Cars.call "==" [listedRead "vendor", .str "vw"]]) ∧
      ∃ o o', Cars.converter.importTree (fun n => n) 1 e = some o ∧
        Cars.converter.importTree (fun n => n) 1 e.listed = some o' ∧ o.tree.isSome = true ∧
        o'.tree = o.tree ∧ o'.drawn = o.drawn ∧ o'.problems.map Problem.kind = o.problems.map Problem.kind := by
  intro e listedRead
  obtain ⟨t, ⟨o₁, ho₁, -, ht⟩, -⟩ := exists_importsAs (c := Cars.converter) (fun _ => true) e (by decide +kernel)
  obtain ⟨o, o', ho, ho', htree, hdrawn, hkinds⟩ := import_of_listed Cars.converter rfl (fun n => n) 1 e
  cases ho₁.symm.trans ho
  exact ⟨rfl, rfl, o₁, o', ho, ho', by rw [ht]; rfl, htree, hdrawn, hkinds⟩

end Converter
end RuleTree
