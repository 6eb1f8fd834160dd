/-
  RuleTree.Proofs.Step — what a step of a conversion keeps of the conversions of the parts.

  - `Loud`: a conversion that gives nothing has recorded a problem (`ruleN_loud`,
    `valueN_loud`).
  - `Leads`: a conversion that ends goes on to end in the same way when more nesting is
    allowed (`ruleN_leads`, `valueN_leads`).
  Each is shown of one step, for any conversions of the parts that have it, and then of the
  nested steps by induction on the nesting.
-/

import RuleTree.Convert.Import
import RuleTree.Proofs.Run

namespace RuleTree
namespace Converter

variable (c : Converter)

/-! ## A rule after its negations are taken together -/

/-- The node of a rule whose negations have been taken together. -/
def finishRule (sub : SubRuns) (r : ParsedRule) (negated : Bool) (parent : Option String) :
    Run (Option (Node Nat)) :=
  let settled := c.settleNegation r.field r.op negated
  let target := Target.ofField r.field (c.widgetFor r.path settled.1)
  (Run.collect (fun a => sub.value a target parent) r.args).andThen fun operands =>
    (c.ruleNode sub r settled.1 settled.2 operands).andThen fun n =>
      if settled.2 && !c.keepsNegation r.field then
        (c.wrap true n).bind fun t => Run.pure (some t.root)
      else Run.pure (some n)

theorem assembleRule_eq (sub : SubRuns) (r : ParsedRule) (negated : Bool) (parent : Option String) :
    c.assembleRule sub r negated parent =
      c.finishRule sub (foldHaving r negated).1 (foldHaving r negated).2 parent := rfl

section FoldHaving

variable {r : ParsedRule} {negated : Bool}

theorem foldHaving_of_not_isGroup (hg : r.field.isGroup = false) : foldHaving r negated = (r, negated) := by
  unfold foldHaving
  rw [hg]

theorem foldHaving_of_bang {having : Json} {inner : List Json} (hg : r.field.isGroup = true)
    (hr : r.having = some having) (ho : having.operation? = some ⟨"!", inner⟩) :
    foldHaving r negated = ({ r with having := inner.head? }, !negated) := by
  simp only [foldHaving, hg, hr, Option.bind_some, ho]

theorem foldHaving_of_ne (h : r.having.bind Json.opName? ≠ some "!") :
    foldHaving r negated = (r, negated) := by
  unfold foldHaving
  split
  · rename_i ho
    cases hr : r.having with
    | none => simp [hr] at ho
    | some having => simp [hr, Json.opName?, show having.operation? = _ by simpa [hr] using ho] at h
  · rfl

/-- Only the having clause and the negation are touched. -/
theorem foldHaving_eq (r : ParsedRule) (negated : Bool) :
    (foldHaving r negated).1 = { r with having := (foldHaving r negated).1.having } := by
  unfold foldHaving
  split <;> rfl

end FoldHaving

/-! ## Which way a step goes -/

variable {c} in
/-- A having clause that is a conjunction is one by its name. -/
theorem exists_conjunction_of_having {having : Json} {key : String} {args : List Json}
    (h : (having.operation?.bind fun op => (c.index.conjunction? op.name).map fun k => (k, op.args)) =
      some (key, args)) :
    ∃ op, having.operation? = some op ∧ c.index.conjunction? op.name = some key ∧ op.args = args := by
  obtain ⟨op, hop, hmap⟩ := Option.bind_eq_some_iff.mp h
  obtain ⟨k, hk, he⟩ := Option.map_eq_some_iff.mp hmap
  cases he
  exact ⟨op, hop, hk, rfl⟩

variable {c} in
theorem negated?_of_ne {op : Operation} (h : op.name ≠ "!") : c.negated? op = none := by
  simp [negated?, h]

section Dispatch

variable {c} {sub : SubRuns} {e : Json} {op : Operation} {negated : Bool} {parent : Option String}

theorem ruleStep_negation {x : Json} (he : e.operation? = some op) (hx : c.negated? op = some x) :
    c.ruleStep sub e negated parent = sub.rule x (!negated) parent := by
  simp only [ruleStep, he, hx]

theorem ruleStep_conjunction {key : String} (he : e.operation? = some op) (hx : c.negated? op = none)
    (hk : c.index.conjunction? op.name = some key) :
    c.ruleStep sub e negated parent = c.convertConjunction sub key op.args negated parent := by
  simp only [ruleStep, he, hx, hk]

theorem ruleStep_rule (he : e.operation? = some op) (hx : c.negated? op = none)
    (hk : c.index.conjunction? op.name = none) :
    c.ruleStep sub e negated parent = c.convertOp sub e op negated parent := by
  simp only [ruleStep, he, hx, hk]

/-- A conjunction ends when its arguments have, with a node made of what they give. -/
theorem convertConjunction_eq_some {key : String} {args : List Json} {n : Nat} {d : Done (Option (Node Nat))} :
    c.convertConjunction sub key args negated parent n = some d ↔
      ∃ children, Run.filterMap (fun a => sub.rule a false parent) args n = some children ∧
        d = ⟨some (c.reconcileFrom key negated children.value children.next).1,
          (c.reconcileFrom key negated children.value children.next).2, children.problems⟩ := by
  rw [convertConjunction, Run.bind_eq_some]
  constructor
  · rintro ⟨children, e, hchildren, he, rfl⟩
    cases he
    exact ⟨children, hchildren, by simp⟩
  · rintro ⟨children, hchildren, rfl⟩
    exact ⟨children, _, hchildren, rfl, by simp⟩

end Dispatch

/-! ## Nothing without a problem -/

/-- The conversions of the parts say why they give nothing. -/
structure LoudParts (sub : SubRuns) : Prop where
  rule : ∀ e negated parent, (sub.rule e negated parent).Loud
  value : ∀ e t parent, (sub.value e t parent).Loud

variable {c} {sub : SubRuns}

theorem callArgs_loud (func : String) (parent : Option String) (args : Table FuncArg)
    (given : List Json) : (callArgs sub func parent args given).Loud := by
  induction args generalizing given with
  | nil => exact Run.loud_some []
  | cons a rest ih =>
    refine Run.loud_bind fun converted => ?_
    -- only the argument's own default can stand in for a conversion that gave nothing
    cases converted.or (a.2.default.map fun v => .literal v a.2.type) with
    | none => exact Run.loud_fail _
    | some o => exact Run.loud_andThen (ih given.tail) fun os => Run.loud_some _

theorem valueStep_loud (h : LoudParts sub) (e : Json) (t : Target) (parent : Option String) :
    (c.valueStep sub e t parent).Loud := by
  unfold valueStep
  split
  · exact h.value _ _ _
  split
  · exact Run.loud_ofExcept _
  split
  · unfold convertCall
    split
    · exact Run.loud_fail _
    · exact Run.loud_andThen (callArgs_loud _ _ _ _) fun os => Run.loud_some _
  · exact Run.loud_ofExcept _

theorem convertConjunction_loud (conjunction : String) (args : List Json) (negated : Bool)
    (parent : Option String) : (c.convertConjunction sub conjunction args negated parent).Loud :=
  Run.loud_bind fun _ => Run.loud_bind fun _ => Run.loud_some _

theorem convertHaving_loud (h : LoudParts sub) (having : Json) (path : String) (f : Field) :
    (c.convertHaving sub having path f).Loud := by
  unfold convertHaving
  split
  · exact Run.loud_bind fun _ => Run.loud_bind fun _ => Run.loud_bind fun _ => Run.loud_some _
  · exact Run.loud_andThen (h.rule _ _ _) fun _ => Run.loud_bind fun _ => Run.loud_bind fun _ =>
      Run.loud_some _

theorem ruleNode_loud (h : LoudParts sub) (r : ParsedRule) (op : String) (negated : Bool)
    (operands : List Operand) : (c.ruleNode sub r op negated operands).Loud := by
  unfold ruleNode
  split
  · refine Run.loud_andThen ?_ fun g => Run.loud_some _
    unfold groupBody
    split
    · exact convertHaving_loud h _ _ _
    · exact Run.loud_bind fun _ => Run.loud_some _
  · exact Run.loud_bind fun _ => Run.loud_some _

theorem assembleRule_loud (h : LoudParts sub) (r : ParsedRule) (negated : Bool)
    (parent : Option String) : (c.assembleRule sub r negated parent).Loud := by
  rw [assembleRule_eq]
  refine Run.loud_andThen (Run.loud_collect (fun a => h.value a _ parent) _) fun operands => ?_
  refine Run.loud_andThen (ruleNode_loud h _ _ _ _) fun n => ?_
  split
  · exact Run.loud_bind fun _ => Run.loud_some _
  · exact Run.loud_some n

theorem ruleStep_loud (h : LoudParts sub) (e : Json) (negated : Bool) (parent : Option String) :
    (c.ruleStep sub e negated parent).Loud := by
  unfold ruleStep
  split
  · exact Run.loud_fail _
  split
  · exact h.rule _ _ _
  split
  · exact convertConjunction_loud _ _ _ _
  · unfold convertOp
    split
    · exact Run.loud_fail _
    · exact assembleRule_loud h _ _ _

variable (c) in
theorem loudParts (n : Nat) : LoudParts ⟨c.ruleN n, c.valueN n⟩ := by
  induction n with
  | zero => exact ⟨fun _ _ _ => Run.loud_stuck, fun _ _ _ => Run.loud_stuck⟩
  | succ n ih => exact ⟨ruleStep_loud ih, valueStep_loud ih⟩

/-- An expression in rule position that becomes no node has left a problem. -/
theorem ruleN_loud (n : Nat) (e : Json) (negated : Bool) (parent : Option String) :
    (c.ruleN n e negated parent).Loud := (c.loudParts n).rule e negated parent

/-- An expression in value position that becomes no operand has left a problem. -/
theorem valueN_loud (n : Nat) (e : Json) (t : Target) (parent : Option String) :
    (c.valueN n e t parent).Loud := (c.loudParts n).value e t parent

/-! ## More nesting keeps what has ended -/

/-- The conversions of the parts go on to end where they ended. -/
structure LeadingParts (sub sub' : SubRuns) : Prop where
  rule : ∀ e negated parent, (sub.rule e negated parent).Leads (sub'.rule e negated parent)
  value : ∀ e t parent, (sub.value e t parent).Leads (sub'.value e t parent)

variable {sub' : SubRuns}

/-- Arguments end alike when the expressions given for them do, each under its own parent. -/
theorem callArgs_leads_of_given {parent parent' : Option String} {given given' : List Json}
    (h : List.Forall₂ (fun v v' => ∀ t, (sub.value v t parent).Leads (sub'.value v' t parent')) given given')
    (func : String) (args : Table FuncArg) :
    (callArgs sub func parent args given).Leads (callArgs sub' func parent' args given') := by
  induction args generalizing given given' with
  | nil => exact Run.leads_refl _
  | cons a rest ih =>
    have hrest : List.Forall₂ (fun v v' => ∀ t, (sub.value v t parent).Leads (sub'.value v' t parent'))
        given.tail given'.tail := by
      cases h with
      | nil => exact .nil
      | cons _ htail => exact htail
    refine Run.leads_bind ?_ fun converted => ?_
    · cases h with
      | nil => exact Run.leads_refl _
      | cons hv _ => exact hv _
    · cases converted.or (a.2.default.map fun v => .literal v a.2.type) with
      | none => exact Run.leads_refl _
      | some o => exact Run.leads_andThen (ih hrest) fun os => Run.leads_refl _

theorem callArgs_leads (h : LeadingParts sub sub') (func : String) (parent : Option String)
    (args : Table FuncArg) (given : List Json) :
    (callArgs sub func parent args given).Leads (callArgs sub' func parent args given) :=
  callArgs_leads_of_given (List.forall₂_same.mpr fun v _ t => h.value v t parent) func args

theorem valueStep_leads (h : LeadingParts sub sub') (e : Json) (t : Target) (parent : Option String) :
    (c.valueStep sub e t parent).Leads (c.valueStep sub' e t parent) := by
  unfold valueStep
  split
  · exact h.value _ _ _
  split
  · exact Run.leads_refl _
  split
  · unfold convertCall
    split
    · exact Run.leads_refl _
    · exact Run.leads_andThen (callArgs_leads h _ _ _ _) fun os => Run.leads_refl _
  · exact Run.leads_refl _

theorem convertConjunction_leads {args args' : List Json} {parent parent' : Option String}
    (h : List.Forall₂ (fun a b => (sub.rule a false parent).Leads (sub'.rule b false parent')) args args')
    (conjunction : String) (negated : Bool) :
    (c.convertConjunction sub conjunction args negated parent).Leads
      (c.convertConjunction sub' conjunction args' negated parent') :=
  Run.leads_bind (Run.leads_filterMap h) fun _ => Run.leads_refl _

/-- Having clauses that are conjunctions end alike when their arguments do. -/
theorem convertHaving_leads_conjunction {having having' : Json} {op op' : Operation} {key path : String}
    (ho : having.operation? = some op) (ho' : having'.operation? = some op') (hn : op'.name = op.name)
    (hk : c.index.conjunction? op.name = some key)
    (h : List.Forall₂ (fun a b => (sub.rule a false (some path)).Leads (sub'.rule b false (some path)))
      op.args op'.args) (f : Field) :
    (c.convertHaving sub having path f).Leads (c.convertHaving sub' having' path f) := by
  simp only [convertHaving, ho, ho', hn, hk, Option.bind_some, Option.map_some]
  exact Run.leads_bind (Run.leads_filterMap h) fun _ => Run.leads_refl _

/-- Other having clauses end alike when they do in rule position. -/
theorem convertHaving_leads_rule {having having' : Json} {path : String}
    (hk : having.operation?.bind (fun op => c.index.conjunction? op.name) = none)
    (hk' : having'.operation?.bind (fun op => c.index.conjunction? op.name) = none)
    (h : (sub.rule having false (some path)).Leads (sub'.rule having' false (some path))) (f : Field) :
    (c.convertHaving sub having path f).Leads (c.convertHaving sub' having' path f) := by
  have hno : ∀ {j : Json}, j.operation?.bind (fun op => c.index.conjunction? op.name) = none →
      (j.operation?.bind fun op => (c.index.conjunction? op.name).map fun k => (k, op.args)) = none := by
    intro j hj
    cases ho : j.operation? with
    | none => rfl
    | some op => simp_all
  simp only [convertHaving, hno hk, hno hk']
  exact Run.leads_andThen h fun _ => Run.leads_refl _

theorem convertHaving_leads (h : LeadingParts sub sub') (having : Json) (path : String) (f : Field) :
    (c.convertHaving sub having path f).Leads (c.convertHaving sub' having path f) := by
  cases hk : having.operation?.bind fun op => c.index.conjunction? op.name with
  | none => exact convertHaving_leads_rule hk hk (h.rule _ _ _) f
  | some key =>
    obtain ⟨op, ho, hkey⟩ := Option.bind_eq_some_iff.mp hk
    exact convertHaving_leads_conjunction ho ho rfl hkey (List.forall₂_same.mpr fun a _ => h.rule _ _ _) f

/-- Rules on one field and operator end alike when the rule groups of their having clauses do. -/
theorem ruleNode_leads {r r' : ParsedRule} (hr : r' = { r with args := r'.args, having := r'.having })
    (hb : r.field.isGroup → (c.groupBody sub r).Leads (c.groupBody sub' r')) (op : String)
    (negated : Bool) (operands : List Operand) :
    (c.ruleNode sub r op negated operands).Leads (c.ruleNode sub' r' op negated operands) := by
  rw [hr] at hb ⊢
  unfold ruleNode
  by_cases hg : r.field.isGroup = true
  · simp only [hg, if_true]
    exact Run.leads_andThen (hb hg) fun g => Run.leads_refl _
  · simp only [hg]
    exact Run.leads_refl _

theorem groupBody_leads (h : LeadingParts sub sub') (r : ParsedRule) :
    (c.groupBody sub r).Leads (c.groupBody sub' r) := by
  unfold groupBody
  split
  · exact convertHaving_leads h _ _ _
  · exact Run.leads_refl _

/-- Rules on one field and operator end alike when their values do, each under its own parent,
and the rule groups of their having clauses. -/
theorem finishRule_leads_of_args {r r' : ParsedRule} {parent parent' : Option String}
    (hr : r' = { r with args := r'.args, having := r'.having })
    (hargs : ∀ t,
      List.Forall₂ (fun a a' => (sub.value a t parent).Leads (sub'.value a' t parent')) r.args r'.args)
    (hb : r.field.isGroup → (c.groupBody sub r).Leads (c.groupBody sub' r')) (negated : Bool) :
    (c.finishRule sub r negated parent).Leads (c.finishRule sub' r' negated parent') := by
  have hn := fun op negated operands => ruleNode_leads hr hb op negated operands
  rw [hr] at hargs hn ⊢
  exact Run.leads_andThen (Run.leads_collect (hargs _)) fun _ =>
    Run.leads_andThen (hn _ _ _) fun _ => Run.leads_refl _

/-- Rules that differ in their having clauses at most end alike when the rule groups of
these do. -/
theorem finishRule_leads (h : LeadingParts sub sub') {r r' : ParsedRule}
    (hr : r' = { r with having := r'.having })
    (hb : r.field.isGroup → (c.groupBody sub r).Leads (c.groupBody sub' r')) (negated : Bool)
    (parent : Option String) :
    (c.finishRule sub r negated parent).Leads (c.finishRule sub' r' negated parent) := by
  have hargs : r'.args = r.args := by rw [hr]
  refine finishRule_leads_of_args (by rw [hargs]; exact hr) (fun t => ?_) hb negated
  rw [hargs]
  exact List.forall₂_same.mpr fun a _ => h.value a t parent

theorem assembleRule_leads (h : LeadingParts sub sub') (r : ParsedRule) (negated : Bool)
    (parent : Option String) :
    (c.assembleRule sub r negated parent).Leads (c.assembleRule sub' r negated parent) := by
  rw [assembleRule_eq, assembleRule_eq]
  exact finishRule_leads h rfl (fun _ => groupBody_leads h _) _ _

theorem ruleStep_leads (h : LeadingParts sub sub') (e : Json) (negated : Bool) (parent : Option String) :
    (c.ruleStep sub e negated parent).Leads (c.ruleStep sub' e negated parent) := by
  unfold ruleStep
  split
  · exact Run.leads_refl _
  split
  · exact h.rule _ _ _
  split
  · exact convertConjunction_leads (List.forall₂_same.mpr fun a _ => h.rule _ _ _) _ _
  · unfold convertOp
    split
    · exact Run.leads_refl _
    · exact assembleRule_leads h _ _ _

variable (c) in
theorem leadingParts (n k : Nat) :
    LeadingParts ⟨c.ruleN n, c.valueN n⟩ ⟨c.ruleN (n + k), c.valueN (n + k)⟩ := by
  induction n with
  | zero => exact ⟨fun _ _ _ => Run.leads_stuck _, fun _ _ _ => Run.leads_stuck _⟩
  | succ n ih =>
    rw [Nat.succ_add]
    exact ⟨ruleStep_leads ih, valueStep_leads ih⟩

/-! ## Imports -/

/-- An import names what a run of the conversion ends with. -/
theorem exists_treeN_of_importTree {ι : Type} {ids : Nat → ι} {start : Nat} {e : Json} {o : Outcome ι}
    (h : c.importTree ids start e = some o) :
    ∃ d, c.treeN (c.limit e) e 0 = some d ∧
      o = ⟨d.value.map (Tree.rename fun n => ids (start + n)), d.problems, d.next⟩ := by
  obtain ⟨numbered, hn, rfl⟩ := Option.map_eq_some_iff.mp h
  obtain ⟨d, hd, rfl⟩ := Option.map_eq_some_iff.mp hn
  exact ⟨d, hd, rfl⟩

/-! ## Imports without problems -/

/-- The import ends with a tree, and nothing went wrong. -/
def ImportsAs {ι : Type} (c : Converter) (ids : Nat → ι) (start : Nat) (e : Json) (t : Tree ι) : Prop :=
  ∃ o, c.importTree ids start e = some o ∧ o.problems = [] ∧ o.tree = some t

theorem importsAs_of_isClean {ι : Type} {ids : Nat → ι} {start : Nat} {e : Json} {o : Outcome ι}
    (ho : c.importTree ids start e = some o) (hclean : o.isClean = true) {t : Tree ι} (ht : o.tree = some t) :
    c.ImportsAs ids start e t :=
  ⟨o, ho, by simpa [Outcome.isClean] using hclean, ht⟩

theorem gives_of_importsAs {ι : Type} {ids : Nat → ι} {start : Nat} {e : Json} {t : Tree ι}
    (h : c.ImportsAs ids start e t) :
    ∃ t' next, (c.treeN (c.limit e) e).Gives 0 (some t') next ∧ t = t'.rename fun n => ids (start + n) := by
  obtain ⟨o, ho, hclean, ht⟩ := h
  obtain ⟨⟨value, next, problems⟩, hd, rfl⟩ := exists_treeN_of_importTree ho
  simp only at hclean ht
  subst hclean
  obtain ⟨t', rfl, rfl⟩ := Option.map_eq_some_iff.mp ht
  exact ⟨t', next, hd, rfl⟩

theorem exists_importsAs (p : Tree Nat → Bool) (e : Json)
    (h : (c.importTree (fun n => n) 1 e).any (fun o => o.isClean && o.tree.any p) = true) :
    ∃ t, c.ImportsAs (fun n => n) 1 e t ∧ p t = true := by
  obtain ⟨o, ho, h⟩ := (Option.any_eq_true _ _).mp h
  obtain ⟨hclean, h⟩ := (Bool.and_eq_true _ _).mp h
  obtain ⟨t, ht, h⟩ := (Option.any_eq_true _ _).mp h
  exact ⟨t, importsAs_of_isClean ho hclean ht, h⟩

theorem exists_importsAs_pair (p : Tree Nat → Tree Nat → Bool) (e e' : Json)
    (h : (c.importTree (fun n => n) 1 e).any (fun o => o.isClean && o.tree.any fun t =>
      (c.importTree (fun n => n) 1 e').any fun o' => o'.isClean && o'.tree.any (p t)) = true) :
    ∃ t t', c.ImportsAs (fun n => n) 1 e t ∧ c.ImportsAs (fun n => n) 1 e' t' ∧ p t t' = true := by
  obtain ⟨o, ho, h⟩ := (Option.any_eq_true _ _).mp h
  obtain ⟨hclean, h⟩ := (Bool.and_eq_true _ _).mp h
  obtain ⟨t, ht, h⟩ := (Option.any_eq_true _ _).mp h
  obtain ⟨o', ho', h⟩ := (Option.any_eq_true _ _).mp h
  obtain ⟨hclean', h⟩ := (Bool.and_eq_true _ _).mp h
  obtain ⟨t', ht', h⟩ := (Option.any_eq_true _ _).mp h
  exact ⟨t, t', importsAs_of_isClean ho hclean ht, importsAs_of_isClean ho' hclean' ht', h⟩

end Converter
end RuleTree
