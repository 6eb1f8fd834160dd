/-
  RuleTree.Proofs.Backing — what a tree refers to is declared.

  A tree names conjunctions, operators, fields and functions. Of a schema that declares what
  it refers to itself (`Schema.Closed`) every tree is `Backed`: its keys are declared and its
  paths lead to fields.
  - `mem_keys_of_conjunction?`, `mem_keys_of_operatorKeys`: the index finds declared keys only.
  - `named_of_mem_chainOf`: the rule groups on the way to a collection are made without
    looking at their fields; these are there because the collection's is, whose names
    start with theirs.
  - `backs_reconcileFrom`, `backs_ruleNode`: so a conjunction keeps its children backed, and
    so does a rule.
  - `backsParts`: whatever is converted is backed.

  Proved of whole imports: `backed_of_import`.
-/

import RuleTree.Proofs.Rooting

namespace RuleTree

open Path

/-! ## Schemas that declare what they refer to -/

/-- Defaults and inverses are declared, and no field is named like a longer path. -/
structure Schema.Closed (schema : Schema) (s : Char) : Prop where
  conjunctions : schema.conjunctions ≠ []
  defaultConjunction : ∀ k ∈ schema.settings.defaultConjunction, k ∈ schema.conjunctions.keys
  groupConjunction : ∀ k ∈ schema.settings.defaultGroupConjunction, k ∈ schema.conjunctions.keys
  fieldConjunction : ∀ path f, schema.resolve path = some f → ∀ k ∈ f.defaultConjunction,
    k ∈ schema.conjunctions.keys
  inverse : ∀ key op, (key, op) ∈ schema.operators → ∀ inv ∈ op.inverse, inv ∈ schema.operators.keys
  separator : schema.settings.separator = String.singleton s
  names : schema.UncutNames s

namespace Schema

variable {schema : Schema} {s : Char}

theorem defaultConjunction_mem (h : schema.Closed s) : schema.defaultConjunction ∈ schema.conjunctions.keys := by
  unfold defaultConjunction defaultConjunction?
  cases hd : schema.settings.defaultConjunction with
  | some k => exact h.defaultConjunction k hd
  | none =>
    cases hc : schema.conjunctions with
    | nil => exact absurd hc h.conjunctions
    | cons p rest => exact List.mem_cons_self

theorem groupConjunction_mem (h : schema.Closed s) {path : String} {f : Field} (hf : schema.resolve path = some f) :
    schema.groupConjunction (some f) ∈ schema.conjunctions.keys := by
  unfold groupConjunction groupConjunction?
  cases hk : f.defaultConjunction with
  | some k => simpa [hk] using h.fieldConjunction path f hf k hk
  | none =>
    cases hg : schema.settings.defaultGroupConjunction with
    | some k => simpa [hk] using h.groupConjunction k hg
    | none => simpa [hk, defaultConjunction] using defaultConjunction_mem h

end Schema

/-! ## Keys the index finds -/

namespace Index

variable {schema : Schema} {key : String}

theorem mem_keys_of_conjunction? {name : String} (h : (ofSchema schema).conjunction? name = some key) :
    key ∈ schema.conjunctions.keys := by
  have hm := Table.mem_of_mem_ofPairs (Table.mem_of_get? h)
  obtain ⟨p, hp, he⟩ := List.mem_map.mp hm
  have hkey : p.1 = key := congrArg Prod.snd he
  exact hkey ▸ List.mem_map_of_mem hp

/-- Where each step puts its own key in a group or none, a group has what it had and keys of
the entries gone through. -/
theorem mem_find_foldl {σ α : Type} [DecidableEq σ] {sig : σ} {f : Groups σ → String × α → Groups σ}
    (hf : ∀ g p, key ∈ Groups.find (f g p) sig → key ∈ g.find sig ∨ key = p.1) (todo : Table α)
    (g : Groups σ) (h : key ∈ Groups.find (todo.foldl f g) sig) :
    key ∈ g.find sig ∨ key ∈ todo.keys := by
  induction todo generalizing g with
  | nil => exact .inl h
  | cons p rest ih =>
    rcases ih (f g p) h with h | h
    · rcases hf g p h with h | rfl
      · exact .inl h
      · exact .inr List.mem_cons_self
    · exact .inr (List.mem_cons_of_mem p.1 h)

theorem mem_keys_of_operatorKeys {sig : OpSignature} (h : key ∈ (ofSchema schema).operatorKeys sig) :
    key ∈ schema.operators.keys := by
  refine (mem_find_foldl ?_ schema.operators [] h).resolve_left List.not_mem_nil
  rintro g ⟨k, op⟩ h
  cases hs : op.signature? with
  | none => exact .inl (by simpa [hs] using h)
  | some sig' =>
    simp only [hs, Groups.find_add] at h
    split at h
    · exact (List.mem_append.mp h).imp_right List.mem_singleton.mp
    · exact .inl h

end Index

/-! ## Backed values and nodes -/

/-- Every field of a value is resolved and every function is declared, with the type and the
arguments the value has. -/
inductive Operand.Backed (schema : Schema) : Operand → Prop where
  | literal {v : Json} {type : Option String} {async : Option (List Json)} :
      Backed schema (.mk (.literal v) type async)
  | date {i : Instant} {type : Option String} {async : Option (List Json)} : Backed schema (.mk (.date i) type async)
  | field {path : String} {f : Field} : schema.resolve path = some f → Backed schema (.field path f.type)
  | call {key : String} {f : Func} {args : List (String × Operand)} : (key, f) ∈ schema.funcs →
      args.map Prod.fst = f.args.keys → (∀ a ∈ args, Backed schema a.2) → Backed schema (.call key args f.returnType)

structure RuleProps.Backed (schema : Schema) (p : RuleProps) : Prop where
  operator : p.operator ∈ schema.operators.keys
  field : ∃ f, schema.resolve p.field = some f ∧ f.isGroup = false
  args : ∀ o ∈ p.args, o.Backed schema

structure RuleGroupProps.Backed (schema : Schema) (p : RuleGroupProps) : Prop where
  conjunction : p.conjunction ∈ schema.conjunctions.keys
  field : ∃ f, schema.resolve p.field = some f ∧ p.mode = f.mode ∧ (p.operator ≠ none → f.isGroup = true)
  operator : ∀ op ∈ p.operator, op ∈ schema.operators.keys
  /-- Only a collection compared as a whole has values. -/
  values : p.args ≠ [] → p.operator ≠ none ∧ p.mode = some .array
  args : ∀ o ∈ p.args, o.Backed schema

/-- A rule group without an operator is backed when its field is there. -/
theorem RuleGroupProps.backed_of_none {schema : Schema} {p : RuleGroupProps} {f : Field}
    (hk : p.conjunction ∈ schema.conjunctions.keys) (hf : schema.resolve p.field = some f) (hmode : p.mode = f.mode)
    (hop : p.operator = none) (hargs : p.args = []) : p.Backed schema where
  conjunction := hk
  field := ⟨f, hf, hmode, fun h => absurd hop h⟩
  operator := by simp [hop]
  values := by simp [hargs]
  args := by simp [hargs]

namespace Node

variable {ι : Type} {schema : Schema}

/-- What the node refers to itself is declared. -/
def Backed (schema : Schema) : Node ι → Prop
  | group _ p _ => p.conjunction ∈ schema.conjunctions.keys
  | rule _ p => p.Backed schema
  | ruleGroup _ p _ => p.Backed schema

theorem backed_rename {κ : Type} (f : ι → κ) {n : Node ι} (h : n.Backed schema) : (n.rename f).Backed schema := by
  cases n <;> exact h

end Node

namespace Converter

variable {c : Converter} {s : Char}

/-- The collaborators are the schema's own, and the schema is closed. -/
structure Closed (c : Converter) (s : Char) : Prop where
  fields : c.fields = c.schema.resolver
  index : c.index = Index.ofSchema c.schema
  schema : c.schema.Closed s

/-- The node and its descendants are backed and their paths are canonical. -/
def Backs (c : Converter) (s : Char) (n : Node Nat) : Prop :=
  ∀ d ∈ n.nodes, d.Backed c.schema ∧ ∀ p ∈ d.field?, Canonical s p

theorem backs_of_children {n : Node Nat} (hown : n.Backed c.schema) (hpath : ∀ p ∈ n.field?, Canonical s p)
    (h : ∀ m ∈ n.children, c.Backs s m) : c.Backs s n := by
  intro d hd
  rcases Node.mem_nodes.mp hd with rfl | hd
  · exact ⟨hown, hpath⟩
  · obtain ⟨m, hm, hd⟩ := Node.mem_nodesAll.mp hd
    exact h m hm d hd

theorem backs_children {n : Node Nat} (h : c.Backs s n) : ∀ m ∈ n.children, c.Backs s m :=
  fun m hm d hd => h d (Node.mem_nodes.mpr (.inr (Node.mem_nodesAll.mpr ⟨m, hm, hd⟩)))

/-! ## The paths of rule groups -/

/-- A path of names that leads to a field. -/
structure Named (c : Converter) (s : Char) (p : String) : Prop where
  spells : ∃ xs, Spells s xs p
  resolves : ∃ f, c.schema.resolve p = some f

theorem canonical_composePath (hc : c.Closed s) (parent : Option String) (p : String) :
    Canonical s (c.composePath parent p) := by
  cases parent with
  | none =>
    simp only [composePath, hc.fields]
    exact Schema.canonical_normalize hc.schema.separator hc.schema.names _
  | some q =>
    simp only [composePath, hc.fields]
    exact Schema.canonical_normalize hc.schema.separator hc.schema.names _

section Reconcile

variable {children : List (Node Nat)}

theorem named_of_mem_usedGroups (hc : c.Closed s) (hch : ∀ n ∈ children, c.Backs s n) {home : String}
    (h : home ∈ c.usedGroups children) : c.Named s home := by
  obtain ⟨n, hn, hcol⟩ := mem_usedGroups.mp h
  unfold collection? at hcol
  split at hcol
  · rename_i p hp
    split at hcol
    · rename_i hgroup
      cases hcol
      obtain ⟨q, hq, hparent⟩ := Option.bind_eq_some_iff.mp hp
      rw [separator, hc.schema.separator] at hparent
      obtain ⟨f, hf, -⟩ := (Option.any_eq_true _ _).mp hgroup
      rw [hc.fields] at hf
      refine ⟨?_, f, hf⟩
      rcases (hch n hn n (Node.self_mem_nodes n)).2 q hq with rfl | ⟨xs, hx⟩
      · simp [parent?, beforeLast?] at hparent
      · obtain ⟨ys, -, -, hy⟩ := parent?_spells hx hparent
        exact ⟨ys, hy⟩
    · cases hcol
  · cases hcol

/-- The paths down to a collection lead to fields as the collection's own does. -/
theorem named_of_mem_pathsTo (hc : c.Closed s) {home q : String} (hh : c.Named s home)
    (hq : q ∈ c.pathsTo home) : c.Named s q := by
  obtain ⟨⟨xs, hx⟩, f, hf⟩ := hh
  rw [pathsTo_eq hc.fields hc.schema.separator hx] at hq
  obtain ⟨ys, hpre, hy⟩ := (ancestors_spells hx).1 q hq
  exact ⟨⟨ys, hy⟩, Schema.exists_resolve_of_prefix hc.schema.separator hc.schema.names hx hf hy hpre⟩

theorem named_of_mem_chainOf (hc : c.Closed s) {used : List String} (hu : ∀ home ∈ used, c.Named s home)
    (root : Option String) (n : Node Nat) {q : String} (hq : q ∈ c.chainOf used root n) : c.Named s q := by
  unfold chainOf at hq
  split at hq
  · rename_i home hh
    have hmem : home ∈ used := by
      cases n with
      | rule id p => exact (List.mem_filter.mp (mem_of_longest? hh)).1
      | group => cases hh
      | ruleGroup => cases hh
    exact named_of_mem_pathsTo hc (hu home hmem) (List.mem_filter.mp hq).1
  · cases hq

/-- A rule group made for a conjunction on a path that leads to a field. -/
theorem backed_made (hc : c.Closed s) {conjunction : String} (hk : conjunction ∈ c.schema.conjunctions.keys)
    (negated : Bool) {p : String} (hp : c.Named s p) :
    RuleGroupProps.Backed c.schema { conjunction, negated, field := p, mode := c.modeOf p } := by
  obtain ⟨f, hf⟩ := hp.resolves
  have hmode : c.modeOf p = f.mode := by
    have hres : c.fields.resolve p = some f := by rw [hc.fields]; exact hf
    rw [modeOf, hres, Option.bind_some]
  exact RuleGroupProps.backed_of_none hk hf hmode rfl rfl

/-- A conjunction over backed children with a declared key is backed. -/
theorem backs_reconcileFrom (hc : c.Closed s) (hch : ∀ n ∈ children, c.Backs s n) {conjunction : String}
    (hk : conjunction ∈ c.schema.conjunctions.keys) (negated : Bool) (n : Nat) :
    c.Backs s (c.reconcileFrom conjunction negated children n).1 ∧
      (c.reconcileFrom conjunction negated children n).1.args = [] := by
  have hused : ∀ home ∈ c.usedGroups children, c.Named s home := fun _ h => named_of_mem_usedGroups hc hch h
  have hplaced := placed_foldl c (c.usedGroups children) (c.singleRoot? children) children (n + 1)
  have hbelow : ∀ m ∈ Item.toNodes conjunction c.modeOf (c.placedItems children (n + 1)), c.Backs s m := by
    intro m hm d hd
    rcases Item.mem_nodesAll_toNodes none _ (Node.mem_nodesAll.mpr ⟨m, hm, hd⟩) with
      ⟨home, child, hin, hd⟩ | ⟨home, id, p, cs, hin, rfl⟩
    · have hmem : child ∈ children := hplaced.children.mem_iff.mp (List.mem_filterMap.mpr ⟨_, hin, rfl⟩)
      exact hch child hmem d hd
    · obtain ⟨child, -, hlink⟩ := hplaced.made_link hin
      have hp := named_of_mem_chainOf hc hused (c.singleRoot? children) child (mem_of_mem_links hlink)
      refine ⟨backed_made hc hk false hp, fun q hq => ?_⟩
      cases hq
      exact .inr hp.spells
  unfold reconcileFrom
  simp only
  split
  · rename_i r hroot
    have hr := hused r (mem_of_singleRoot? hroot)
    split
    · refine ⟨backs_of_children (backed_made hc hk negated hr) (fun q hq => ?_) hbelow, rfl⟩
      cases hq
      exact .inr hr.spells
    · exact ⟨backs_of_children hk nofun hbelow, rfl⟩
  · exact ⟨backs_of_children hk nofun hbelow, rfl⟩

end Reconcile

/-! ## Having clauses -/

/-- A rule group whose conjunction and children may be taken over. -/
structure Lends (c : Converter) (s : Char) (g : RuleGroup) : Prop where
  conjunction : g.props.conjunction ∈ c.schema.conjunctions.keys
  args : g.props.args = []
  children : ∀ m ∈ g.children, c.Backs s m

variable {path : String} {f : Field}

theorem backs_wrapOn (hc : c.Closed s) (hp : Canonical s path) (hf : c.schema.resolve path = some f)
    {conjunction : Option String} (hk : ∀ k ∈ conjunction, k ∈ c.schema.conjunctions.keys) {n : Node Nat}
    (h : c.Backs s n) :
    Run.Always (fun g => c.Backs s g.toNode ∧ c.Lends s g) (c.wrapOn path f conjunction n) := by
  refine Run.always_bind Run.always_draw fun id _ => Run.always_pure ?_
  have hconj : conjunction.getD (c.schema.groupConjunction (some f)) ∈ c.schema.conjunctions.keys := by
    cases conjunction with
    | some k => exact hk k rfl
    | none => exact Schema.groupConjunction_mem hc.schema hf
  have hchildren : ∀ m ∈ [n], c.Backs s m := by simpa using h
  refine ⟨backs_of_children ?_ (fun q hq => ?_) hchildren, hconj, rfl, hchildren⟩
  · exact RuleGroupProps.backed_of_none hconj hf rfl rfl rfl
  · cases hq
    exact hp

theorem backs_dissolve {conjunction : String} {n : Node Nat} (h : c.Backs s n) :
    ∀ m ∈ dissolve path conjunction n, c.Backs s m := by
  unfold dissolve
  split
  · split
    · exact backs_children h
    · simpa using h
  · simpa using h

theorem lends_rehome (hc : c.Closed s) (hp : Canonical s path) (hf : c.schema.resolve path = some f)
    {n : Node Nat} (h : c.Backs s n) (hargs : n.args = []) :
    Run.Always (c.Lends s) (c.rehome path f n) := by
  have hwrap : Run.Always (c.Lends s) (c.wrapOn path f none n) :=
    Run.always_mono (fun _ hg => hg.2) (backs_wrapOn hc hp hf (by simp) h)
  have hown := (h n (Node.self_mem_nodes n)).1
  cases n with
  | rule => exact hwrap
  | group id p cs =>
    refine Run.always_pure ⟨hown, rfl, fun m hm => ?_⟩
    obtain ⟨m', hm', hm⟩ := List.mem_flatMap.mp hm
    exact backs_dissolve (backs_children h m' hm') m hm
  | ruleGroup id p cs =>
    unfold rehome
    simp only
    split
    · exact Run.always_pure ⟨hown.conjunction, hargs, backs_children h⟩
    · exact hwrap

/-! ## Conversions -/

/-- The conversions of the parts give backed nodes and backed values. -/
structure BacksParts (c : Converter) (s : Char) (sub : SubRuns) : Prop where
  rule : ∀ e negated parent, Run.Always (∀ n ∈ ·, c.Backs s n) (sub.rule e negated parent)
  value : ∀ e t parent, Run.Always (∀ o ∈ ·, o.Backed c.schema) (sub.value e t parent)

variable {sub : SubRuns} {parent : Option String}

theorem mem_keys_of_conjunction? (hc : c.Closed s) {name key : String} (h : c.index.conjunction? name = some key) :
    key ∈ c.schema.conjunctions.keys := by
  rw [hc.index] at h
  exact Index.mem_keys_of_conjunction? h

theorem backs_filterMap (h : c.BacksParts s sub) (args : List Json) (parent : Option String) :
    Run.Always (∀ n ∈ ·, c.Backs s n) (Run.filterMap (fun a => sub.rule a false parent) args) :=
  Run.always_filterMap fun a _ => h.rule a false parent

theorem backs_convertConjunction (hc : c.Closed s) (h : c.BacksParts s sub) {conjunction : String}
    (hk : conjunction ∈ c.schema.conjunctions.keys) (args : List Json) (negated : Bool) :
    Run.Always (∀ n ∈ ·, c.Backs s n) (c.convertConjunction sub conjunction args negated parent) := by
  refine Run.always_bind (backs_filterMap h args parent) fun children hch => ?_
  refine Run.always_bind (P := c.Backs s) (Run.always_drawing fun n => ?_) fun n hn => ?_
  · exact (backs_reconcileFrom hc hch hk negated n).1
  · exact Run.always_pure (by simpa using hn)

theorem lends_convertHaving (hc : c.Closed s) (h : c.BacksParts s sub) (hp : Canonical s path)
    (hf : c.schema.resolve path = some f) (having : Json) :
    Run.Always (∀ g ∈ ·, c.Lends s g) (c.convertHaving sub having path f) := by
  have hgive : ∀ {n : Node Nat}, c.Backs s n → n.args = [] →
      Run.Always (∀ g ∈ ·, c.Lends s g) ((c.rehome path f n).bind fun g => Run.pure (some g)) := by
    intro n hn hargs
    exact Run.always_bind (lends_rehome hc hp hf hn hargs) fun g hg => Run.always_pure (by simpa using hg)
  unfold convertHaving
  split
  · rename_i conjunction args hconj
    obtain ⟨op, -, hkey, rfl⟩ := exists_conjunction_of_having hconj
    refine Run.always_bind (backs_filterMap h _ _) fun children hch => ?_
    refine Run.always_bind (P := fun n => c.Backs s n ∧ n.args = []) (Run.always_drawing fun n => ?_) fun n hn => ?_
    · exact backs_reconcileFrom hc hch (mem_keys_of_conjunction? hc hkey) false n
    · exact hgive hn.1 hn.2
  · refine Run.always_andThen (h.rule having false (some path)) (by simp) fun n hn => ?_
    refine Run.always_bind (backs_wrapOn hc hp hf (fun k hk => mem_keys_of_conjunction? hc hk) hn) fun g hg => ?_
    exact hgive hg.1 hg.2.args

/-! ## Rules -/

/-- A rule that was found, with an operator to use: what its node refers to is declared. -/
structure Grounded (c : Converter) (s : Char) (r : ParsedRule) (op : String) : Prop where
  path : Canonical s r.path
  field : c.schema.resolve r.path = some r.field
  op : op ∈ c.schema.operators.keys

theorem grounded_of_parseRule (hc : c.Closed s) {e : Json} {shape : RuleShape} {r : ParsedRule}
    (h : c.parseRule e shape parent = .ok r) : c.Grounded s r r.op := by
  have hfield := resolve_of_parseRule h
  rw [hc.fields] at hfield
  obtain ⟨reversed, h⟩ := exists_tryParse h
  obtain ⟨_, _, operand, _, op, -, -, -, -, -, hop, rfl⟩ := tryParse_eq_ok.mp h
  have hkey := chooseOp_mem hop
  rw [hc.index] at hkey
  exact ⟨canonical_composePath hc parent operand.path, hfield, Index.mem_keys_of_operatorKeys hkey⟩

/-- The operator that takes a negation up is declared too. -/
theorem settleNegation_mem (hc : c.Closed s) (f : Field) {op : String} (hop : op ∈ c.schema.operators.keys)
    (negated : Bool) : (c.settleNegation f op negated).1 ∈ c.schema.operators.keys := by
  unfold settleNegation
  split
  · split
    · rename_i inv hinv
      obtain ⟨o, ho, hinv⟩ := Option.bind_eq_some_iff.mp hinv
      exact hc.schema.inverse op o (Table.mem_of_get? ho) inv hinv
    · exact hop
  · exact hop

variable {r : ParsedRule} {op : String}

theorem lends_groupBody (hc : c.Closed s) (h : c.BacksParts s sub) (hr : c.Grounded s r op) :
    Run.Always (∀ g ∈ ·, c.Lends s g) (c.groupBody sub r) := by
  unfold groupBody
  split
  · exact lends_convertHaving hc h hr.path hr.field _
  · refine Run.always_bind Run.always_draw fun id _ => Run.always_pure ?_
    rintro g hg
    cases hg
    exact ⟨Schema.groupConjunction_mem hc.schema hr.field, rfl, by simp⟩

theorem backs_ruleNode (hc : c.Closed s) (h : c.BacksParts s sub) (hr : c.Grounded s r op) (negated : Bool)
    {operands : List Operand} (ho : ∀ o ∈ operands, o.Backed c.schema) :
    Run.Always (∀ n ∈ ·, c.Backs s n) (c.ruleNode sub r op negated operands) := by
  unfold ruleNode
  split
  · rename_i hgroup
    refine Run.always_andThen (lends_groupBody hc h hr) (by simp) fun g hg => Run.always_pure ?_
    rintro n hn
    cases hn
    refine backs_of_children ?_ (fun q hq => ?_) hg.children
    · refine ⟨hg.conjunction, ⟨r.field, hr.field, rfl, fun _ => hgroup⟩, ?_, ?_, ?_⟩
      · rintro op' hop'
        cases hop'
        exact hr.op
      · intro hargs
        -- the rule group had no values, so these are the rule's own
        by_cases hmode : r.field.mode = some .array
        · exact ⟨by simp, hmode⟩
        · simp [hmode, hg.args] at hargs
      · intro o hm
        by_cases hmode : r.field.mode = some .array
        · exact ho o (by simpa [hmode] using hm)
        · simp [hmode, hg.args] at hm
    · cases hq
      exact hr.path
  · rename_i hgroup
    refine Run.always_bind Run.always_draw fun id _ => Run.always_pure ?_
    rintro n hn
    cases hn
    refine backs_of_children ?_ (fun q hq => ?_) nofun
    · exact ⟨hr.op, ⟨r.field, hr.field, by simpa using hgroup⟩, ho⟩
    · cases hq
      exact hr.path

theorem backs_wrap (hc : c.Closed s) (negated : Bool) {n : Node Nat} (h : c.Backs s n) :
    Run.Always (fun t => c.Backs s t.root) (c.wrap negated n) := by
  refine Run.always_bind Run.always_draw fun id _ => Run.always_pure ?_
  have hchildren : ∀ m ∈ [n], c.Backs s m := by simpa using h
  exact backs_of_children (Schema.defaultConjunction_mem hc.schema) nofun hchildren

theorem backs_finishRule (hc : c.Closed s) (h : c.BacksParts s sub) (hr : c.Grounded s r r.op) (negated : Bool) :
    Run.Always (∀ n ∈ ·, c.Backs s n) (c.finishRule sub r negated parent) := by
  have hop := settleNegation_mem hc r.field hr.op negated
  refine Run.always_andThen (Run.always_collect (fun a => h.value a _ parent) _) (by simp) fun operands ho => ?_
  refine Run.always_andThen (backs_ruleNode hc h ⟨hr.path, hr.field, hop⟩ _ ho) (by simp) fun n hn => ?_
  split
  · exact Run.always_bind (backs_wrap hc true hn) fun t ht => Run.always_pure (by simpa using ht)
  · exact Run.always_pure (by simpa using hn)

theorem backs_ruleStep (hc : c.Closed s) (h : c.BacksParts s sub) (e : Json) (negated : Bool)
    (parent : Option String) : Run.Always (∀ n ∈ ·, c.Backs s n) (c.ruleStep sub e negated parent) := by
  unfold ruleStep
  split
  · exact Run.always_fail (by simp)
  split
  · exact h.rule _ _ _
  split
  · rename_i hk
    exact backs_convertConjunction hc h (mem_keys_of_conjunction? hc hk) _ _
  · unfold convertOp
    split
    · exact Run.always_fail (by simp)
    · rename_i r hr
      have hground := grounded_of_parseRule hc hr
      rw [assembleRule_eq, foldHaving_eq]
      refine backs_finishRule hc h ?_ _
      exact ⟨hground.path, hground.field, hground.op⟩

/-! ## Values -/

theorem backed_of_fieldValue? (hc : c.Closed s) {e : Json} {o : Operand}
    (h : c.fieldValue? e parent = some (.ok o)) : o.Backed c.schema := by
  unfold fieldValue? at h
  split at h
  · split at h
    · simp only at h
      split at h
      · rename_i f hf
        rw [hc.fields] at hf
        cases h
        exact .field hf
      · cases h
    · cases h
  · cases h

theorem literal_or_date_of_content {e : Json} {t : Target} {w : Widget} {x : Content}
    (h : c.content e t w = .ok x) : (∃ v, x = .literal v) ∨ ∃ i, x = .date i := by
  unfold content at h
  split at h
  · split at h <;> cases h <;> exact .inl ⟨_, rfl⟩
  split at h
  · split at h
    · split at h
      · cases h
        exact .inl ⟨_, rfl⟩
      · split at h
        · -- a date in the exact form is one, any other text stays what it is
          split at h
          · cases h
            exact .inr ⟨_, rfl⟩
          · cases h
            exact .inl ⟨_, rfl⟩
        · cases h
    · cases h
      exact .inl ⟨_, rfl⟩
  · cases h
    exact .inl ⟨_, rfl⟩

theorem literal_or_date_of_literalValue {e : Json} {t : Target} {o : Operand} (h : c.literalValue e t = .ok o) :
    (∃ v type async, o = .mk (.literal v) type async) ∨ ∃ i type async, o = .mk (.date i) type async := by
  unfold literalValue at h
  split at h
  · cases h
  rename_i w _
  split at h
  · cases h
  split at h
  · cases h
  rename_i x hx
  cases h
  rcases literal_or_date_of_content hx with ⟨v, rfl⟩ | ⟨i, rfl⟩
  · exact .inl ⟨v, _, _, rfl⟩
  · simp only [shown]
    cases w.valueFormat with
    | none => exact .inr ⟨i, _, _, rfl⟩
    | some p => exact .inl ⟨_, _, _, rfl⟩

theorem backed_of_literalValue {e : Json} {t : Target} {o : Operand} (h : c.literalValue e t = .ok o) :
    o.Backed c.schema := by
  rcases literal_or_date_of_literalValue h with ⟨v, type, async, rfl⟩ | ⟨i, type, async, rfl⟩
  · exact .literal
  · exact .date

/-- A function that is called is declared. -/
theorem mem_funcs_of_call? {e : Json} {type : String} {call : Call} (h : c.call? e type = some call) :
    (call.key, call.func) ∈ c.schema.funcs := by
  unfold call? at h
  split at h
  · cases h
  · split at h
    · rename_i key f hdeclared
      cases h
      obtain ⟨key', -, hget⟩ := List.exists_of_findSome?_eq_some hdeclared
      split at hget
      · rename_i f' hf
        split at hget
        · cases hget
          exact Table.mem_of_get? hf
        · cases hget
      · cases hget
    · obtain ⟨⟨key, f⟩, hmem, hhook⟩ := List.exists_of_findSome?_eq_some h
      simp only at hhook
      split at hhook
      · split at hhook
        · obtain ⟨args, -, rfl⟩ := Option.map_eq_some_iff.mp hhook
          exact hmem
        · cases hhook
      · cases hhook

/-- The arguments of a call are the declared ones. -/
theorem backed_callArgs (h : c.BacksParts s sub) (func : String) (args : Table FuncArg) (given : List Json) :
    Run.Always (∀ os ∈ ·, os.map Prod.fst = args.keys ∧ ∀ a ∈ os, a.2.Backed c.schema)
      (callArgs sub func parent args given) := by
  induction args generalizing given with
  | nil => exact Run.always_pure (by simp [Table.keys])
  | cons p rest ih =>
    obtain ⟨key, a⟩ := p
    refine Run.always_bind (P := (∀ o ∈ ·, o.Backed c.schema)) ?_ fun converted hconverted => ?_
    · cases given.head? with
      | none => exact Run.always_pure (by simp)
      | some v => exact h.value v _ parent
    · cases ho : converted.or (a.default.map fun v => .literal v a.type) with
      | none => exact Run.always_fail (by simp)
      | some o =>
        have hback : o.Backed c.schema := by
          rcases Option.or_eq_some_iff.mp ho with ho | ⟨-, ho⟩
          · exact hconverted o ho
          · obtain ⟨v, -, rfl⟩ := Option.map_eq_some_iff.mp ho
            exact .literal
        refine Run.always_andThen (ih given.tail) (by simp) fun os hos => Run.always_pure ?_
        rintro os' hos'
        cases hos'
        refine ⟨by simpa [Table.keys] using hos.1, fun a ha => ?_⟩
        rcases List.mem_cons.mp ha with rfl | ha
        · exact hback
        · exact hos.2 a ha

theorem backed_valueStep (hc : c.Closed s) (h : c.BacksParts s sub) (e : Json) (t : Target)
    (parent : Option String) : Run.Always (∀ o ∈ ·, o.Backed c.schema) (c.valueStep sub e t parent) := by
  unfold valueStep
  split
  · exact h.value _ _ _
  split
  · rename_i field hfield
    refine Run.always_ofExcept fun o ho => ?_
    rw [ho] at hfield
    exact backed_of_fieldValue? hc hfield
  split
  · rename_i call hcall
    unfold convertCall
    split
    · exact Run.always_fail (by simp)
    · refine Run.always_andThen (backed_callArgs h _ _ _) (by simp) fun os hos => Run.always_pure ?_
      rintro o ho
      cases ho
      exact .call (mem_funcs_of_call? hcall) hos.1 hos.2
  · exact Run.always_ofExcept fun o ho => backed_of_literalValue ho

/-- Whatever is converted is backed. -/
theorem backsParts (hc : c.Closed s) (limit : Nat) : c.BacksParts s ⟨c.ruleN limit, c.valueN limit⟩ := by
  induction limit with
  | zero => exact ⟨fun _ _ _ => Run.always_stuck, fun _ _ _ => Run.always_stuck⟩
  | succ limit ih => exact ⟨backs_ruleStep hc ih, backed_valueStep hc ih⟩

/-! ## Imports -/

theorem backs_treeN (hc : c.Closed s) (limit : Nat) (e : Json) :
    Run.Always (∀ t ∈ ·, c.Backs s t.root) (c.treeN limit e) := by
  unfold treeN
  split
  · refine Run.always_andThen ((backsParts hc limit).rule e false none) (by simp) fun n hn => ?_
    refine Run.always_bind (P := fun t => c.Backs s t.root) ?_ fun t ht => Run.always_pure (by simpa using ht)
    cases n with
    | group => exact Run.always_pure hn
    | rule => exact backs_wrap hc false hn
    | ruleGroup => exact backs_wrap hc false hn
  · exact Run.always_pure (by simp)

/-- What a tree refers to is declared, whatever the expression and the hooks. -/
theorem backed_of_import (hc : c.Closed s) {ι : Type} {ids : Nat → ι} {start : Nat} {e : Json} {o : Outcome ι}
    (ho : c.importTree ids start e = some o) {t : Tree ι} (ht : o.tree = some t) :
    ∀ n ∈ t.nodes, n.Backed c.schema := by
  obtain ⟨d, hd, rfl⟩ := exists_treeN_of_importTree ho
  obtain ⟨t', ht', rfl⟩ := Option.map_eq_some_iff.mp ht
  have hroot := backs_treeN hc _ e 0 d hd t' ht'
  intro n hmem
  have hnodes : n ∈ (t'.root.rename fun n => ids (start + n)).nodes := hmem
  rw [Node.nodes_rename] at hnodes
  obtain ⟨m, hm, rfl⟩ := List.mem_map.mp hnodes
  exact Node.backed_rename _ (hroot m hm).1

/-- The fields of the schema of cars name no conjunction. -/
theorem cars_fieldConjunction {path : String} {f : Field} (hf : Cars.schema.resolve path = some f) :
    f.defaultConjunction = none := by
  let user : Field := { type := "!struct", subfields := [("cars", Cars.cars)] }
  have hone : f = { type := "text" } ∨ f = Cars.cars ∨ f = user := by
    refine Schema.resolve_induction (P := fun f => f = { type := "text" } ∨ f = Cars.cars ∨ f = user) ?_ ?_ hf
    · intro name g hm
      simp only [Cars.schema, List.mem_cons, Prod.mk.injEq, List.not_mem_nil, or_false] at hm
      rcases hm with ⟨-, rfl⟩ | ⟨-, rfl⟩ | ⟨-, rfl⟩
      · exact .inl rfl
      · exact .inr (.inl rfl)
      · exact .inr (.inr rfl)
    · intro g hg name sub hm
      rcases hg with rfl | rfl | rfl
      · cases hm
      · simp only [Cars.cars, List.mem_cons, Prod.mk.injEq, List.not_mem_nil, or_false] at hm
        rcases hm with ⟨-, rfl⟩ | ⟨-, rfl⟩ <;> exact .inl rfl
      · simp only [user, List.mem_singleton, Prod.mk.injEq] at hm
        exact .inr (.inl hm.2)
  rcases hone with rfl | rfl | rfl <;> rfl

theorem cars_closed : Cars.converter.Closed '.' := by
  refine ⟨rfl, rfl, ?_⟩
  have hinverse : ∀ p ∈ Cars.schema.operators, ∀ inv ∈ p.2.inverse, inv ∈ Cars.schema.operators.keys := by
    decide
  refine ⟨by simp [Cars.converter, ofSchema, Cars.schema], fun k hk => ?_, fun k hk => ?_,
    fun path f hf k hk => ?_, fun key op hm => hinverse (key, op) hm, rfl, cars_plainFields.paths.uncutNames⟩
  · cases hk
  · cases hk
  · rw [cars_fieldConjunction hf] at hk
    cases hk

/-- A red user with a car of a vendor: rule groups for the user and the user's cars are made. -/
theorem backed_import_of_cars :
    Cars.converter.Closed '.' ∧ ∃ o t, Cars.converter.importTree (fun n => n) 1
        (Cars.call "and" [Cars.equals "color" "red", Cars.equals "user.cars.vendor" "vw"]) = some o ∧
      o.tree = some t ∧ (t.nodes.any fun n => n.kind == .ruleGroup && n.field? == some "user") = true ∧
      ∀ n ∈ t.nodes, n.Backed Cars.converter.schema := by
  obtain ⟨t, ⟨o, ho, -, ht⟩, hmade⟩ := exists_importsAs (c := Cars.converter)
    (fun t => t.nodes.any fun n => n.kind == .ruleGroup && n.field? == some "user")
    (Cars.call "and" [Cars.equals "color" "red", Cars.equals "user.cars.vendor" "vw"]) (by decide +kernel)
  exact ⟨cars_closed, o, t, ho, ht, hmade, backed_of_import cars_closed ho ht⟩

end Converter
end RuleTree
