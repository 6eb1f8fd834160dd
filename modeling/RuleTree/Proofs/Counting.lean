/-
  RuleTree.Proofs.Counting — no rule is lost but in parts that are passed over.

  The rules of a tree are its nodes with an operator. Moving nodes under rule groups,
  wrapping them and taking rule groups apart touches none of these, so what a conversion
  gives without a problem has the rules of the parts that were converted.
  - `ruleCount_reconcileFrom`: a conjunction has the rules of its children.
  - `ruleCount_rehome`: a having clause put on its collection has the rules it had.
  - `Accounts`: the rules of a node and those passed over are the rules of its expression;
    `accounts_ruleStep` shows it of one step, `accounts_ruleN` of all.

  Proved of imports without problems: `rules_accounted_for`. Where nothing is passed over
  the tree has all rules of the expression; `rules_left_out` has runs where it has not.
-/

import Mathlib
import RuleTree.Proofs.Cars
import RuleTree.Proofs.Parts
import RuleTree.Proofs.Placing

namespace RuleTree

/-! ## Rules of a tree -/

namespace Node

variable {ι κ : Type}

/-- The nodes with an operator among a node and its descendants. -/
def ruleCount (n : Node ι) : Nat := n.nodes.countP fun d => d.operator?.isSome

def ruleCountAll (ns : List (Node ι)) : Nat := (ns.map ruleCount).sum

theorem countP_nodesAll (ns : List (Node ι)) :
    ((nodesAll ns).countP fun d => d.operator?.isSome) = ruleCountAll ns := by
  induction ns with
  | nil => rfl
  | cons n rest ih =>
    rw [nodesAll, List.countP_append, ih]
    rfl

/-- A node counts itself and its children. -/
theorem ruleCount_eq (n : Node ι) : n.ruleCount = n.operator?.toList.length + ruleCountAll n.children := by
  have hnodes : n.nodes = n :: nodesAll n.children := by cases n <;> rfl
  rw [ruleCount, hnodes, List.countP_cons, countP_nodesAll, Nat.add_comm]
  cases n.operator? <;> rfl

theorem ruleCountAll_cons (n : Node ι) (rest : List (Node ι)) :
    ruleCountAll (n :: rest) = n.ruleCount + ruleCountAll rest := by
  simp [ruleCountAll]

theorem ruleCountAll_append (ns ms : List (Node ι)) :
    ruleCountAll (ns ++ ms) = ruleCountAll ns + ruleCountAll ms := by
  simp [ruleCountAll]

theorem ruleCountAll_singleton (n : Node ι) : ruleCountAll [n] = n.ruleCount := by
  simp [ruleCountAll]

theorem ruleCountAll_perm {ns ms : List (Node ι)} (h : ns.Perm ms) : ruleCountAll ns = ruleCountAll ms :=
  (h.map ruleCount).sum_nat

theorem ruleCount_rename (f : ι → κ) (n : Node ι) : (n.rename f).ruleCount = n.ruleCount := by
  rw [ruleCount, nodes_rename, List.countP_map, ruleCount]
  congr 1
  funext d
  simp

end Node

/-- The rules and the rule groups with an operator. -/
def Tree.ruleCount {ι : Type} (t : Tree ι) : Nat := t.root.ruleCount

namespace Item

variable {conjunction : String} {modeOf : String → Option GroupMode}

mutual

theorem ruleCount_toNode (home : Option String) : ∀ x : Item,
    (x.toNode conjunction modeOf).ruleCount =
      Node.ruleCountAll ((x.entries home).filterMap fun e => e.2.child?)
  | child n => by simp [toNode, entries, Entry.child?, Node.ruleCountAll_singleton]
  | made id path items => by
    rw [toNode, Node.ruleCount_eq, Node.children, ruleCountAll_toNodes (some path) items, entries]
    simp [Node.operator?, Entry.child?]

/-- The rule groups made count for nothing. -/
theorem ruleCountAll_toNodes (home : Option String) : ∀ xs : List Item,
    Node.ruleCountAll (toNodes conjunction modeOf xs) =
      Node.ruleCountAll ((entriesAll home xs).filterMap fun e => e.2.child?)
  | [] => rfl
  | x :: rest => by
    rw [toNodes, Node.ruleCountAll_cons, ruleCount_toNode home x, ruleCountAll_toNodes home rest, entriesAll,
      List.filterMap_append, Node.ruleCountAll_append]

end

end Item

namespace Converter

variable {c : Converter}

/-! ## Conjunctions and having clauses -/

theorem ruleCount_reconcileFrom (conjunction : String) (negated : Bool) (children : List (Node Nat)) (n : Nat) :
    (c.reconcileFrom conjunction negated children n).1.ruleCount = Node.ruleCountAll children ∧
      (c.reconcileFrom conjunction negated children n).1.operator? = none := by
  have hplaced := placed_foldl c (c.usedGroups children) (c.singleRoot? children) children (n + 1)
  have hbelow : Node.ruleCountAll (Item.toNodes conjunction c.modeOf
      (children.foldl (c.place (c.usedGroups children) (c.singleRoot? children)) ⟨[], n + 1⟩).items) =
        Node.ruleCountAll children := by
    rw [Item.ruleCountAll_toNodes none, Node.ruleCountAll_perm hplaced.children]
  unfold reconcileFrom
  simp only
  split
  · split <;> exact ⟨by simpa [Node.ruleCount_eq, Node.operator?, Node.children] using hbelow, rfl⟩
  · exact ⟨by simpa [Node.ruleCount_eq, Node.operator?, Node.children] using hbelow, rfl⟩

theorem ruleCount_wrapOn {path : String} {f : Field} {conjunction : Option String} {n : Node Nat} {g : RuleGroup}
    {k m : Nat} (h : (c.wrapOn path f conjunction n).Gives k g m) :
    Node.ruleCountAll g.children = n.ruleCount ∧ g.toNode.ruleCount = n.ruleCount ∧
      g.toNode.operator? = none := by
  obtain ⟨id, l, -, h⟩ := Run.gives_bind.mp h
  obtain ⟨rfl, -⟩ := Run.gives_pure.mp h
  have hchild := Node.ruleCountAll_singleton n
  exact ⟨hchild, by simpa [RuleGroup.toNode, Node.ruleCount_eq, Node.operator?, Node.children] using hchild, rfl⟩

theorem ruleCountAll_dissolve (path conjunction : String) (n : Node Nat) :
    Node.ruleCountAll (dissolve path conjunction n) = n.ruleCount := by
  unfold dissolve
  split
  · split
    · rename_i h
      simp only [Bool.and_eq_true, Option.isNone_iff_eq_none] at h
      simp [Node.ruleCount_eq, Node.operator?, Node.children, h.1.1.2]
    · exact Node.ruleCountAll_singleton _
  · exact Node.ruleCountAll_singleton _

theorem ruleCountAll_flatMap_dissolve (path conjunction : String) (ns : List (Node Nat)) :
    Node.ruleCountAll (ns.flatMap (dissolve path conjunction)) = Node.ruleCountAll ns := by
  induction ns with
  | nil => rfl
  | cons n rest ih =>
    rw [List.flatMap_cons, Node.ruleCountAll_append, ruleCountAll_dissolve, ih, Node.ruleCountAll_cons]

/-- A node without an operator keeps its rules when it is put on a collection. -/
theorem ruleCount_rehome {path : String} {f : Field} {n : Node Nat} {g : RuleGroup} {k m : Nat}
    (hop : n.operator? = none) (h : (c.rehome path f n).Gives k g m) :
    Node.ruleCountAll g.children = n.ruleCount := by
  cases n with
  | rule id p => cases hop
  | group id p cs =>
    obtain ⟨rfl, -⟩ := Run.gives_pure.mp h
    rw [ruleCountAll_flatMap_dissolve, Node.ruleCount_eq]
    simp [Node.operator?, Node.children]
  | ruleGroup id p cs =>
    unfold rehome at h
    simp only at h
    split at h
    · obtain ⟨rfl, -⟩ := Run.gives_pure.mp h
      rw [Node.ruleCount_eq, hop]
      simp [Node.children]
    · exact (ruleCount_wrapOn h).1

theorem ruleCount_wrap {negated : Bool} {n : Node Nat} {t : Tree Nat} {k m : Nat}
    (h : (c.wrap negated n).Gives k t m) : t.root.ruleCount = n.ruleCount := by
  obtain ⟨id, l, -, h⟩ := Run.gives_bind.mp h
  obtain ⟨rfl, -⟩ := Run.gives_pure.mp h
  simp [Tree.root, Node.ruleCount_eq, Node.operator?, Node.children, Node.ruleCountAll_singleton]

/-! ## Conversions -/

/-- The rules of a node that an expression becomes, and those passed over, are all rules of
the expression. -/
def Accounts (c : Converter) (sub : SubRuns) : Prop :=
  ∀ e negated parent k n m, (sub.rule e negated parent).Gives k (some n) m →
    n.ruleCount + c.passedOver parent e = c.ruleCount parent e

variable {sub : SubRuns} {parent : Option String}

/-- Of a list of expressions that all become nodes the rules are accounted for together. -/
theorem accounts_filterMap (h : c.Accounts sub) (hl : LoudParts sub) {es : List Json} {ns : List (Node Nat)}
    {k m : Nat} (hg : (Run.filterMap (fun a => sub.rule a false parent) es).Gives k ns m) :
    Node.ruleCountAll ns + c.passedOverAll parent es = c.ruleCountAll parent es := by
  have hpairs := Run.gives_filterMap (fun a => hl.rule a false parent) hg
  clear hg
  induction hpairs with
  | nil => rfl
  | cons hn _ ih =>
    obtain ⟨i, j, hn⟩ := hn
    have hhead := h _ _ _ _ _ _ hn
    simp only [Node.ruleCountAll, passedOverAll, ruleCountAll, List.map_cons, List.sum_cons] at ih ⊢
    omega

theorem accounts_conjunction (h : c.Accounts sub) (hl : LoudParts sub) {conjunction : String} {args : List Json}
    {negated : Bool} {n : Node Nat} {k m : Nat}
    (hg : (c.convertConjunction sub conjunction args negated parent).Gives k (some n) m) :
    n.ruleCount + c.passedOverAll parent args = c.ruleCountAll parent args := by
  obtain ⟨children, l, hch, hg⟩ := Run.gives_bind.mp hg
  obtain ⟨n', l', hn, hg⟩ := Run.gives_bind.mp hg
  obtain ⟨he, -⟩ := Run.gives_pure.mp hg
  cases he
  have hnode : (c.reconcileFrom conjunction negated children l).1 = n := by rw [Run.gives_drawing.mp hn]
  rw [← hnode, (ruleCount_reconcileFrom conjunction negated children l).1]
  exact accounts_filterMap h hl hch

/-- A having clause is converted as the conjunction it is, or alone. -/
theorem accounts_convertHaving (h : c.Accounts sub) (hl : LoudParts sub) {having : Json} {path : String} {f : Field}
    {g : RuleGroup} {k m : Nat} (hg : (c.convertHaving sub having path f).Gives k (some g) m) :
    Node.ruleCountAll g.children + c.passedOverAll (some path) (c.conjuncts having) =
      c.ruleCountAll (some path) (c.conjuncts having) := by
  unfold convertHaving at hg
  split at hg
  · rename_i conjunction args hconj
    have hparts : c.conjuncts having = args := by
      obtain ⟨op, hop, hkey, rfl⟩ := exists_conjunction_of_having hconj
      simp only [conjuncts, hop, hkey, Option.bind_some, Option.map_some]
    obtain ⟨children, l, hch, hg⟩ := Run.gives_bind.mp hg
    obtain ⟨n, l', hn, hg⟩ := Run.gives_bind.mp hg
    obtain ⟨g', l'', hre, hg⟩ := Run.gives_bind.mp hg
    obtain ⟨he, -⟩ := Run.gives_pure.mp hg
    cases he
    have hnode : (c.reconcileFrom conjunction false children l).1 = n := by rw [Run.gives_drawing.mp hn]
    obtain ⟨hcount, hop⟩ := ruleCount_reconcileFrom (c := c) conjunction false children l
    rw [hnode] at hcount hop
    rw [ruleCount_rehome hop hre, hcount, hparts]
    exact accounts_filterMap h hl hch
  · rename_i hconj
    have hparts : c.conjuncts having = [having] := by
      cases hop : having.operation? with
      | none => simp only [conjuncts, hop, Option.bind_none]
      | some op =>
        cases hkey : c.index.conjunction? op.name with
        | none => simp only [conjuncts, hop, hkey, Option.bind_some, Option.map_none]
        | some key => simp [hop, hkey] at hconj
    obtain ⟨n, l, hn, hg⟩ := Run.gives_andThen.mp hg
    obtain ⟨w, l', hw, hg⟩ := Run.gives_bind.mp hg
    obtain ⟨g', l'', hre, hg⟩ := Run.gives_bind.mp hg
    obtain ⟨he, -⟩ := Run.gives_pure.mp hg
    cases he
    obtain ⟨-, hcount, hop⟩ := ruleCount_wrapOn hw
    have hhaving := h having false (some path) _ _ _ hn
    rw [ruleCount_rehome hop hre, hcount, hparts]
    simpa [passedOverAll, ruleCountAll] using hhaving

/-- A rule has one rule of its own, and on a collection those of its having clause. -/
theorem ruleCount_ruleNode {r : ParsedRule} {op : String} {negated : Bool} {operands : List Operand}
    {n : Node Nat} {k m : Nat} (hg : (c.ruleNode sub r op negated operands).Gives k (some n) m) :
    r.field.isGroup = false ∧ n.ruleCount = 1 ∨
      r.field.isGroup = true ∧ ∃ g l, (c.groupBody sub r).Gives k (some g) l ∧
        n.ruleCount = 1 + Node.ruleCountAll g.children := by
  unfold ruleNode at hg
  split at hg
  · rename_i hgroup
    obtain ⟨g, l, hbody, hg⟩ := Run.gives_andThen.mp hg
    obtain ⟨he, -⟩ := Run.gives_pure.mp hg
    cases he
    refine .inr ⟨hgroup, g, l, hbody, ?_⟩
    rw [Node.ruleCount_eq]
    rfl
  · rename_i hgroup
    obtain ⟨id, l, -, hg⟩ := Run.gives_bind.mp hg
    obtain ⟨he, -⟩ := Run.gives_pure.mp hg
    cases he
    exact .inl ⟨by simpa using hgroup, rfl⟩

/-- The wrapping of a negation adds no rule. -/
theorem ruleCount_finishRule {r : ParsedRule} {negated : Bool} {n : Node Nat} {k m : Nat}
    (hg : (c.finishRule sub r negated parent).Gives k (some n) m) :
    r.field.isGroup = false ∧ n.ruleCount = 1 ∨
      r.field.isGroup = true ∧ ∃ g l l', (c.groupBody sub r).Gives l (some g) l' ∧
        n.ruleCount = 1 + Node.ruleCountAll g.children := by
  obtain ⟨operands, l, -, hg⟩ := Run.gives_andThen.mp hg
  obtain ⟨n', l', hn, hg⟩ := Run.gives_andThen.mp hg
  have hcount : n.ruleCount = n'.ruleCount := by
    split at hg
    · obtain ⟨t, l'', ht, hg⟩ := Run.gives_bind.mp hg
      obtain ⟨he, -⟩ := Run.gives_pure.mp hg
      cases he
      exact ruleCount_wrap ht
    · obtain ⟨he, -⟩ := Run.gives_pure.mp hg
      cases he
      rfl
  rw [hcount]
  rcases ruleCount_ruleNode hn with hplain | ⟨hgroup, g, i, hbody, hrules⟩
  · exact .inl hplain
  · exact .inr ⟨hgroup, g, l, i, hbody, hrules⟩

theorem accounts_groupBody (h : c.Accounts sub) (hl : LoudParts sub) {r : ParsedRule} {g : RuleGroup} {k m : Nat}
    (hg : (c.groupBody sub r).Gives k (some g) m) :
    Node.ruleCountAll g.children + c.passedOverAll (some r.path) (r.having.toList.flatMap c.conjuncts) =
      c.ruleCountAll (some r.path) (r.having.toList.flatMap c.conjuncts) := by
  unfold groupBody at hg
  split at hg
  · rename_i having hhaving
    simpa [hhaving] using accounts_convertHaving h hl hg
  · rename_i hhaving
    obtain ⟨id, l, -, hg⟩ := Run.gives_bind.mp hg
    obtain ⟨he, -⟩ := Run.gives_pure.mp hg
    cases he
    simp [hhaving, Node.ruleCountAll, passedOverAll, ruleCountAll]

/-! ## Parts that are kept -/

theorem rules_clauseParts (r : ParsedRule) (clauses : List Json) :
    (c.clauseParts r clauses).rules = 1 ∧ (c.clauseParts r clauses).parent = some r.path := by
  cases clauses with
  | nil => exact ⟨rfl, rfl⟩
  | cons clause rest =>
    unfold clauseParts
    simp only
    split <;> exact ⟨rfl, rfl⟩

/-- Off a collection no clause is kept. -/
theorem kept_of_not_isGroup {r : ParsedRule} (hplain : r.field.isGroup = false) (clauses : List Json) :
    (c.clauseParts r clauses).kept = [] := by
  cases clauses with
  | nil => rfl
  | cons clause rest =>
    unfold clauseParts
    simp only [hplain]

/-- On a collection the clause is kept that the rule is converted with. -/
theorem kept_of_isGroup {r : ParsedRule} {clauses : List Json} (hgroup : r.field.isGroup = true)
    (hr : r.having = clauses.head?) (negated : Bool) :
    (c.clauseParts r clauses).kept = (foldHaving r negated).1.having.toList.flatMap c.conjuncts := by
  cases clauses with
  | nil =>
    have hnone : r.having = none := hr
    rw [foldHaving_of_ne (by simp [hnone]), hnone]
    rfl
  | cons clause rest =>
    have hsome : r.having = some clause := hr
    unfold clauseParts
    simp only
    split
    · rename_i args _ hop
      rw [foldHaving_of_bang hgroup hsome hop]
    · rename_i hno
      rw [foldHaving_of_ne, hsome]
      · simp
      · intro hbang
        rw [hsome] at hbang
        obtain ⟨⟨name, args⟩, hop, hname⟩ := Option.map_eq_some_iff.mp hbang
        cases hname
        exact hno args hop
    · rename_i hplain
      rw [hgroup] at hplain
      cases hplain

/-- A rule without arguments is none. -/
theorem not_parseRule_of_nil {e : Json} {op : Operation} {r : ParsedRule} (hargs : op.args = []) :
    c.parseRule e (.ofOperation op) parent ≠ .ok r := by
  intro hr
  obtain ⟨reversed, htry⟩ := exists_tryParse hr
  obtain ⟨_, fieldExpr, _, _, _, -, hfield, -⟩ := tryParse_eq_ok.mp htry
  have hmem := mem_values_of_layout (.inl hfield)
  have hvalues : (RuleShape.ofOperation op).values = [] := by
    unfold RuleShape.ofOperation
    split
    · rename_i hcons
      rw [hargs] at hcons
      cases hcons
    · exact hargs
  rw [hvalues] at hmem
  cases hmem

/-! ## One step and all steps -/

theorem accounts_convertOp (h : c.Accounts sub) (hl : LoudParts sub) {e : Json} {op : Operation} {negated : Bool}
    {n : Node Nat} {k m : Nat} (hg : (c.convertOp sub e op negated parent).Gives k (some n) m) :
    ∃ r reversed, c.foundRule? (.ofOperation op) parent = some (r, reversed) ∧
      n.ruleCount + c.passedOverAll (some r.path) (c.clauseParts r (c.clauses (.ofOperation op) reversed)).kept =
        1 + c.ruleCountAll (some r.path) (c.clauseParts r (c.clauses (.ofOperation op) reversed)).kept := by
  unfold convertOp at hg
  split at hg
  · exact absurd hg Run.not_gives_fail
  · rename_i r hr
    obtain ⟨reversed, hfound⟩ := foundRule?_of_parseRule hr
    refine ⟨r, reversed, hfound, ?_⟩
    have hhaving := having_of_foundRule? hfound
    rw [assembleRule_eq] at hg
    have hfield : (foldHaving r negated).1.field = r.field := by rw [foldHaving_eq]
    have hpath : (foldHaving r negated).1.path = r.path := by rw [foldHaving_eq]
    rcases ruleCount_finishRule hg with ⟨hplain, hcount⟩ | ⟨hgroup, g, l, l', hbody, hcount⟩
    · rw [hfield] at hplain
      rw [kept_of_not_isGroup hplain, hcount]
      rfl
    · rw [hfield] at hgroup
      have hclause := accounts_groupBody h hl hbody
      rw [hpath, ← kept_of_isGroup hgroup hhaving negated] at hclause
      omega

/-- What one step converts is what the parts of the expression that are kept say. -/
theorem accounts_kept (h : c.Accounts sub) (hl : LoudParts sub) {e : Json} {negated : Bool} {n : Node Nat} {k m : Nat}
    (hg : (c.ruleStep sub e negated parent).Gives k (some n) m) :
    n.ruleCount + c.passedOverAll (c.parts parent e).parent (c.parts parent e).kept =
      (c.parts parent e).rules + c.ruleCountAll (c.parts parent e).parent (c.parts parent e).kept := by
  cases he : e.operation? with
  | none =>
    simp only [ruleStep, he] at hg
    exact absurd hg Run.not_gives_fail
  | some op =>
    by_cases hbang : (op.name == "!" && !c.isEmptinessTest op.args) = true
    · have hparts : c.parts parent e = ⟨0, parent, op.args.head?.toList, op.args.tail⟩ := by
        simp only [parts, he, hbang, if_true]
      rw [hparts]
      cases hargs : op.args with
      | cons inner rest =>
        have hnegated : c.negated? op = some inner := by
          rw [negated?, if_pos hbang, hargs]
          rfl
        rw [ruleStep_negation he hnegated] at hg
        have hinner := h inner (!negated) parent _ _ _ hg
        simpa [passedOverAll, ruleCountAll] using hinner
      | nil =>
        have hnegated : c.negated? op = none := by simp [negated?, hargs]
        cases hkey : c.index.conjunction? op.name with
        | some key =>
          rw [ruleStep_conjunction he hnegated hkey, hargs] at hg
          simpa [passedOverAll, ruleCountAll] using accounts_conjunction h hl hg
        | none =>
          rw [ruleStep_rule he hnegated hkey, convertOp] at hg
          split at hg
          · exact absurd hg Run.not_gives_fail
          · rename_i hr
            exact absurd hr (not_parseRule_of_nil hargs)
    · have hnegated : c.negated? op = none := by
        rw [negated?, if_neg hbang]
      cases hkey : c.index.conjunction? op.name with
      | some key =>
        have hparts : c.parts parent e = ⟨0, parent, op.args, []⟩ := by
          simp [parts, he, hbang, hkey]
        rw [ruleStep_conjunction he hnegated hkey] at hg
        simpa [hparts] using accounts_conjunction h hl hg
      | none =>
        rw [ruleStep_rule he hnegated hkey] at hg
        obtain ⟨r, reversed, hfound, hcount⟩ := accounts_convertOp h hl hg
        have hparts : c.parts parent e = c.clauseParts r (c.clauses (.ofOperation op) reversed) := by
          simp [parts, he, hbang, hkey, hfound]
        obtain ⟨hrules, hparent⟩ := rules_clauseParts (c := c) r (c.clauses (.ofOperation op) reversed)
        rw [hparts, hrules, hparent]
        exact hcount

theorem accounts_ruleStep (h : c.Accounts sub) (hl : LoudParts sub) {e : Json} {negated : Bool} {n : Node Nat}
    {k m : Nat} (hg : (c.ruleStep sub e negated parent).Gives k (some n) m) :
    n.ruleCount + c.passedOver parent e = c.ruleCount parent e := by
  have hkept := accounts_kept h hl hg
  rw [passedOver_eq, ruleCount_eq]
  omega

/-- What is converted without a problem has all rules but those passed over. -/
theorem accounts_ruleN (limit : Nat) : c.Accounts ⟨c.ruleN limit, c.valueN limit⟩ := by
  induction limit with
  | zero =>
    intro e negated parent k n m hg
    cases hg
  | succ limit ih => exact fun e negated parent k n m hg => accounts_ruleStep ih (loudParts c limit) hg

/-! ## Imports -/

/-- The rules of the tree of an import without problems and those passed over are the rules
of the expression. -/
theorem rules_accounted_for {ι : Type} {ids : Nat → ι} {start : Nat} {e : Json} {t : Tree ι}
    (h : c.ImportsAs ids start e t) : t.ruleCount + c.passedOver none e = c.ruleCount none e := by
  obtain ⟨t', next, hrun, rfl⟩ := gives_of_importsAs h
  unfold treeN at hrun
  split at hrun
  · obtain ⟨n, k, hn, hrun⟩ := Run.gives_andThen.mp hrun
    obtain ⟨t'', l, hroot, hrun⟩ := Run.gives_bind.mp hrun
    obtain ⟨hsome, -⟩ := Run.gives_pure.mp hrun
    cases hsome
    have hcount : t'.root.ruleCount = n.ruleCount := by
      cases n with
      | group id p cs =>
        obtain ⟨rfl, -⟩ := Run.gives_pure.mp hroot
        rfl
      | rule id p => exact ruleCount_wrap hroot
      | ruleGroup id p cs => exact ruleCount_wrap hroot
    have hrename : (t'.rename fun n => ids (start + n)).root = t'.root.rename fun n => ids (start + n) := rfl
    rw [Tree.ruleCount, hrename, Node.ruleCount_rename, hcount]
    exact accounts_ruleN (c.limit e) e false none 0 n k hn
  · obtain ⟨hsome, -⟩ := Run.gives_pure.mp hrun
    cases hsome

/-- Red with a new car of a vendor: all four rules are in the tree. -/
theorem rules_of_cars_accounted_for :
    ∃ t, Cars.converter.ImportsAs (fun n => n) 1 Cars.redWithNewCar t ∧ t.ruleCount = 4 ∧
      t.ruleCount + Cars.converter.passedOver none Cars.redWithNewCar =
        Cars.converter.ruleCount none Cars.redWithNewCar := by
  obtain ⟨t, ht, hcount⟩ := exists_importsAs (c := Cars.converter) (fun t => t.ruleCount == 4) Cars.redWithNewCar
    (by decide +kernel)
  exact ⟨t, ht, beq_iff_eq.mp hcount, rules_accounted_for ht⟩

/-- The import has no problem, but the tree has not all rules of the expression. -/
def LeavesOut (c : Converter) (e : Json) : Prop :=
  ∃ t, c.ImportsAs (fun n => n) 1 e t ∧ t.ruleCount < c.ruleCount none e

theorem leavesOut_of_importTree {e : Json}
    (h : (c.importTree (fun n => n) 1 e).any (fun o => o.isClean &&
      o.tree.any fun t => t.ruleCount < c.ruleCount none e) = true) : c.LeavesOut e := by
  obtain ⟨t, ht, hless⟩ := exists_importsAs (fun t => t.ruleCount < c.ruleCount none e) e h
  exact ⟨t, ht, of_decide_eq_true hless⟩

/-- A clause on a field that is no collection, the second operand of a negation, and the
clause beside the predicate of a count: nothing is said of the rule that is not there. -/
theorem rules_left_out :
    Cars.converter.LeavesOut (Cars.call "some" [Cars.read "color", Cars.equals "vendor" "vw"]) ∧
      Cars.converter.LeavesOut (Cars.call "!" [Cars.equals "color" "red", Cars.equals "color" "blue"]) ∧
      Cars.converter.LeavesOut
        (Cars.call "some" [Cars.counted (Cars.equals "vendor" "vw"), Cars.equals "year" "1999"]) := by
  refine ⟨?_, ?_, ?_⟩
  · exact leavesOut_of_importTree (by decide +kernel)
  · exact leavesOut_of_importTree (by decide +kernel)
  · exact leavesOut_of_importTree (by decide +kernel)

end Converter
end RuleTree
