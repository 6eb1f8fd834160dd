/-
  RuleTree.Proofs.Meaning — a converted expression says what the expression says.

  - The node of a conjunction says what its conjunction says of the children, wherever these
    are moved (`truth_reconcileFrom`), and a having clause says the same when it is put on
    its collection (`truth_rehome`).
  - A negation is spent on an inverse operator, on a negated group or on the flag of a
    collection, and each of them negates (`truth_finishRule_atom`, `truth_finishRule_each`).
  - So a node without problems is true of the records that its expression, with its
    negation, is true of (`truth_of_states`).
  - A having clause on its own becomes a rule group on its collection with nothing but a
    conjunction to it, and says what the clause says (`having_clause_keeps_meaning`).

  Proved of whole imports: `import_preserves_truth` for propositional expressions, and
  `sameShape_preserves_truth` for having clauses, a negation at the head of a having clause
  being one of the whole rule. Were it a part of the clause, or `all` over an `in` a rule
  with a having clause, trees of one shape could differ in truth
  (`literal_having_clauses_collide`).
-/

import RuleTree.Proofs.Cars
import RuleTree.Proofs.Placing
import RuleTree.Proofs.RuleShape

namespace RuleTree

variable {c : Converter} (M : Model c)

/-! ## The node of a conjunction -/

namespace Item

mutual

theorem eval_toNode (conjunction : String) (modeOf : String → Option GroupMode) (home : Option String)
    (r : M.Record) : ∀ x : Item,
      (x.toNode conjunction modeOf).truth M r =
        (M.connective conjunction).eval (((x.entries home).filterMap fun e => e.2.child?).map (Node.truth M · r))
  | child n => by simp [toNode, entries, Entry.child?]
  | made id path items => by
    simp only [toNode, Node.truth, Bool.false_xor, entries, List.filterMap_cons, Entry.child?]
    exact eval_toNodes conjunction modeOf (some path) r items

theorem eval_toNodes (conjunction : String) (modeOf : String → Option GroupMode) (home : Option String)
    (r : M.Record) : ∀ xs : List Item,
      (M.connective conjunction).eval (Node.truths M (toNodes conjunction modeOf xs) r) =
        (M.connective conjunction).eval
          (((entriesAll home xs).filterMap fun e => e.2.child?).map (Node.truth M · r))
  | [] => rfl
  | x :: rest => by
    simp only [toNodes, Node.truths, entriesAll, List.filterMap_append, List.map_append]
    rw [← List.singleton_append, Connective.eval_append, Connective.eval_append,
      Connective.eval_singleton, eval_toNode conjunction modeOf home r x,
      eval_toNodes conjunction modeOf home r rest]

end

end Item

namespace Converter

/-- The node of a conjunction is the conjunction of the children, wherever they were put. -/
theorem truth_reconcileFrom (conjunction : String) (negated : Bool) (children : List (Node Nat)) (n : Nat)
    (r : M.Record) :
    (c.reconcileFrom conjunction negated children n).1.truth M r =
      (negated ^^ (M.connective conjunction).eval (children.map (Node.truth M · r))) := by
  have hp := placed_foldl c (c.usedGroups children) (c.singleRoot? children) children (n + 1)
  have he := Item.eval_toNodes M conjunction c.modeOf none r
    (children.foldl (c.place (c.usedGroups children) (c.singleRoot? children)) ⟨[], n + 1⟩).items
  rw [Connective.eval_perm _ (hp.children.map _)] at he
  unfold reconcileFrom
  simp only
  split
  · split <;> simp only [Node.truth, he]
  · simp only [Node.truth, he]

/-! ## Groups put on a collection -/

theorem eval_dissolve (path conjunction : String) (r : M.Record) (n : Node Nat) :
    (M.connective conjunction).eval (Node.truths M (dissolve path conjunction n) r) = n.truth M r := by
  unfold dissolve
  split
  · split
    · rename_i id p cs h
      simp only [Bool.and_eq_true, beq_iff_eq, Option.isNone_iff_eq_none, Bool.not_eq_true'] at h
      obtain ⟨⟨⟨-, ho⟩, hn⟩, hc⟩ := h
      simp [Node.truth, ho, hn, hc]
    · simp [Node.truths]
  · simp [Node.truths]

theorem eval_flatMap_dissolve (path conjunction : String) (r : M.Record) (ns : List (Node Nat)) :
    (M.connective conjunction).eval (Node.truths M (ns.flatMap (dissolve path conjunction)) r) =
      (M.connective conjunction).eval (Node.truths M ns r) := by
  induction ns with
  | nil => rfl
  | cons n rest ih =>
    have hd := eval_dissolve M path conjunction r n
    rw [Node.truths_eq_map] at hd ih
    rw [Node.truths_eq_map, List.flatMap_cons, List.map_append, Connective.eval_append, hd, ih,
      ← Connective.eval_singleton (M.connective conjunction) (n.truth M r), ← Connective.eval_append]
    rfl

/-- What the children of a rule group say together. -/
def RuleGroup.body (g : RuleGroup) (r : M.Record) : Bool :=
  (M.connective g.props.conjunction).eval (Node.truths M g.children r)

theorem body_wrapOn {path : String} {f : Field} {conjunction : Option String} {n : Node Nat} {g : RuleGroup}
    {k m : Nat} (h : (c.wrapOn path f conjunction n).Gives k g m) (r : M.Record) :
    RuleGroup.body M g r = n.truth M r := by
  obtain ⟨id, l, -, h⟩ := Run.gives_bind.mp h
  obtain ⟨rfl, -⟩ := Run.gives_pure.mp h
  simp [RuleGroup.body, Node.truths]

/-- A group that is not negated says the same as a rule group on the collection. -/
theorem truth_rehome {path : String} {f : Field} {n : Node Nat} {g : RuleGroup} {k m : Nat}
    (hn : n.isNegated = false) (ho : n.kind = .ruleGroup → n.operator? = none)
    (h : (c.rehome path f n).Gives k g m) (r : M.Record) : RuleGroup.body M g r = n.truth M r := by
  cases n with
  | group id p cs =>
    obtain ⟨rfl, -⟩ := Run.gives_pure.mp h
    simp only [Node.isNegated] at hn
    simp only [RuleGroup.body, eval_flatMap_dissolve, Node.truth, hn, Bool.false_xor]
  | rule id p => exact body_wrapOn M h r
  | ruleGroup id p cs =>
    unfold rehome at h
    simp only at h
    split at h
    · obtain ⟨rfl, -⟩ := Run.gives_pure.mp h
      simp only [Node.isNegated] at hn
      have ho := ho rfl
      simp only [Node.operator?] at ho
      simp [RuleGroup.body, Node.truth, hn, ho]
    · exact body_wrapOn M h r

theorem isNegated_reconcileFrom (conjunction : String) (negated : Bool) (children : List (Node Nat))
    (n : Nat) :
    (c.reconcileFrom conjunction negated children n).1.isNegated = negated := by
  unfold reconcileFrom
  simp only
  split
  · split <;> rfl
  · rfl

theorem operator_reconcileFrom (conjunction : String) (negated : Bool) (children : List (Node Nat))
    (n : Nat) :
    (c.reconcileFrom conjunction negated children n).1.operator? = none := by
  unfold reconcileFrom
  simp only
  split
  · split <;> rfl
  · rfl

/-! ## Negations of a rule -/

/-- Whatever operators say, a negation that is settled says the same as before when inverses
say the opposite. -/
theorem settleNegation_xor (v : String → Bool) {f : Field} {op op' : String} {negated flag : Bool}
    (h : ∀ inv, c.inverse? op = some inv → v inv = !v op)
    (hs : c.settleNegation f op negated = (op', flag)) :
    (flag ^^ v op') = (negated ^^ v op) := by
  unfold settleNegation at hs
  split at hs
  · rename_i hn
    simp only [Bool.and_eq_true] at hn
    split at hs <;> cases hs
    · rename_i hinv
      rw [h _ hinv, hn.1]
      simp
    · rw [hn.1]
  · cases hs
    rfl

theorem gives_finishRule {sub : SubRuns} {r : ParsedRule} {negated : Bool} {parent : Option String}
    {k m : Nat} {node : Node Nat} (h : (c.finishRule sub r negated parent).Gives k (some node) m) :
    ∃ op flag operands l l' n, c.settleNegation r.field r.op negated = (op, flag) ∧
      (Run.collect (fun a => sub.value a (.ofField r.field (c.widgetFor r.path op)) parent) r.args).Gives
        k (some operands) l ∧
      (c.ruleNode sub r op flag operands).Gives l (some n) l' ∧
      ∀ x, node.truth M x = ((flag && !c.keepsNegation r.field) ^^ n.truth M x) := by
  obtain ⟨operands, l, hargs, h⟩ := Run.gives_andThen.mp h
  obtain ⟨n, l', hn, h⟩ := Run.gives_andThen.mp h
  refine ⟨(c.settleNegation r.field r.op negated).1, (c.settleNegation r.field r.op negated).2,
    operands, l, l', n, rfl, hargs, hn, fun x => ?_⟩
  split at h
  · rename_i hw
    obtain ⟨t, l'', ht, h⟩ := Run.gives_bind.mp h
    obtain ⟨id, i, -, ht⟩ := Run.gives_bind.mp ht
    obtain ⟨rfl, -⟩ := Run.gives_pure.mp ht
    obtain ⟨he, -⟩ := Run.gives_pure.mp h
    cases he
    simp only [hw, Tree.root, Node.truth, Node.truths, Connective.eval_singleton]
  · rename_i hw
    obtain ⟨he, -⟩ := Run.gives_pure.mp h
    cases he
    simp only [Bool.not_eq_true] at hw
    simp only [hw, Bool.false_xor]

/-- A rule on a plain field, with its negation, says what its atom says. -/
theorem truth_finishRule_atom {sub : SubRuns} {limit : Nat} {r : ParsedRule} {negated : Bool}
    {parent : Option String} {k m : Nat} {node : Node Nat} (hf : c.fields.resolve r.path = some r.field)
    (hg : r.field.isGroup = false) (hsub : sub.value = c.valueN limit)
    (h : (c.finishRule sub r negated parent).Gives k (some node) m) (x : M.Record) :
    node.truth M x = (negated ^^ (M.valuation x).atom ⟨parent, r.path, r.op, r.args⟩) := by
  obtain ⟨op, flag, operands, l, l', n, hset, hargs, hn, htruth⟩ := gives_finishRule M h
  have hkeeps : c.keepsNegation r.field = false := by simp [keepsNegation, Field.isArrayGroup, hg]
  have hrule : n.truth M x = (M.valuation x).atom ⟨parent, r.path, op, r.args⟩ := by
    simp only [ruleNode, hg, Bool.false_eq_true, if_false] at hn
    obtain ⟨id, i, -, hn⟩ := Run.gives_bind.mp hn
    obtain ⟨he, -⟩ := Run.gives_pure.mp hn
    cases he
    rw [hsub] at hargs
    exact (M.valuation x).rule_eq ⟨r.field, operands, limit, k, l, hf, hargs, rfl⟩
  have hxor := settleNegation_xor (fun op => (M.valuation x).atom ⟨parent, r.path, op, r.args⟩)
    (fun _ hinv => (M.valuation x).atom_inverse (a := ⟨parent, r.path, r.op, r.args⟩) hinv) hset
  rw [htruth, hkeeps, hrule, ← hxor]
  simp

/-- A rule on a collection says that of the elements, in each of which the rule group of
its having clause is true or not. -/
theorem truth_finishRule_each (hM : M.Quantifies) {sub : SubRuns} {r : ParsedRule} {negated : Bool}
    {parent : Option String} {k m : Nat} {node : Node Nat} (hg : r.field.isGroup = true)
    (h : (c.finishRule sub r negated parent).Gives k (some node) m) :
    ∃ g l l', (c.groupBody sub r).Gives l (some g) l' ∧ ∀ x,
      node.truth M x = (negated ^^ M.quantifier r.op ((M.elements x r.path).map (RuleGroup.body M g))) := by
  obtain ⟨op, flag, operands, l, l', n, hset, -, hn, htruth⟩ := gives_finishRule M h
  simp only [ruleNode, hg, if_true] at hn
  obtain ⟨g, i, hbody, hn⟩ := Run.gives_andThen.mp hn
  obtain ⟨he, -⟩ := Run.gives_pure.mp hn
  cases he
  refine ⟨g, l, i, hbody, fun x => ?_⟩
  have hxor := settleNegation_xor (fun op => M.quantifier op ((M.elements x r.path).map (RuleGroup.body M g)))
    (fun _ hinv => hM.quantifier_inverse hinv _) hset
  have hsays : (fun x => (M.connective g.props.conjunction).eval (Node.truths M g.children x)) =
      RuleGroup.body M g := rfl
  rw [htruth, ← hxor]
  -- the flag is on the collection or on a group around it
  cases c.keepsNegation r.field <;> simp [Node.truth, hsays]

/-! ## Conjunction keys -/

/-- The key that answers to a name says what the name says. -/
theorem connective_of_conjunction? (hc : c.index = Index.ofSchema c.schema) {name key : String} {k : Connective}
    (h : c.index.conjunction? name = some key) (hk : Connective.ofName? name = some k) :
    M.connective key = k := by
  rw [hc] at h
  have hm := Table.mem_of_mem_ofPairs (Table.mem_of_get? h)
  simp only [List.mem_map, Prod.mk.injEq] at hm
  obtain ⟨_, -, hlower, rfl⟩ := hm
  refine M.connective_eq ?_
  rw [← hk, Connective.ofName?, Connective.ofName?, hlower]

/-! ## Expressions -/

/-- The formula says nothing of the elements of collections, or the schema is understood
to say it as the formula does. -/
def Understood (style : HavingNegation) (f : Formula) : Prop :=
  f.propositional = true ∨ style = .outside ∧ M.Quantifies

/-- In what a conversion gives of an expression, negated or not, its formula is kept. -/
def KeepsTruth (style : HavingNegation) (limit : Nat) : Prop :=
  ∀ {parent e f}, c.States style parent e f → Understood M style f →
    ∀ {negated k node m}, (c.ruleN limit e negated parent).Gives k (some node) m →
      ∀ r, node.truth M r = (negated ^^ f.truth M r)

variable {M}

theorem truths_of_statesAll {style : HavingNegation} {limit : Nat} (hk : KeepsTruth M style limit)
    {parent : Option String} {es : List Json} {fs : List Formula} (h : c.StatesAll style parent es fs)
    (hu : ∀ f ∈ fs, Understood M style f) {children : List (Node Nat)} {k m : Nat}
    (hg : (Run.filterMap (fun a => c.ruleN limit a false parent) es).Gives k children m) (r : M.Record) :
    children.map (Node.truth M · r) = fs.map (Formula.truth M · r) := by
  have hpairs := Run.gives_filterMap (fun a => ruleN_loud limit a false parent) hg
  have hall := h.forall₂
  clear h hg
  induction hall generalizing children with
  | nil => cases hpairs; rfl
  | cons hs _ ih =>
    cases hpairs with
    | cons hn hrest =>
      obtain ⟨i, j, hn⟩ := hn
      have hhead := hk hs (hu _ (by simp)) hn r
      rw [Bool.false_xor] at hhead
      rw [List.map_cons, List.map_cons, hhead, ih (fun f hf => hu f (by simp [hf])) hrest]

theorem Understood.conj {style : HavingNegation} {k : Connective} {fs : List Formula}
    (h : Understood M style (.conj k fs)) : ∀ f ∈ fs, Understood M style f := by
  rcases h with h | h
  · rw [Formula.propositional, Formula.propositionals_iff] at h
    exact fun f hf => .inl (h f hf)
  · exact fun _ _ => .inr h

theorem truth_convertConjunction (hc : c.index = Index.ofSchema c.schema) {style : HavingNegation} {limit : Nat}
    (hk : KeepsTruth M style limit) {sub : SubRuns} (hsub : sub.rule = c.ruleN limit) {parent : Option String}
    {name key : String} {args : List Json} {k : Connective} {fs : List Formula}
    (hkey : c.index.conjunction? name = some key) (hname : Connective.ofName? name = some k)
    (h : c.StatesAll style parent args fs) (hu : Understood M style (.conj k fs)) {negated : Bool}
    {children : List (Node Nat)} {i j l m : Nat} {node : Node Nat}
    (hch : (Run.filterMap (fun a => sub.rule a false parent) args).Gives i children j)
    (hn : (c.reconcile key negated children).Gives l node m) (r : M.Record) :
    node.truth M r = (negated ^^ (Formula.conj k fs).truth M r) := by
  rw [hsub] at hch
  have hnode : (c.reconcileFrom key negated children l).1 = node := by rw [Run.gives_drawing.mp hn]
  rw [← hnode, truth_reconcileFrom, truths_of_statesAll hk h hu.conj hch,
    connective_of_conjunction? M hc hkey hname, Formula.truth, Formula.truths_eq_map]

/-- The elements of which a having clause is true are those of which its rule group is. -/
theorem truth_convertHaving (hc : c.index = Index.ofSchema c.schema) {style : HavingNegation} {limit : Nat}
    (hk : KeepsTruth M style limit) {sub : SubRuns} (hsub : sub.rule = c.ruleN limit) {path : String}
    {field : Field} {having : Json} {f : Formula} (h : c.States style (some path) having f)
    (hu : Understood M style f) {i j : Nat} {g : RuleGroup}
    (hg : (c.convertHaving sub having path field).Gives i (some g) j) (r : M.Record) :
    RuleGroup.body M g r = f.truth M r := by
  unfold convertHaving at hg
  split at hg
  · rename_i key args hconj
    obtain ⟨op, hop, hconj⟩ := Option.bind_eq_some_iff.mp hconj
    obtain ⟨key', hkey, he⟩ := Option.map_eq_some_iff.mp hconj
    cases he
    obtain ⟨children, k, hch, hg⟩ := Run.gives_bind.mp hg
    obtain ⟨n, l, hn, hg⟩ := Run.gives_bind.mp hg
    obtain ⟨g', m, hg, he⟩ := Run.gives_bind.mp hg
    obtain ⟨he, -⟩ := Run.gives_pure.mp he
    cases he
    have hnode : (c.reconcileFrom key false children k).1 = n := by rw [Run.gives_drawing.mp hn]
    have hbody := truth_rehome M (hnode ▸ isNegated_reconcileFrom key false children k)
      (fun _ => hnode ▸ operator_reconcileFrom key false children k) hg r
    rw [hbody]
    -- only a conjunction is told by a conjunction key
    cases h with
    | conjunction he hkey' hname hs =>
      rw [he] at hop
      cases hop
      rw [truth_convertConjunction hc hk hsub hkey hname hs hu hch hn, Bool.false_xor]
    | negation he _ hbang => rw [he] at hop; cases hop; simp [hbang] at hkey
    | rule he _ hkey' => rw [he] at hop; cases hop; simp [hkey'] at hkey
    | collection he hkey' => rw [he] at hop; cases hop; simp [hkey'] at hkey
    | negatedHaving _ he hkey' => rw [he] at hop; cases hop; simp [hkey'] at hkey
  · obtain ⟨n, k, hn, hg⟩ := Run.gives_andThen.mp hg
    obtain ⟨w, l, hw, hg⟩ := Run.gives_bind.mp hg
    obtain ⟨g', m, hg, he⟩ := Run.gives_bind.mp hg
    obtain ⟨he, -⟩ := Run.gives_pure.mp he
    cases he
    have hbody := body_wrapOn M hw r
    obtain ⟨id, l', -, hw⟩ := Run.gives_bind.mp hw
    obtain ⟨rfl, -⟩ := Run.gives_pure.mp hw
    -- the rule group made for the node is on the collection already
    have hbody' := hk h hu (hsub ▸ hn) r
    rw [Bool.false_xor] at hbody'
    rw [truth_rehome M rfl (fun _ => rfl) hg, ← hbody', ← hbody]
    simp [RuleGroup.toNode, Node.truth, RuleGroup.body]

/-! ## Whole expressions -/

/-- A rule on a collection that takes a having clause. -/
theorem truth_convertOp_each (hM : M.Quantifies) {sub : SubRuns} {e list having : Json} {q : Quantifier}
    {parent : Option String} {p path : String} {f : Field}
    (hp : FieldOperand.recognize? c.index list = some (.direct p)) (hpath : path = c.composePath parent p)
    (hf : c.fields.resolve path = some f) (hg : f.isGroup = true)
    (ht : c.TakesHaving ⟨q.name, [list, having]⟩) {negated : Bool} {k m : Nat} {node : Node Nat}
    (h : (c.convertOp sub e ⟨q.name, [list, having]⟩ negated parent).Gives k (some node) m) :
    ∃ r : ParsedRule, r.path = path ∧ r.field = f ∧ r.having = some having ∧
      ∃ g l l', (c.groupBody sub (foldHaving r negated).1).Gives l (some g) l' ∧ ∀ x,
        node.truth M x =
          ((foldHaving r negated).2 ^^ q.eval ((M.elements x path).map (RuleGroup.body M g))) := by
  cases hr : c.parseRule e (.ofOperation ⟨q.name, [list, having]⟩) parent with
  | error d =>
    simp only [convertOp, hr] at h
    exact absurd h Run.not_gives_fail
  | ok r =>
    simp only [convertOp, hr, assembleRule_eq] at h
    obtain ⟨hrpath, hhaving, hop⟩ := parseRule_of_isGroupOp ht.1 ht.2 hp hr
    rw [← hpath] at hrpath
    have hfield : r.field = f := by simpa [hrpath, hf] using (resolve_of_parseRule hr).symm
    obtain ⟨g, l, l', hbody, htruth⟩ := truth_finishRule_each M hM (by rw [foldHaving_eq, hfield, hg]) h
    refine ⟨r, hrpath, hfield, hhaving, g, l, l', hbody, fun x => ?_⟩
    rw [htruth, ← hM.quantifier_eq hop, foldHaving_eq, hrpath]

theorem truth_ruleStep (hc : c.index = Index.ofSchema c.schema) {style : HavingNegation} {limit : Nat}
    (hk : KeepsTruth M style limit) : KeepsTruth M style (limit + 1) := by
  intro parent e f h hu negated k node m hg r
  rw [ruleN] at hg
  cases h with
  | @negation _ _ x _ he hx _ h =>
    have hneg : c.negated? ⟨"!", [x]⟩ = some x := by simp [negated?, hx]
    rw [ruleStep_negation he hneg] at hg
    rw [hk h hu hg, Formula.truth]
    cases negated <;> simp
  | @conjunction _ _ name args key k' fs he hkey hname hs =>
    have hbang : c.negated? ⟨name, args⟩ = none := by
      refine negated?_of_ne ?_
      rintro rfl
      cases hname
    rw [ruleStep_conjunction he hbang hkey] at hg
    obtain ⟨children, i, hch, hg⟩ := Run.gives_bind.mp hg
    obtain ⟨n, j, hn, hg⟩ := Run.gives_bind.mp hg
    obtain ⟨hsome, -⟩ := Run.gives_pure.mp hg
    cases hsome
    exact truth_convertConjunction hc hk rfl hkey hname hs hu hch hn r
  | rule he hn hkey hr hgroup =>
    rw [ruleStep_rule he hn hkey, convertOp] at hg
    simp only [hr, assembleRule_eq, foldHaving_of_not_isGroup hgroup] at hg
    exact truth_finishRule_atom M (resolve_of_parseRule hr) hgroup rfl hg r
  | @collection _ _ q list having path p f g he hkey hp hpath hf hgroup hs h =>
    obtain ⟨rfl, hM⟩ := hu.resolve_left (by simp [Formula.propositional])
    obtain ⟨hne, ht⟩ := hs rfl
    rw [ruleStep_rule he (negated?_of_ne q.name_ne_bang) hkey] at hg
    obtain ⟨r', rfl, rfl, hhaving, g', l, l', hbody, htruth⟩ := truth_convertOp_each hM hp hpath hf hgroup ht hg
    rw [foldHaving_of_ne (by simpa [hhaving] using hne)] at hbody htruth
    rw [htruth, Formula.truth]
    simp only [groupBody, hhaving] at hbody
    rw [show RuleGroup.body M g' = g.truth M from
      funext fun x => truth_convertHaving hc hk rfl h (.inr ⟨rfl, hM⟩) hbody x]
  | @negatedHaving _ _ q list having x path p f g hs he hkey hp hpath hf hgroup hx ht h =>
    obtain ⟨rfl, hM⟩ := hu.resolve_left (by simp [Formula.propositional])
    rw [ruleStep_rule he (negated?_of_ne q.name_ne_bang) hkey] at hg
    obtain ⟨r', rfl, rfl, hhaving, g', l, l', hbody, htruth⟩ := truth_convertOp_each hM hp hpath hf hgroup ht hg
    rw [foldHaving_of_bang hgroup hhaving hx] at hbody htruth
    rw [htruth, Formula.truth, Formula.truth]
    simp only [groupBody, List.head?_cons] at hbody
    rw [show RuleGroup.body M g' = g.truth M from
      funext fun x => truth_convertHaving hc hk rfl h (.inr ⟨rfl, hM⟩) hbody x]
    cases negated <;> simp

/-- In what a conversion gives, the formula of the expression is kept. -/
theorem truth_of_states (hc : c.index = Index.ofSchema c.schema) (style : HavingNegation) (limit : Nat) :
    KeepsTruth M style limit := by
  induction limit with
  | zero => intro _ _ _ _ _ _ _ _ _ hg; cases hg
  | succ limit ih => exact truth_ruleStep hc ih

/-! ## Having clauses put on their collection -/

/-- The properties of a clause on a collection: no negation, operator or values of its own. -/
def IsClauseOn (path : String) (field : Field) (p : RuleGroupProps) : Prop :=
  p = { conjunction := p.conjunction, field := path, mode := field.mode }

section Clauses

variable {path : String} {field : Field} {g : RuleGroup} {k m : Nat}

theorem isClauseOn_of_wrapOn {conjunction : Option String} {n : Node Nat}
    (h : (c.wrapOn path field conjunction n).Gives k g m) : IsClauseOn path field g.props := by
  obtain ⟨id, l, -, h⟩ := Run.gives_bind.mp h
  obtain ⟨rfl, -⟩ := Run.gives_pure.mp h
  rfl

/-- A rule group that is on the collection already is kept as it is, all else is given the
properties of a clause. -/
theorem isClauseOn_of_rehome {n : Node Nat}
    (hn : ∀ id p cs, n = .ruleGroup id p cs → p.field = path → IsClauseOn path field p)
    (h : (c.rehome path field n).Gives k g m) : IsClauseOn path field g.props := by
  cases n with
  | group id p cs =>
    obtain ⟨rfl, -⟩ := Run.gives_pure.mp h
    rfl
  | rule id p => exact isClauseOn_of_wrapOn h
  | ruleGroup id p cs =>
    simp only [rehome] at h
    split at h
    · rename_i hpath
      obtain ⟨rfl, -⟩ := Run.gives_pure.mp h
      exact hn id p cs rfl (by simpa using hpath)
    · exact isClauseOn_of_wrapOn h

theorem isClauseOn_of_reconcileFrom (hmode : c.modeOf path = field.mode) {conjunction : String}
    {children : List (Node Nat)} {n id : Nat} {p : RuleGroupProps} {cs : List (Node Nat)}
    (h : (c.reconcileFrom conjunction false children n).1 = .ruleGroup id p cs) (hp : p.field = path) :
    IsClauseOn path field p := by
  unfold reconcileFrom at h
  simp only at h
  split at h
  · split at h
    · cases h
      cases hp
      simp only [IsClauseOn, hmode]
    · cases h
  · cases h

/-- Whatever the clause, its rule group is on the collection, with the mode of the field. -/
theorem isClauseOn_of_convertHaving (hmode : c.modeOf path = field.mode) {sub : SubRuns} {having : Json}
    (h : (c.convertHaving sub having path field).Gives k (some g) m) : IsClauseOn path field g.props := by
  unfold convertHaving at h
  split at h
  · rename_i key args hconj
    obtain ⟨children, i, -, h⟩ := Run.gives_bind.mp h
    obtain ⟨n, j, hn, h⟩ := Run.gives_bind.mp h
    obtain ⟨g', l, hg, h⟩ := Run.gives_bind.mp h
    obtain ⟨he, -⟩ := Run.gives_pure.mp h
    cases he
    have hnode : (c.reconcileFrom key false children i).1 = n := by rw [Run.gives_drawing.mp hn]
    refine isClauseOn_of_rehome (fun id p cs hgroup hpath => ?_) hg
    exact isClauseOn_of_reconcileFrom hmode (hnode.trans hgroup) hpath
  · obtain ⟨n, i, -, h⟩ := Run.gives_andThen.mp h
    obtain ⟨w, j, hw, h⟩ := Run.gives_bind.mp h
    obtain ⟨g', l, hg, h⟩ := Run.gives_bind.mp h
    obtain ⟨he, -⟩ := Run.gives_pure.mp h
    cases he
    refine isClauseOn_of_rehome (fun id p cs hgroup _ => ?_) hg
    have hclause := isClauseOn_of_wrapOn hw
    cases hgroup
    exact hclause

end Clauses

/-- A having clause that is converted without a problem becomes a rule group on its
collection that has no negation, operator or values to lose, and whose children say together
what the clause says, whatever the rules say. -/
theorem having_clause_keeps_meaning (c : Converter) (hc : c.index = Index.ofSchema c.schema) {path : String}
    {field : Field} (hfield : c.fields.resolve path = some field) {style : HavingNegation} {having : Json} {f : Formula}
    (hs : c.States style (some path) having f) (hf : f.propositional = true) {limit n m : Nat} {g : RuleGroup}
    (hg : (c.convertHaving ⟨c.ruleN limit, c.valueN limit⟩ having path field).Gives n (some g) m) :
    g.props.field = path ∧ g.props.mode = field.mode ∧ g.props.negated = false ∧ g.props.operator = none ∧
      g.props.args = [] ∧ ∀ (M : Model c) (r : M.Record), RuleGroup.body M g r = f.truth M r := by
  have hmode : c.modeOf path = field.mode := by simp [modeOf, hfield]
  have hclause : g.props = { conjunction := g.props.conjunction, field := path, mode := field.mode } :=
    isClauseOn_of_convertHaving hmode hg
  rw [hclause]
  refine ⟨rfl, rfl, rfl, rfl, rfl, fun M r => ?_⟩
  exact truth_convertHaving hc (truth_of_states hc style limit) rfl hs (.inl hf) hg r

/-- Cars of a vendor or of a year that are not both new and of another vendor: the inner
disjunction is taken in, the negated conjunction is kept. -/
theorem nested_clause_keeps_meaning :
    let clause := Cars.call "or" [Cars.call "Or" [Cars.equals "vendor" "vw", Cars.equals "year" "1999"],
      Cars.not (Cars.call "and" [Cars.equals "vendor" "bmw", Cars.not (Cars.call "<" [Cars.read "year", .str "2000"])])]
    ∃ f g n m, Cars.converter.States .inside (some "cars") clause f ∧ f.propositional = true ∧
      (Cars.converter.convertHaving ⟨Cars.converter.ruleN 20, Cars.converter.valueN 20⟩ clause "cars" Cars.cars).Gives
        n (some g) m ∧
      g.props.field = "cars" ∧ g.props.mode = Cars.cars.mode ∧ g.props.negated = false ∧ g.props.operator = none ∧
      g.props.args = [] ∧ ∀ (M : Model Cars.converter) (r : M.Record), RuleGroup.body M g r = f.truth M r := by
  intro clause
  have hs : Cars.converter.States .inside (some "cars") clause
      (.conj .any [.conj .any [.atom ⟨some "cars", "cars.vendor", "equal", [.str "vw"]⟩,
          .atom ⟨some "cars", "cars.year", "equal", [.str "1999"]⟩],
        .not (.conj .all [.atom ⟨some "cars", "cars.vendor", "equal", [.str "bmw"]⟩,
          .not (.atom ⟨some "cars", "cars.year", "less", [.str "2000"]⟩)])]) := by
    refine .conjunction rfl (by rfl) (by rfl) (.cons (.conjunction rfl (by rfl) (by rfl) ?_) (.cons ?_ .nil))
    · refine .cons (Cars.states_rule rfl (by rfl) (by rfl) (by rfl)) (.cons ?_ .nil)
      exact Cars.states_rule rfl (by rfl) (by rfl) (by rfl)
    · refine .negation rfl (by rfl) (by rfl) (.conjunction rfl (by rfl) (by rfl) ?_)
      refine .cons (Cars.states_rule rfl (by rfl) (by rfl) (by rfl)) (.cons ?_ .nil)
      exact .negation rfl (by rfl) (by rfl) (Cars.states_rule rfl (by rfl) (by rfl) (by rfl))
  have hends : ((Cars.converter.convertHaving ⟨Cars.converter.ruleN 20, Cars.converter.valueN 20⟩ clause "cars"
      Cars.cars) 0).any (fun d => d.value.isSome && d.problems.isEmpty) = true := by
    decide +kernel
  obtain ⟨⟨value, m, problems⟩, hd, hclean⟩ := (Option.any_eq_true _ _).mp hends
  obtain ⟨hvalue, hproblems⟩ := (Bool.and_eq_true _ _).mp hclean
  obtain ⟨g, rfl⟩ := Option.isSome_iff_exists.mp hvalue
  obtain rfl := List.isEmpty_iff.mp hproblems
  exact ⟨_, g, 0, m, hs, by rfl, hd, having_clause_keeps_meaning Cars.converter rfl (by rfl) hs (by rfl) hd⟩

/-! ## Imports -/

theorem truth_rootOf {n : Node Nat} {t : Tree Nat} {k m : Nat} (h : (c.rootOf n).Gives k t m) (r : M.Record) :
    t.root.truth M r = n.truth M r := by
  have hwrap : ∀ {n : Node Nat}, (c.wrap false n).Gives k t m → t.root.truth M r = n.truth M r := by
    intro n h
    obtain ⟨id, i, -, h⟩ := Run.gives_bind.mp h
    obtain ⟨rfl, -⟩ := Run.gives_pure.mp h
    simp [Tree.root, Node.truth, Node.truths]
  cases n with
  | group id p cs =>
    obtain ⟨rfl, -⟩ := Run.gives_pure.mp h
    rfl
  | rule id p => exact hwrap h
  | ruleGroup id p cs => exact hwrap h

/-- The tree of an import without problems says what the expression says. -/
theorem truth_of_importsAs (hc : c.index = Index.ofSchema c.schema) {style : HavingNegation} {e : Json}
    {f : Formula} (hs : c.States style none e f) (hu : Understood M style f) {ι : Type} {ids : Nat → ι} {start : Nat}
    {t : Tree ι} (h : c.ImportsAs ids start e t) (r : M.Record) : t.root.truth M r = f.truth M r := by
  obtain ⟨t', next, hrun, rfl⟩ := gives_of_importsAs h
  unfold treeN at hrun
  split at hrun
  · obtain ⟨n, k, hn, hrun⟩ := Run.gives_andThen.mp hrun
    obtain ⟨t'', l, hroot, hrun⟩ := Run.gives_bind.mp hrun
    obtain ⟨hsome, -⟩ := Run.gives_pure.mp hrun
    cases hsome
    have hnode := truth_of_states hc style (c.limit e) hs hu hn r
    rw [Bool.false_xor] at hnode
    have hname := congrFun (Node.truth_rename M (fun n => ids (start + n)) t'.root) r
    rw [truth_rootOf hroot, hnode] at hname
    exact hname
  · obtain ⟨hsome, -⟩ := Run.gives_pure.mp hrun
    cases hsome

/-- A propositional expression that is imported without problems is true of the same
records as its tree, whatever the rules say. -/
theorem import_preserves_truth (c : Converter) (hc : c.index = Index.ofSchema c.schema) {style : HavingNegation}
    {e : Json} {f : Formula} (hs : c.States style none e f) (hf : f.propositional = true) {ι : Type}
    {ids : Nat → ι} {start : Nat} {t : Tree ι} (ht : c.ImportsAs ids start e t) (M : Model c) (r : M.Record) :
    t.root.truth M r = f.truth M r :=
  truth_of_importsAs hc hs (.inl hf) ht r

/-- Not both a car of a vendor and neither a red user nor an old car: the rules on cars are
moved, one negation is spent on an inverse operator and one on the conjunction. -/
theorem negated_conjunctions_preserve_truth :
    ∃ f t, Cars.converter.States .inside none Cars.notBoth f ∧ f.propositional = true ∧
      Cars.converter.ImportsAs (fun n => n) 1 Cars.notBoth t ∧
      t.root.truth Cars.model (5 : Nat) = f.truth Cars.model (5 : Nat) := by
  have hs : Cars.converter.States .inside none Cars.notBoth
      (.not (.conj .all [.atom ⟨none, "cars.vendor", "equal", [.str "vw"]⟩,
        .not (.conj .any [.atom ⟨none, "color", "equal", [.str "red"]⟩,
          .atom ⟨none, "cars.year", "less", [.str "1999"]⟩])])) := by
    refine .negation rfl (by rfl) (by rfl) (.conjunction rfl (by rfl) (by rfl) ?_)
    refine .cons (Cars.states_rule rfl (by rfl) (by rfl) (by rfl)) (.cons ?_ .nil)
    refine .negation rfl (by rfl) (by rfl) (.conjunction rfl (by rfl) (by rfl) ?_)
    refine .cons (Cars.states_rule rfl (by rfl) (by rfl) (by rfl)) (.cons ?_ .nil)
    exact Cars.states_rule rfl (by rfl) (by rfl) (by rfl)
  obtain ⟨t, ht, -⟩ := exists_importsAs (c := Cars.converter) (fun _ => true) Cars.notBoth
    (by decide +kernel)
  exact ⟨_, t, hs, by rfl, ht,
    import_preserves_truth Cars.converter rfl hs (by rfl) ht Cars.model (5 : Nat)⟩

/-- Two expressions that are imported without problems as trees of one shape are true of
the same records. -/
theorem sameShape_preserves_truth (c : Converter) (hc : c.index = Index.ofSchema c.schema) {M : Model c}
    (hM : M.Quantifies) (hp : M.SeesProps) {e e' : Json} {f f' : Formula} (hs : c.States .outside none e f)
    (hs' : c.States .outside none e' f') {ι κ : Type} {ids : Nat → ι} {ids' : Nat → κ} {start start' : Nat}
    {t : Tree ι} {t' : Tree κ} (ht : c.ImportsAs ids start e t) (ht' : c.ImportsAs ids' start' e' t')
    (hsame : t.sameShape t' = true) (r : M.Record) : f.truth M r = f'.truth M r := by
  rw [← truth_of_importsAs hc hs (.inr ⟨rfl, hM⟩) ht r,
    ← truth_of_importsAs hc hs' (.inr ⟨rfl, hM⟩) ht' r, Node.truth_of_sameShape hp t.root t'.root hsame]

/-- No car is other than of a vendor, and it is not so that a car is of the vendor: with the
negation in front of the whole rule, the two are one. -/
theorem negated_clause_is_negated_rule :
    ∃ f f' t t', Cars.converter.States .outside none (Cars.ofCars "none" (Cars.not (Cars.equals "vendor" "vw"))) f ∧
      Cars.converter.States .outside none (Cars.ofCars "some" (Cars.equals "vendor" "vw")) f' ∧
      Cars.converter.ImportsAs (fun n => n) 1 (Cars.ofCars "none" (Cars.not (Cars.equals "vendor" "vw"))) t ∧
      Cars.converter.ImportsAs (fun n => n) 1 (Cars.ofCars "some" (Cars.equals "vendor" "vw")) t' ∧
      t.sameShape t' = true ∧ f.truth Cars.model (5 : Nat) = f'.truth Cars.model (5 : Nat) := by
  have hatom : Cars.converter.States .outside (some "cars") (Cars.equals "vendor" "vw")
      (.atom ⟨some "cars", "cars.vendor", "equal", [.str "vw"]⟩) :=
    Cars.states_rule rfl (by rfl) (by rfl) (by rfl)
  have hs : Cars.converter.States .outside none (Cars.ofCars "none" (Cars.not (Cars.equals "vendor" "vw")))
      (.not (.each .none "cars" (.atom ⟨some "cars", "cars.vendor", "equal", [.str "vw"]⟩))) :=
    .negatedHaving rfl rfl (by rfl) (by rfl) (by decide +kernel) (by rfl) (by rfl) rfl
      ⟨by decide +kernel, by decide +kernel⟩ hatom
  have hs' : Cars.converter.States .outside none (Cars.ofCars "some" (Cars.equals "vendor" "vw"))
      (.each .some "cars" (.atom ⟨some "cars", "cars.vendor", "equal", [.str "vw"]⟩)) :=
    .collection rfl (by rfl) (by rfl) (by decide +kernel) (by rfl) (by rfl)
      (fun _ => ⟨by decide +kernel, by decide +kernel, by decide +kernel⟩) hatom
  obtain ⟨t, t', ht, ht', hsame⟩ := exists_importsAs_pair (c := Cars.converter) Tree.sameShape
    (Cars.ofCars "none" (Cars.not (Cars.equals "vendor" "vw"))) (Cars.ofCars "some" (Cars.equals "vendor" "vw"))
    (by decide +kernel)
  exact ⟨_, _, t, t', hs, hs', ht, ht', hsame,
    sameShape_preserves_truth Cars.converter rfl Cars.model_quantifies Cars.model_seesProps hs hs'
      ht ht' hsame (5 : Nat)⟩

/-- Trees of one shape for expressions of which one is true of a record and one is not. -/
def Collide (M : Model c) (style : HavingNegation) (e e' : Json) : Prop :=
  ∃ f f' t t' r, c.States style none e f ∧ c.States style none e' f' ∧
    c.ImportsAs (fun n => n) 1 e t ∧ c.ImportsAs (fun n => n) 1 e' t' ∧ t.sameShape t' = true ∧
    f.truth M r ≠ f'.truth M r

/-- With a negation a part of its having clause, a rule and its negation have trees of one
shape; and `all` over an `in` is an operator that leaves no having clause behind. -/
theorem literal_having_clauses_collide :
    Cars.model.Quantifies ∧ Cars.model.SeesProps ∧
      Collide Cars.model .inside (Cars.ofCars "none" (Cars.not (Cars.equals "vendor" "vw")))
        (Cars.not (Cars.ofCars "none" (Cars.equals "vendor" "vw"))) ∧
      Collide Cars.model .inside (Cars.ofCars "all" (Cars.call "in" [Cars.read "vendor", .str "vw"]))
        (Cars.ofCars "all" (Cars.call "in" [Cars.read "year", .str "vw"])) := by
  refine ⟨Cars.model_quantifies, Cars.model_seesProps, ?_, ?_⟩
  · have hatom : Cars.converter.States .inside (some "cars") (Cars.equals "vendor" "vw")
        (.atom ⟨some "cars", "cars.vendor", "equal", [.str "vw"]⟩) :=
      Cars.states_rule rfl (by rfl) (by rfl) (by rfl)
    have hs : Cars.converter.States .inside none (Cars.ofCars "none" (Cars.not (Cars.equals "vendor" "vw")))
        (.each .none "cars" (.not (.atom ⟨some "cars", "cars.vendor", "equal", [.str "vw"]⟩))) :=
      .collection rfl (by rfl) (by rfl) (by decide +kernel) (by rfl) (by rfl) nofun
        (.negation rfl (by rfl) (by rfl) hatom)
    have hs' : Cars.converter.States .inside none (Cars.not (Cars.ofCars "none" (Cars.equals "vendor" "vw")))
        (.not (.each .none "cars" (.atom ⟨some "cars", "cars.vendor", "equal", [.str "vw"]⟩))) :=
      .negation rfl (by rfl) (by rfl)
        (.collection rfl (by rfl) (by rfl) (by decide +kernel) (by rfl) (by rfl) nofun hatom)
    obtain ⟨t, t', ht, ht', hsame⟩ := exists_importsAs_pair (c := Cars.converter) Tree.sameShape
      (Cars.ofCars "none" (Cars.not (Cars.equals "vendor" "vw")))
      (Cars.not (Cars.ofCars "none" (Cars.equals "vendor" "vw"))) (by decide +kernel)
    exact ⟨_, _, t, t', (0 : Nat), hs, hs', ht, ht', hsame, by decide⟩
  · have hs : ∀ name, name = "vendor" ∨ name = "year" →
        Cars.converter.States .inside none (Cars.ofCars "all" (Cars.call "in" [Cars.read name, .str "vw"]))
          (.each .all "cars" (.atom ⟨some "cars", "cars." ++ name, "in", [.str "vw"]⟩)) := by
      rintro name (rfl | rfl) <;>
        exact .collection rfl (by rfl) (by rfl) (by decide +kernel) (by rfl) (by rfl) nofun
          (Cars.states_rule rfl (by rfl) (by rfl) (by rfl))
    obtain ⟨t, t', ht, ht', hsame⟩ := exists_importsAs_pair (c := Cars.converter) Tree.sameShape
      (Cars.ofCars "all" (Cars.call "in" [Cars.read "vendor", .str "vw"]))
      (Cars.ofCars "all" (Cars.call "in" [Cars.read "year", .str "vw"])) (by decide +kernel)
    exact ⟨_, _, t, t', (1 : Nat), hs _ (.inl rfl), hs _ (.inr rfl), ht, ht', hsame, by decide⟩

end Converter
end RuleTree
