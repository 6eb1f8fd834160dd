/-
  RuleTree.Proofs.DoubleNegation — two negations in front of a part of an expression.

  `Doubled` says that an expression is another one with two negations put in front of one
  of its parts in rule position. Negations draw no numbers, so the trees are to be the same,
  names and all: `keeps_of_doubled`, and of whole imports `import_of_doubled`.

  That is so but for one place. A rule on a collection takes one negation off the head of
  its having clause, and no more:
  - in front of the clause itself two negations are taken apart, one for the rule and one
    for the clause;
  - behind the negation taken off, a conjunction is made the rule group of the collection,
    but becomes a child of one when it has two negations in front.
  `negated_clauses_are_kept` has a run of each.
-/

import RuleTree.Proofs.Cars
import RuleTree.Proofs.FoundAlike

namespace RuleTree

/-! ## One part replaced -/

/-- An expression with one occurrence of a part replaced by another expression. -/
inductive Json.Replaces (x x' : Json) : Json → Json → Prop
  | here : Replaces x x' x x'
  | item (before after) {a a'} (h : Replaces x x' a a') :
      Replaces x x' (.arr (before ++ a :: after)) (.arr (before ++ a' :: after))
  | member (before after) {key a a'} (h : Replaces x x' a a') :
      Replaces x x' (.obj (before ++ (key, a) :: after)) (.obj (before ++ (key, a') :: after))

namespace Json

theorem sizeItems_append (xs ys : List Json) : sizeItems (xs ++ ys) = sizeItems xs + sizeItems ys := by
  induction xs with
  | nil => simp [sizeItems]
  | cons x rest ih => simp [sizeItems, ih]; omega

theorem sizeEntries_append (xs ys : List (String × Json)) :
    sizeEntries (xs ++ ys) = sizeEntries xs + sizeEntries ys := by
  induction xs with
  | nil => simp [sizeEntries]
  | cons x rest ih => simp [sizeEntries, ih]; omega

/-- The expression grows as the part does. -/
theorem size_of_replaces {x x' e e' : Json} (h : Replaces x x' e e') :
    e'.size + x.size = e.size + x'.size := by
  induction h with
  | here => omega
  | item _ _ _ ih => simp only [size, sizeItems_append, sizeItems]; omega
  | member _ _ _ ih => simp only [size, sizeEntries_append, sizeEntries]; omega

/-- A negation of one expression that is no list. -/
def bang (e : Json) : Json := .obj [("!", e)]

theorem size_bang (e : Json) : (bang e).size = e.size + 1 := by
  simp [bang, size, sizeEntries]

end Json

namespace Converter

/-! ## Where the part may stand -/

/-- Whether the part may be the whole expression, or must be inside of it, or the expression
is the having clause of a collection. -/
inductive Spot where
  | anywhere
  | inside
  | clause

/-- Read under a parent path, the second expression is the first one with two negations
in front of a part in rule position. -/
inductive Doubled (c : Converter) : Spot → Option String → Json → Json → Prop
  | here {parent x y e'} (hx : x.opName?.any c.index.isVarKey = false) (hy : y.operation? = some ⟨"!", [x]⟩)
      (he' : e'.operation? = some ⟨"!", [y]⟩) : Doubled c .anywhere parent x e'
  | inside {parent e e'} (h : Doubled c .inside parent e e') : Doubled c .anywhere parent e e'
  | negation {parent e e' x x' rest} (he : e.operation? = some ⟨"!", x :: rest⟩)
      (he' : e'.operation? = some ⟨"!", x' :: rest⟩) (hx : c.isEmptinessTest (x :: rest) = false)
      (h : Doubled c .anywhere parent x x') : Doubled c .inside parent e e'
  | conjunction (before after) {parent e e' name key a a'} (hne : name ≠ "!")
      (hk : c.index.conjunction? name = some key) (he : e.operation? = some ⟨name, before ++ a :: after⟩)
      (he' : e'.operation? = some ⟨name, before ++ a' :: after⟩) (h : Doubled c .anywhere parent a a') :
      Doubled c .inside parent e e'
  /-- In the layout of the rule that counts, its clause is changed; where the field is no
  collection, or a count has a predicate of its own, the clause has no part in the rule. -/
  | rule {parent e e' name args args' reversed clause clause'} (hne : name ≠ "!")
      (hk : c.index.conjunction? name = none) (he : e.operation? = some ⟨name, args⟩)
      (he' : e'.operation? = some ⟨name, args'⟩)
      (hs : SwapsClause c clause clause' reversed (.ofOperation ⟨name, args⟩) (.ofOperation ⟨name, args'⟩))
      (hc : c.Counts parent reversed (.ofOperation ⟨name, args⟩) (.ofOperation ⟨name, args'⟩))
      (h : ∀ r, c.parseRule e (.ofOperation ⟨name, args⟩) parent = .ok r → r.field.isGroup = true →
        r.having = some clause → Doubled c .clause (some r.path) clause clause') : Doubled c .inside parent e e'
  | clause {parent e e'} (hne : e.opName? ≠ some "!") (h : Doubled c .inside parent e e') :
      Doubled c .clause parent e e'
  | negatedClause {parent e e' x x' rest} (he : e.operation? = some ⟨"!", x :: rest⟩)
      (he' : e'.operation? = some ⟨"!", x' :: rest⟩) (h : Doubled c .inside parent x x') :
      Doubled c .clause parent e e'
  /-- Behind the negation of a clause two more do nothing to all but conjunctions. -/
  | behindNegation {parent e e' x y x' rest} (he : e.operation? = some ⟨"!", x :: rest⟩)
      (he' : e'.operation? = some ⟨"!", x' :: rest⟩) (hx : x.opName?.any c.index.isVarKey = false)
      (hk : x.operation?.bind (fun op => c.index.conjunction? op.name) = none)
      (hbang : c.index.conjunction? "!" = none) (hy : y.operation? = some ⟨"!", [x]⟩)
      (hx' : x'.operation? = some ⟨"!", [y]⟩) : Doubled c .clause parent e e'

variable {c : Converter}

theorem negated?_bang {x : Json} {rest : List Json} (hx : c.isEmptinessTest (x :: rest) = false) :
    c.negated? ⟨"!", x :: rest⟩ = some x := by
  simp [negated?, hx]

theorem isEmptinessTest_cons {x x' : Json} {rest : List Json}
    (h : x.opName?.any c.index.isVarKey = false → x'.opName?.any c.index.isVarKey = false)
    (hx : c.isEmptinessTest (x :: rest) = false) : c.isEmptinessTest (x' :: rest) = false := by
  cases rest with
  | nil => exact h hx
  | cons => rfl

/-- Two negations make no field read of what is none. -/
theorem opName_of_doubled (hbang : c.index.isVarKey "!" = false) {spot : Spot} {parent : Option String}
    {e e' : Json} (h : c.Doubled spot parent e e') (hv : e.opName?.any c.index.isVarKey = false) :
    e'.opName?.any c.index.isVarKey = false := by
  induction h with
  | here hx hy he' => simp [Json.opName?, he', hbang]
  | inside h ih => exact ih hv
  | negation he he' hx h ih => simp [Json.opName?, he', hbang]
  | conjunction _ _ hne hk he he' h ih => simpa [Json.opName?, he, he'] using hv
  | rule hne hk he he' hs hc h ih => simpa [Json.opName?, he, he'] using hv
  | clause hne h ih => exact ih hv
  | negatedClause he he' h ih => simp [Json.opName?, he', hbang]
  | behindNegation he he' hx hk hb hy hx' => simp [Json.opName?, he', hbang]

/-- Two negations are folded away. -/
theorem ruleN_doubled (hbang : c.index.isVarKey "!" = false) {x y e : Json}
    (hx : x.opName?.any c.index.isVarKey = false) (hy : y.operation? = some ⟨"!", [x]⟩)
    (he : e.operation? = some ⟨"!", [y]⟩) (n : Nat) (negated : Bool) (parent : Option String) :
    c.ruleN (n + 2) e negated parent = c.ruleN n x negated parent := by
  have hny : c.isEmptinessTest [y] = false := by simp [isEmptinessTest, Json.opName?, hy, hbang]
  rw [ruleN, ruleStep_negation he (negated?_bang hny)]
  simp only
  rw [ruleN, ruleStep_negation hy (negated?_bang hx), Bool.not_not]

/-! ## What the two negations keep -/

/-- Where an expression may be converted, the doubled one is converted alike, with two more
nested steps. -/
def Keeps (c : Converter) : Spot → Option String → Json → Json → Prop
  | .anywhere, parent, e, e' =>
    ∀ n negated, (c.ruleN n e negated parent).Leads (c.ruleN (n + 2) e' negated parent)
  | .inside, parent, e, e' =>
    (∀ n negated, (c.ruleN n e negated parent).Leads (c.ruleN (n + 2) e' negated parent)) ∧
      ∃ op op', e.operation? = some op ∧ e'.operation? = some op' ∧ op'.name = op.name ∧
        ∀ key, c.index.conjunction? op.name = some key → ∀ n, List.Forall₂
          (fun a b => (c.ruleN n a false parent).Leads (c.ruleN (n + 2) b false parent)) op.args op'.args
  | .clause, parent, e, e' =>
    ∀ (r : ParsedRule) n negated, r.field.isGroup = true → some r.path = parent → r.having = some e →
        (foldHaving { r with having := some e' } negated).2 = (foldHaving r negated).2 ∧
          (c.groupBody ⟨c.ruleN n, c.valueN n⟩ (foldHaving r negated).1).Leads
            (c.groupBody ⟨c.ruleN (n + 2), c.valueN (n + 2)⟩
              (foldHaving { r with having := some e' } negated).1)

theorem convertHaving_keeps {path : String} {e e' : Json} (h : c.Keeps .inside (some path) e e') (n : Nat)
    (f : Field) :
    (c.convertHaving ⟨c.ruleN n, c.valueN n⟩ e path f).Leads
      (c.convertHaving ⟨c.ruleN (n + 2), c.valueN (n + 2)⟩ e' path f) := by
  obtain ⟨hlead, op, op', ho, ho', hname, hargs⟩ := h
  cases hk : c.index.conjunction? op.name with
  | none => exact convertHaving_leads_rule (by simp [ho, hk]) (by simp [ho', hname, hk]) (hlead n false) f
  | some key => exact convertHaving_leads_conjunction ho ho' hname hk (hargs key hk n) f

theorem forall₂_replaced (n : Nat) (parent : Option String) {before after : List Json} {a a' : Json}
    (h : (c.ruleN n a false parent).Leads (c.ruleN (n + 2) a' false parent)) :
    List.Forall₂ (fun a b => (c.ruleN n a false parent).Leads (c.ruleN (n + 2) b false parent))
      (before ++ a :: after) (before ++ a' :: after) := by
  have hsame : ∀ es : List Json, List.Forall₂
      (fun a b => (c.ruleN n a false parent).Leads (c.ruleN (n + 2) b false parent)) es es :=
    fun es => List.forall₂_same.mpr fun e _ => (c.leadingParts n 2).rule e false parent
  exact List.rel_append (hsame before) (.cons h (hsame after))

theorem keeps_negation {parent : Option String} {e e' x x' : Json} {rest : List Json}
    (he : e.operation? = some ⟨"!", x :: rest⟩) (he' : e'.operation? = some ⟨"!", x' :: rest⟩)
    (hx : c.isEmptinessTest (x :: rest) = false) (hx' : c.isEmptinessTest (x' :: rest) = false)
    (h : c.Keeps .anywhere parent x x') : c.Keeps .inside parent e e' := by
  refine ⟨fun n negated => ?_, _, _, he, he', rfl, fun key _ n => ?_⟩
  · cases n with
    | zero => exact Run.leads_stuck _
    | succ n =>
      rw [ruleN, ruleN, ruleStep_negation he (negated?_bang hx), ruleStep_negation he' (negated?_bang hx')]
      exact h n !negated
  · exact .cons (h n false) (List.forall₂_same.mpr fun e _ => (c.leadingParts n 2).rule e false parent)

theorem keeps_conjunction {parent : Option String} {e e' a a' : Json} {name key : String}
    {before after : List Json} (hne : name ≠ "!") (hk : c.index.conjunction? name = some key)
    (he : e.operation? = some ⟨name, before ++ a :: after⟩)
    (he' : e'.operation? = some ⟨name, before ++ a' :: after⟩) (h : c.Keeps .anywhere parent a a') :
    c.Keeps .inside parent e e' := by
  refine ⟨fun n negated => ?_, _, _, he, he', rfl, fun key _ n => forall₂_replaced n parent (h n false)⟩
  cases n with
  | zero => exact Run.leads_stuck _
  | succ n =>
    rw [ruleN, ruleN, ruleStep_conjunction he (negated?_of_ne hne) hk,
      ruleStep_conjunction he' (negated?_of_ne hne) hk]
    exact convertConjunction_leads (forall₂_replaced n parent (h n false)) key negated

/-- A rule with another clause, which is kept, is assembled alike. -/
theorem assembleRule_keeps {clause clause' : Json} {r : ParsedRule} (hr : r.having = some clause)
    (h : r.field.isGroup = true → c.Keeps .clause (some r.path) clause clause') (n : Nat) (negated : Bool)
    (parent : Option String) :
    (c.assembleRule ⟨c.ruleN n, c.valueN n⟩ r negated parent).Leads
      (c.assembleRule ⟨c.ruleN (n + 2), c.valueN (n + 2)⟩ { r with having := some clause' } negated
        parent) := by
  have hparts := c.leadingParts n 2
  simp only [assembleRule_eq]
  cases hg : r.field.isGroup with
  | false =>
    rw [foldHaving_of_not_isGroup hg, foldHaving_of_not_isGroup (r := { r with having := some clause' }) hg]
    exact finishRule_leads hparts rfl (fun hg' => by simp [hg] at hg') negated parent
  | true =>
    obtain ⟨hneg, hbody⟩ := h hg r n negated hg rfl hr
    -- the rules are the same when their clauses are left out, also with a negation taken off
    have hfold := foldHaving_eq r negated
    have hfold' := foldHaving_eq { r with having := some clause' } negated
    rw [hneg]
    refine finishRule_leads hparts ?_ (fun _ => hbody) _ parent
    rw [hfold, hfold']

theorem convertOp_keeps {e e' clause clause' : Json} {op op' : Operation} {parent : Option String}
    (hrule : FoundAlike Problem.kind (Corresponds (· = ·) (Swapped clause clause'))
      (c.parseRule e (.ofOperation op) parent) (c.parseRule e' (.ofOperation op') parent))
    (h : ∀ r, c.parseRule e (.ofOperation op) parent = .ok r → r.field.isGroup = true →
      r.having = some clause → c.Keeps .clause (some r.path) clause clause') (n : Nat) (negated : Bool) :
    (c.convertOp ⟨c.ruleN n, c.valueN n⟩ e op negated parent).Leads
      (c.convertOp ⟨c.ruleN (n + 2), c.valueN (n + 2)⟩ e' op' negated parent) := by
  unfold convertOp
  rcases foundAlike_cases hrule with ⟨r, r', hp, hp', hrr⟩ | ⟨p, p', hp, hp', hkind⟩
  · rw [hp, hp']
    rcases hrr.eq_or_swapped with rfl | ⟨hc, hr'⟩
    · exact assembleRule_leads (c.leadingParts n 2) r' negated parent
    · rw [hr']
      exact assembleRule_keeps hc (fun hg => h r hp hg hc) n negated parent
  · rw [hp, hp']
    exact Run.leads_fail hkind

theorem keeps_rule {parent : Option String} {e e' clause clause' : Json} {name : String}
    {args args' : List Json} {reversed : Bool} (hne : name ≠ "!") (hk : c.index.conjunction? name = none)
    (he : e.operation? = some ⟨name, args⟩) (he' : e'.operation? = some ⟨name, args'⟩)
    (hs : SwapsClause c clause clause' reversed (.ofOperation ⟨name, args⟩) (.ofOperation ⟨name, args'⟩))
    (hc : c.Counts parent reversed (.ofOperation ⟨name, args⟩) (.ofOperation ⟨name, args'⟩))
    (h : ∀ r, c.parseRule e (.ofOperation ⟨name, args⟩) parent = .ok r → r.field.isGroup = true →
      r.having = some clause → c.Keeps .clause (some r.path) clause clause') :
    c.Keeps .inside parent e e' := by
  refine ⟨fun n negated => ?_, _, _, he, he', rfl, fun key hkey _ => ?_⟩
  · cases n with
    | zero => exact Run.leads_stuck _
    | succ n =>
      rw [ruleN, ruleN, ruleStep_rule he (negated?_of_ne hne) hk, ruleStep_rule he' (negated?_of_ne hne) hk]
      exact convertOp_keeps (parseRule_of_swapsClause hs hc e e') h n negated
  · rw [hk] at hkey
    cases hkey

theorem keeps_clause {parent : Option String} {e e' : Json} (hne : e.opName? ≠ some "!")
    (h : c.Keeps .inside parent e e') : c.Keeps .clause parent e e' := by
  rintro r n negated hg rfl hr
  have hne' : e'.opName? ≠ some "!" := by
    obtain ⟨-, op, op', ho, ho', hname, -⟩ := h
    simpa [Json.opName?, ho, ho', hname] using hne
  rw [foldHaving_of_ne (r := r) (by simpa [hr] using hne),
    foldHaving_of_ne (r := { r with having := some e' }) (by simpa using hne')]
  refine ⟨rfl, ?_⟩
  simp only [groupBody, hr]
  exact convertHaving_keeps h n r.field

/-- One negation is taken off both clauses; what is left are the clauses that count. -/
theorem keeps_behind_negation {parent : Option String} {e e' x x' : Json} {rest : List Json}
    (he : e.operation? = some ⟨"!", x :: rest⟩) (he' : e'.operation? = some ⟨"!", x' :: rest⟩)
    (h : ∀ path, some path = parent → ∀ n (f : Field),
      (c.convertHaving ⟨c.ruleN n, c.valueN n⟩ x path f).Leads
        (c.convertHaving ⟨c.ruleN (n + 2), c.valueN (n + 2)⟩ x' path f)) :
    c.Keeps .clause parent e e' := by
  intro r n negated hg hp hr
  rw [foldHaving_of_bang hg hr he, foldHaving_of_bang (r := { r with having := some e' }) hg rfl he']
  refine ⟨rfl, ?_⟩
  simp only [groupBody, List.head?_cons]
  exact h r.path hp n r.field

/-- Two negations keep what an expression is converted to, wherever `Doubled` puts them. -/
theorem keeps_of_doubled (hbang : c.index.isVarKey "!" = false) {spot : Spot} {parent : Option String}
    {e e' : Json} (h : c.Doubled spot parent e e') : c.Keeps spot parent e e' := by
  -- on the derivation: what is kept depends on the spot, so a clause is never taken for a rule
  induction h with
  | here hx hy he' =>
    intro n negated
    rw [ruleN_doubled hbang hx hy he']
    exact Run.leads_refl _
  | inside h ih => exact ih.1
  | negation he he' hx h ih =>
    exact keeps_negation he he' hx (isEmptinessTest_cons (opName_of_doubled hbang h) hx) ih
  | conjunction _ _ hne hk he he' h ih => exact keeps_conjunction hne hk he he' ih
  | rule hne hk he he' hs hc h ih => exact keeps_rule hne hk he he' hs hc ih
  | clause hne h ih => exact keeps_clause hne ih
  | negatedClause he he' h ih =>
    refine keeps_behind_negation he he' ?_
    rintro path rfl n f
    exact convertHaving_keeps ih n f
  | behindNegation he he' hx hk hb hy hx' =>
    refine keeps_behind_negation he he' fun path _ n f => ?_
    refine convertHaving_leads_rule hk (by simp [hx', hb]) ?_ f
    simp only [ruleN_doubled hbang hx hy hx']
    exact Run.leads_refl _

/-! ## Imports -/

theorem operation?_isSome_of_doubled {spot : Spot} {parent : Option String} {e e' : Json}
    (h : c.Doubled spot parent e e') : e'.operation?.isSome = true := by
  induction h <;> simp_all

theorem isTruthy_of_operation? {e : Json} (h : e.operation?.isSome = true) : e.isTruthy = true := by
  cases e with
  | obj entries => rfl
  | _ => cases h

/-- Two negations in front of a part in rule position, other than at the clause of a
collection, leave the tree of an expression as it is, and problems of the same kinds. -/
theorem import_of_doubled (c : Converter) (hbang : c.index.isVarKey "!" = false) {x e e' : Json}
    (hr : Json.Replaces x (Json.bang (Json.bang x)) e e') (h : c.Doubled .anywhere none e e')
    (ht : e.isTruthy = true) {ι : Type} {ids : Nat → ι} {start : Nat} {o : Outcome ι}
    (ho : c.importTree ids start e = some o) :
    ∃ o', c.importTree ids start e' = some o' ∧ o'.tree = o.tree ∧
      o'.problems.map Problem.kind = o.problems.map Problem.kind := by
  have hsize : c.limit e' = c.limit e + 2 := by
    have := Json.size_of_replaces hr
    simp only [Json.size_bang] at this
    simp only [limit]
    omega
  have ht' : e'.isTruthy = true := isTruthy_of_operation? (operation?_isSome_of_doubled h)
  have hlead : (c.treeN (c.limit e) e).Leads (c.treeN (c.limit e') e') := by
    rw [treeN, treeN, if_pos ht, if_pos ht', hsize]
    exact Run.leads_andThen (keeps_of_doubled hbang h (c.limit e) false) fun _ => Run.leads_refl _
  obtain ⟨o₁, ho₁, rfl⟩ := Option.map_eq_some_iff.mp ho
  obtain ⟨d, hd, rfl⟩ := Option.map_eq_some_iff.mp ho₁
  obtain ⟨d', hd', hvalue, hnext, hkinds⟩ := hlead 0 d hd
  refine ⟨_, by rw [importTree, importN, hd']; rfl, ?_, hkinds⟩
  simp only [Outcome.rename, hvalue]

theorem swapsClause_having {name : String} {list clause clause' : Json}
    (hg : c.isGroupOp ⟨name, 2, [list, clause]⟩ = true)
    (hg' : c.isGroupOp ⟨name, 2, [list, clause']⟩ = true) :
    SwapsClause c clause clause' false (.ofOperation ⟨name, [list, clause]⟩)
      (.ofOperation ⟨name, [list, clause']⟩) := by
  have hs : RuleShape.ofOperation ⟨name, [list, clause]⟩ = ⟨name, 2, [list, clause]⟩ :=
    ofOperation_of_isGroupOp hg
  have hs' : RuleShape.ofOperation ⟨name, [list, clause']⟩ = ⟨name, 2, [list, clause']⟩ :=
    ofOperation_of_isGroupOp hg'
  rw [hs, hs']
  exact ⟨rfl, rfl, by rw [hg, hg'], .inl ⟨hg, some list, [], by simp [layout], by simp [layout]⟩⟩

theorem counts_having {name : String} {list clause clause' : Json}
    (hg : c.isGroupOp ⟨name, 2, [list, clause]⟩ = true)
    (hg' : c.isGroupOp ⟨name, 2, [list, clause']⟩ = true) (hrev : c.index.operatorKeys ⟨name, 0, true⟩ = [])
    (parent : Option String) :
    c.Counts parent false (.ofOperation ⟨name, [list, clause]⟩) (.ofOperation ⟨name, [list, clause']⟩) := by
  have hfails : ∀ x, c.isGroupOp ⟨name, 2, [list, x]⟩ = true →
      c.tryParse (.ofOperation ⟨name, [list, x]⟩) parent true = .error none := by
    intro x hx
    have hs : RuleShape.ofOperation ⟨name, [list, x]⟩ = ⟨name, 2, [list, x]⟩ := ofOperation_of_isGroupOp hx
    rw [hs]
    refine tryParse_of_no_keys (fun arity harity => ?_) parent
    rw [wantedArity?, if_pos hx, Option.some.injEq] at harity
    subst harity
    exact hrev
  exact .inr ⟨none, none, hfails clause hg, hfails clause' hg', rfl⟩

/-- In a conjunction that is a having clause, the second rule with two negations in front. -/
theorem import_of_doubled_in_having_clause :
    let clause e := Cars.call "and" [Cars.equals "vendor" "vw", e]
    let x := Cars.equals "year" "1999"
    let x' := Json.bang (Json.bang x)
    Json.Replaces x x' (Cars.ofCars "some" (clause x)) (Cars.ofCars "some" (clause x')) ∧
      Cars.converter.Doubled .anywhere none (Cars.ofCars "some" (clause x)) (Cars.ofCars "some" (clause x')) ∧
      ∃ o o', Cars.converter.importTree (fun n => n) 1 (Cars.ofCars "some" (clause x)) = some o ∧
        Cars.converter.importTree (fun n => n) 1 (Cars.ofCars "some" (clause x')) = some o' ∧
        o'.tree = o.tree ∧ o'.problems.map Problem.kind = o.problems.map Problem.kind := by
  intro clause x x'
  have hr : Json.Replaces x x' (Cars.ofCars "some" (clause x)) (Cars.ofCars "some" (clause x')) :=
    .member [] [] (.item [_] [] (.member [] [] (.item [_] [] .here)))
  have hclause : Cars.converter.Doubled .clause (some "cars") (clause x) (clause x') :=
    .clause (by decide +kernel)
      (.conjunction [_] [] (by decide) (by rfl) rfl rfl (.here (by decide +kernel) rfl rfl))
  have hparse : Cars.converter.parseRule (Cars.ofCars "some" (clause x))
      (.ofOperation ⟨"some", [Cars.read "cars", clause x]⟩) none =
        .ok ⟨"cars", Cars.cars, "some", [], some (clause x)⟩ := by rfl
  have hgroup : ∀ e, Cars.converter.isGroupOp ⟨"some", 2, [Cars.read "cars", e]⟩ = true := fun e => by rfl
  have hd : Cars.converter.Doubled .anywhere none (Cars.ofCars "some" (clause x))
      (Cars.ofCars "some" (clause x')) := by
    refine .inside (.rule (by decide) (by decide +kernel) rfl rfl (swapsClause_having (hgroup _) (hgroup _))
      (counts_having (hgroup _) (hgroup _) (by decide +kernel) none) ?_)
    intro r hr' _ _
    cases hparse.symm.trans hr'
    exact hclause
  obtain ⟨t, ⟨o, ho, -, -⟩, -⟩ := exists_importsAs (c := Cars.converter) (fun _ => true)
    (Cars.ofCars "some" (clause x)) (by decide +kernel)
  obtain ⟨o', ho', htree, hkinds⟩ := import_of_doubled Cars.converter (by decide +kernel) hr hd rfl ho
  exact ⟨hr, hd, o, o', ho, ho', htree, hkinds⟩

/-- Some cars are of a vendor, with two negations in front of the clause, and some cars are
not of a vendor and a year, with two more in front of the conjunction. -/
theorem negated_clauses_are_kept :
    let x := Cars.equals "vendor" "vw"
    let y := Cars.call "and" [Cars.equals "vendor" "vw", Cars.equals "year" "1999"]
    Cars.converter.index.isVarKey "!" = false ∧
      Json.Replaces x (Json.bang (Json.bang x)) (Cars.ofCars "some" x)
        (Cars.ofCars "some" (Json.bang (Json.bang x))) ∧
      (∃ t t', Cars.converter.ImportsAs (fun n => n) 1 (Cars.ofCars "some" x) t ∧
        Cars.converter.ImportsAs (fun n => n) 1 (Cars.ofCars "some" (Json.bang (Json.bang x))) t' ∧
        t.sameShape t' = false) ∧
      Json.Replaces y (Json.bang (Json.bang y)) (Cars.ofCars "some" (Json.bang y))
        (Cars.ofCars "some" (Json.bang (Json.bang (Json.bang y)))) ∧
      ∃ t t', Cars.converter.ImportsAs (fun n => n) 1 (Cars.ofCars "some" (Json.bang y)) t ∧
        Cars.converter.ImportsAs (fun n => n) 1 (Cars.ofCars "some" (Json.bang (Json.bang (Json.bang y)))) t' ∧
        t.sameShape t' = false := by
  intro x y
  refine ⟨by decide +kernel, .member [] [] (.item [_] [] .here), ?_,
    .member [] [] (.item [_] [] (.member [] [] .here)), ?_⟩
  · obtain ⟨t, t', ht, ht', hne⟩ := exists_importsAs_pair (c := Cars.converter) (fun t t' => !t.sameShape t')
      (Cars.ofCars "some" x) (Cars.ofCars "some" (Json.bang (Json.bang x))) (by decide +kernel)
    exact ⟨t, t', ht, ht', by simpa using hne⟩
  · obtain ⟨t, t', ht, ht', hne⟩ := exists_importsAs_pair (c := Cars.converter) (fun t t' => !t.sameShape t')
      (Cars.ofCars "some" (Json.bang y)) (Cars.ofCars "some" (Json.bang (Json.bang (Json.bang y))))
      (by decide +kernel)
    exact ⟨t, t', ht, ht', by simpa using hne⟩

end Converter
end RuleTree
