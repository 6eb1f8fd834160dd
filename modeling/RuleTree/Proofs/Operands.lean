/-
  RuleTree.Proofs.Operands — the operands of a rule.

  An operator is looked up by the number of arguments a rule is written with; its operands
  are then picked by one of four layouts: after the field, in front of it, on both sides of
  it, or out of the `in` under an `all`. Nothing compares what was picked with the number.

  - `valueOperands` are the arguments of a rule but its field, and `operandsLeft` those that
    its layout does not pick: all of them with an operator on collections, and all but the
    first one in front of a field or in an all-in pair. What is picked comes before what is
    left (`valueOperands_eq`), and what an operator declares is what is picked and left
    together, but for operators on collections (`arity_of_tryParse`).
  - `rule_of_convertOp`: a rule on no collection has one operand for each value picked.
  - `carries_iff_of_convertOp`: it carries what its operator declares, each operand the value
    of its argument, exactly when nothing was left.
  A value behind the field of an operator with arguments in reverse is left without a word
  (`operand_behind_field_left_out`).
-/

import RuleTree.Proofs.Operators
import RuleTree.Proofs.Parts
import RuleTree.Proofs.Sameness
import RuleTree.Proofs.Step

namespace RuleTree
namespace Converter

variable {c : Converter} {s : RuleShape} {e : Json} {op : Operation} {parent : Option String}
  {reversed : Bool} {r : ParsedRule}

/-! ## Arguments -/

/-- The list of values in the `in` under an `all`. -/
def allInList? (op : Operation) : Option Json :=
  match op.name == "all", op.args[1]?.bind Json.operation? with
  | true, some ⟨"in", _ :: list :: _⟩ => some list
  | _, _ => none

/-- The arguments of a rule, with the list of an all-in pair in the place of its `in`. -/
def ruleArgs (op : Operation) : List Json :=
  match allInList? op with
  | some list => op.args.set 1 list
  | none => op.args

/-- The arguments of a rule other than its field. -/
def valueOperands (op : Operation) (reversed : Bool) : List Json :=
  (ruleArgs op).eraseIdx (fieldPlace (.ofOperation op) reversed)

/-- The values that the layout of a rule does not pick. -/
def operandsLeft (c : Converter) (op : Operation) (reversed : Bool) : List Json :=
  let s := RuleShape.ofOperation op
  if c.isGroupOp s then valueOperands op reversed
  else if (allInList? op).isSome || reversed && !isBetween s then (valueOperands op reversed).tail
  else []

theorem ofOperation_of_allIn {list : Json} (h : allInList? op = some list) :
    ∃ first second rest, op.args = first :: second :: rest ∧
      RuleShape.ofOperation op = ⟨"all-in", op.args.length, [first, list]⟩ := by
  unfold allInList? at h
  split at h
  · rename_i more hname hin
    cases h
    obtain ⟨second, hsecond, hop⟩ := Option.bind_eq_some_iff.mp hin
    obtain ⟨first, rest, hargs⟩ : ∃ first rest, op.args = first :: second :: rest := by
      match hargs : op.args with
      | [] => simp [hargs] at hsecond
      | [first] => simp [hargs] at hsecond
      | first :: x :: rest =>
        have hx : x = second := by simpa [hargs] using hsecond
        exact ⟨first, rest, by rw [hx]⟩
    refine ⟨first, second, rest, hargs, ?_⟩
    simp only [RuleShape.ofOperation, hname, hargs, hop]
  · cases h

theorem ofOperation_of_not_allIn (h : allInList? op = none) :
    RuleShape.ofOperation op = ⟨op.name, op.args.length, op.args⟩ := by
  unfold RuleShape.ofOperation
  split
  · rename_i first second rest hname hargs
    split
    · rename_i x list more hin
      simp [allInList?, hname, hargs, hin] at h
    · rfl
  · rfl

theorem isBetween_allIn (arity : Nat) (values : List Json) : isBetween ⟨"all-in", arity, values⟩ = false := rfl

theorem arity_ofOperation : (RuleShape.ofOperation op).arity = op.args.length := by
  cases h : allInList? op with
  | none => rw [ofOperation_of_not_allIn h]
  | some list =>
    obtain ⟨_, _, _, -, hs⟩ := ofOperation_of_allIn h
    rw [hs]

theorem length_values_le : (RuleShape.ofOperation op).values.length ≤ op.args.length := by
  cases h : allInList? op with
  | none => rw [ofOperation_of_not_allIn h]
  | some list =>
    obtain ⟨first, second, rest, hargs, hs⟩ := ofOperation_of_allIn h
    rw [hs, hargs]
    simp

theorem length_ruleArgs : (ruleArgs op).length = op.args.length := by
  unfold ruleArgs
  split
  · exact List.length_set
  · rfl

/-- All arguments but one are values. -/
theorem length_valueOperands {x : Json} (hx : (layout (.ofOperation op) reversed).1 = some x) :
    (valueOperands op reversed).length = op.args.length - 1 := by
  rw [layout_field] at hx
  have hplace := (List.getElem?_eq_some_iff.mp hx).1
  have hle : (RuleShape.ofOperation op).values.length ≤ op.args.length := length_values_le
  rw [valueOperands, List.length_eraseIdx_of_lt (by rw [length_ruleArgs]; omega), length_ruleArgs]

theorem valueOperands_of_allIn {list first second : Json} {rest : List Json} (hin : allInList? op = some list)
    (hargs : op.args = first :: second :: rest) :
    valueOperands op reversed = if reversed then first :: rest else list :: rest := by
  obtain ⟨_, _, _, -, hs⟩ := ofOperation_of_allIn hin
  simp only [valueOperands, ruleArgs, hin, hs, fieldPlace, isBetween_allIn, hargs]
  cases reversed with
  | true => rfl
  | false => rfl

theorem valueOperands_of_not_allIn (hin : allInList? op = none) :
    valueOperands op reversed = op.args.eraseIdx (fieldPlace (.ofOperation op) reversed) := by
  simp only [valueOperands, ruleArgs, hin]

theorem operandsLeft_of_not_isGroupOp (hg : c.isGroupOp (.ofOperation op) = false) :
    c.operandsLeft op reversed =
      if (allInList? op).isSome || reversed && !isBetween (.ofOperation op) then
        (valueOperands op reversed).tail
      else [] := by
  simp [operandsLeft, hg]

/-- The layout picks values up to those that it leaves. -/
theorem picked_append_left {x : Json} (hx : (layout (.ofOperation op) reversed).1 = some x)
    (hg : c.isGroupOp (.ofOperation op) = false) :
    valueOperands op reversed = (layout (.ofOperation op) reversed).2 ++ c.operandsLeft op reversed := by
  rw [operandsLeft_of_not_isGroupOp hg]
  cases hin : allInList? op with
  | some list =>
    obtain ⟨first, second, rest, hargs, hs⟩ := ofOperation_of_allIn hin
    rw [valueOperands_of_allIn hin hargs, hs, layout_of_not_isBetween (isBetween_allIn _ _)]
    cases reversed with
    | true => rfl
    | false => rfl
  | none =>
    have hs := ofOperation_of_not_allIn hin
    rw [valueOperands_of_not_allIn hin]
    by_cases hb : isBetween (.ofOperation op) = true
    · obtain ⟨low, field, high, hargs, hlayout⟩ := layout_of_isBetween hb reversed
      rw [hs] at hargs
      simp [hb, hlayout, fieldPlace, show op.args = [low, field, high] from hargs]
    · rw [Bool.not_eq_true] at hb
      rw [layout_of_not_isBetween hb] at hx ⊢
      rw [fieldPlace, hb]
      simp only [hs] at hx ⊢
      cases reversed with
      | false => simp
      | true =>
        -- there is a second argument, for it is the field
        cases hargs : op.args with
        | nil => simp [hargs] at hx
        | cons first more =>
          cases more with
          | nil => simp [hargs] at hx
          | cons field rest => simp

/-! ## Values picked and values declared -/

/-- The values of a rule that is found come first among its arguments, and all others are
left. -/
theorem valueOperands_eq (h : c.tryParse (.ofOperation op) parent reversed = .ok r) :
    valueOperands op reversed = r.args ++ c.operandsLeft op reversed := by
  obtain ⟨_, fieldExpr, operand, field, key, -, hfield, -, -, -, -, rfl⟩ := tryParse_eq_ok.mp h
  by_cases hg : c.isGroupOp (.ofOperation op) = true
  · simp [found, operandsLeft, hg]
  · rw [Bool.not_eq_true] at hg
    simp only [found, hg]
    exact picked_append_left hfield hg

/-- The operator of a rule is declared with as many values as the rule must have. -/
theorem declared_of_tryParse (hix : c.index = Index.ofSchema c.schema)
    (hn : c.schema.operators.keys.Nodup) (h : c.tryParse s parent reversed = .ok r) :
    ∃ o, c.schema.operators.get? r.op = some o ∧ c.wantedArity? s = some o.arity := by
  obtain ⟨arity, _, _, _, key, harity, -, -, -, -, hch, rfl⟩ := tryParse_eq_ok.mp h
  have hkey := chooseOp_mem hch
  rw [hix, Index.operatorKeys_ofSchema] at hkey
  obtain ⟨⟨key', o⟩, ho, hkeys⟩ := List.mem_map.mp hkey
  obtain ⟨hmem, hsig⟩ := List.mem_filter.mp ho
  obtain ⟨-, harity', -⟩ := of_decide_eq_true hsig
  cases hkeys
  exact ⟨o, lookup_of_mem hn hmem, by rw [harity, harity']⟩

/-- An operator declares the values that are picked and the ones that are left, unless it is
about the elements of a collection: then it declares none. -/
theorem arity_of_tryParse (hix : c.index = Index.ofSchema c.schema) (hn : c.schema.operators.keys.Nodup)
    (h : c.tryParse (.ofOperation op) parent reversed = .ok r) :
    (c.schema.operators.get? r.op).map Operator.arity =
      some (r.args.length + if c.isGroupOp (.ofOperation op) then 0 else (c.operandsLeft op reversed).length) := by
  obtain ⟨o, ho, hwanted⟩ := declared_of_tryParse hix hn h
  have hvalues := congrArg List.length (valueOperands_eq h)
  obtain ⟨_, fieldExpr, operand, field, key, -, hfield, -, -, -, -, rfl⟩ := tryParse_eq_ok.mp h
  rw [ho, Option.map_some, Option.some.injEq]
  unfold wantedArity? at hwanted
  by_cases hg : c.isGroupOp (.ofOperation op) = true
  · rw [if_pos hg, Option.some.injEq] at hwanted
    simp [found, hg, ← hwanted]
  · rw [if_neg hg, arity_ofOperation] at hwanted
    rw [if_neg hg]
    split at hwanted
    · cases hwanted
    rw [Option.some.injEq] at hwanted
    rw [length_valueOperands hfield, List.length_append] at hvalues
    omega

/-! ## The rule that is made -/

section Made

variable {sub : SubRuns}

/-- A rule on a collection becomes a rule group, or a group around one. -/
theorem finishRule_of_isGroup (hg : r.field.isGroup = true) (negated : Bool) :
    Run.Always (∀ m ∈ ·, m.kind ≠ .rule) (c.finishRule sub r negated parent) := by
  refine Run.always_andThen (P := fun _ => True) (fun _ _ _ _ _ => trivial) (by simp) fun operands _ => ?_
  refine Run.always_andThen (P := fun m => m.kind ≠ .rule) ?_ (by simp) fun m hm => ?_
  · unfold ruleNode
    rw [if_pos hg]
    refine Run.always_andThen (P := fun _ => True) (fun _ _ _ _ _ => trivial) (by simp) fun g _ => ?_
    exact Run.always_pure (by simp [Node.kind])
  · split
    · refine Run.always_bind (P := fun _ => True) (fun _ _ _ => trivial) fun t _ => ?_
      exact Run.always_pure (by simp [Tree.root, Node.kind])
    · exact Run.always_pure (by simpa using hm)

/-- Any other rule that is not negated keeps its operator and has a value for each argument. -/
theorem finishRule_of_not_isGroup (hg : r.field.isGroup = false) :
    Run.Always (∀ m ∈ ·, ∃ id operands,
        m = .rule id ⟨r.path, r.op, operands, operands.findSome? Operand.async⟩ ∧
        List.Forall₂ (fun v o =>
          (sub.value v (.ofField r.field (c.widgetFor r.path r.op)) parent).Yields o) r.args operands)
      (c.finishRule sub r false parent) := by
  refine Run.always_andThen (Run.always_collect_yields _ _) (by simp) fun operands hoperands => ?_
  have hnode : c.ruleNode sub r r.op false operands = Run.draw.bind fun id =>
      Run.pure (some (.rule id ⟨r.path, r.op, operands, operands.findSome? Operand.async⟩)) := by
    unfold ruleNode
    rw [hg]
    rfl
  show Run.Always _ ((c.ruleNode sub r r.op false operands).andThen fun m => Run.pure (some m))
  rw [hnode]
  refine Run.always_andThen (P := fun m => ∃ id,
    m = .rule id ⟨r.path, r.op, operands, operands.findSome? Operand.async⟩) ?_ (by simp) fun m hm => ?_
  · exact Run.always_bind Run.always_draw fun id _ => Run.always_pure (by simp)
  · obtain ⟨id, rfl⟩ := hm
    refine Run.always_pure ?_
    intro m hm
    cases hm
    exact ⟨id, operands, rfl, hoperands⟩

/-- A rule node is made for a rule on no collection; it has the path and the operator found,
and an operand for each of the values picked. -/
theorem rule_of_convertOp {n : Nat} {d : Done (Option (Node Nat))} {id : Nat} {p : RuleProps}
    (h : c.convertOp sub e op false parent n = some d) (hp : d.value = some (.rule id p)) :
    ∃ r, c.parseRule e (.ofOperation op) parent = .ok r ∧ r.field.isGroup = false ∧
      p.field = r.path ∧ p.operator = r.op ∧
      List.Forall₂ (fun v o =>
        (sub.value v (.ofField r.field (c.widgetFor r.path r.op)) parent).Yields o) r.args p.args := by
  cases hr : c.parseRule e (.ofOperation op) parent with
  | error problem =>
    rw [convertOp, hr] at h
    cases h
    cases hp
  | ok r =>
    rw [convertOp, hr] at h
    replace h : c.finishRule sub (foldHaving r false).1 (foldHaving r false).2 parent n = some d := h
    by_cases hg : r.field.isGroup = true
    · have hg' : (foldHaving r false).1.field.isGroup = true := by
        rw [foldHaving_eq]
        exact hg
      exact absurd rfl (finishRule_of_isGroup hg' _ n d h _ hp)
    · rw [Bool.not_eq_true] at hg
      rw [foldHaving_of_not_isGroup hg] at h
      obtain ⟨id', operands, he, hoperands⟩ := finishRule_of_not_isGroup hg n d h _ hp
      cases he
      exact ⟨r, rfl, hg, rfl, rfl, hoperands⟩

end Made

/-! ## What a rule carries -/

/-- The operand is the value of an expression for a rule on a field. -/
def IsValue (c : Converter) (limit : Nat) (parent : Option String) (f : Field) (p : RuleProps) (v : Json)
    (o : Operand) : Prop :=
  (c.valueN limit v (.ofField f (c.widgetFor p.field p.operator)) parent).Yields o

/-- A rule on a field has as many operands as its operator declares, and they are these
values, each in its place. -/
structure Carries (c : Converter) (limit : Nat) (parent : Option String) (f : Field) (p : RuleProps)
    (values : List Json) : Prop where
  count : (c.schema.operators.get? p.operator).map Operator.arity = some p.args.length
  converted : List.Forall₂ (c.IsValue limit parent f p) values p.args

/-- A rule has the values picked and none of those left; it carries what its operator
declares when none are left, and only then. -/
theorem carries_iff_of_convertOp (hix : c.index = Index.ofSchema c.schema)
    (hn : c.schema.operators.keys.Nodup) {limit n : Nat} {d : Done (Option (Node Nat))} {id : Nat} {p : RuleProps}
    (h : c.convertOp ⟨c.ruleN limit, c.valueN limit⟩ e op false parent n = some d)
    (hp : d.value = some (.rule id p)) :
    ∃ r reversed, c.foundRule? (.ofOperation op) parent = some (r, reversed) ∧
      p.field = r.path ∧ p.operator = r.op ∧ r.field.isGroup = false ∧
      valueOperands op reversed = r.args ++ c.operandsLeft op reversed ∧
      List.Forall₂ (c.IsValue limit parent r.field p) r.args p.args ∧
      (c.Carries limit parent r.field p (valueOperands op reversed) ↔ c.operandsLeft op reversed = []) := by
  obtain ⟨r, hr, hg, hfield, hop, hargs⟩ := rule_of_convertOp h hp
  obtain ⟨reversed, hfound⟩ := foundRule?_of_parseRule hr
  have htry := tryParse_of_foundRule? hfound
  have hvalues := valueOperands_eq htry
  have harity := arity_of_tryParse hix hn htry
  have hlen := hargs.length_eq
  rw [← hfield, ← hop] at hargs
  refine ⟨r, reversed, hfound, hfield, hop, hg, hvalues, hargs, ?_⟩
  constructor
  · intro hcarries
    have hall := hcarries.converted.length_eq
    rw [hvalues, List.length_append] at hall
    exact List.eq_nil_of_length_eq_zero (by omega)
  · intro hnone
    rw [hvalues, hnone, List.append_nil]
    rw [hnone] at harity
    refine ⟨?_, hargs⟩
    rw [hop, harity]
    simp [hlen]

/-- The rule for a red color carries its only value. -/
theorem isRed_carries_its_value :
    ∃ d id p f,
      Paints.converter.convertOp ⟨Paints.converter.ruleN 1, Paints.converter.valueN 1⟩
          (Paints.written Paints.isRed) Paints.isRed false none 0 = some d ∧
        d.value = some (.rule id p) ∧ Paints.converter.Carries 1 none f p [.str "red"] := by
  have hrun : (Paints.converter.convertOp ⟨Paints.converter.ruleN 1, Paints.converter.valueN 1⟩
      (Paints.written Paints.isRed) Paints.isRed false none 0).any
        (fun d => d.value.any fun m => m.kind == .rule) = true := by
    decide +kernel
  have hdirect : (Paints.converter.foundRule? (.ofOperation Paints.isRed) none).all
      (fun found => found.2 == false) = true := by
    decide +kernel
  obtain ⟨d, hd, hrule⟩ := (Option.any_eq_true _ _).mp hrun
  obtain ⟨m, hm, hkind⟩ := (Option.any_eq_true _ _).mp hrule
  cases m with
  | group => cases hkind
  | ruleGroup => cases hkind
  | rule id p =>
    obtain ⟨r, reversed, hfound, -, -, -, -, -, hiff⟩ :=
      carries_iff_of_convertOp (c := Paints.converter) rfl (by decide) hd hm
    have hreversed : reversed = false := by simpa [hfound] using hdirect
    subst hreversed
    exact ⟨d, id, p, r.field, hd, hm, hiff.mpr rfl⟩

/-- The second of the two values that `in` declares stands behind the field, and is gone
without a problem. -/
theorem operand_behind_field_left_out :
    ∃ d id p,
      Paints.converter.convertOp ⟨Paints.converter.ruleN 1, Paints.converter.valueN 1⟩
          (Paints.written Paints.redOrRose) Paints.redOrRose false none 0 = some d ∧
        d.value = some (.rule id p) ∧ d.problems = [] ∧
        (Paints.schema.operators.get? p.operator).map Operator.arity = some 2 ∧
        valueOperands Paints.redOrRose true = [.str "red", .str "rose"] ∧ p.args.length = 1 := by
  have hrun : (Paints.converter.convertOp ⟨Paints.converter.ruleN 1, Paints.converter.valueN 1⟩
      (Paints.written Paints.redOrRose) Paints.redOrRose false none 0).any (fun d =>
        d.problems.isEmpty && d.value.any fun m => m.kind == .rule && m.args.length == 1 &&
          m.operator?.any fun key => (Paints.schema.operators.get? key).map Operator.arity == some 2) = true := by
    decide +kernel
  obtain ⟨d, hd, hrule⟩ := (Option.any_eq_true _ _).mp hrun
  obtain ⟨hproblems, hrule⟩ := (Bool.and_eq_true _ _).mp hrule
  obtain ⟨m, hm, hrule⟩ := (Option.any_eq_true _ _).mp hrule
  obtain ⟨hargs, hcount⟩ := (Bool.and_eq_true _ _).mp hrule
  obtain ⟨hkind, hlen⟩ := (Bool.and_eq_true _ _).mp hargs
  cases m with
  | group => cases hkind
  | ruleGroup => cases hkind
  | rule id p =>
    have hdeclared : (Paints.schema.operators.get? p.operator).map Operator.arity = some 2 := by
      simpa [Node.operator?] using hcount
    exact ⟨d, id, p, hd, hm, List.isEmpty_iff.mp hproblems, hdeclared, rfl, beq_iff_eq.mp hlen⟩

end Converter
end RuleTree
