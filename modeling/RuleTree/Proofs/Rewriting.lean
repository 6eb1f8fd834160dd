/-
  RuleTree.Proofs.Rewriting — expressions rewritten argument by argument.

  A rewriting that keeps the names of operations and leaves literals alone (`Recasts`) shows
  in a conversion only where something is looked at: in what the expression of the field
  names, in the having clauses, in the values and in what a value reads.
  - `ofOperation_mapIdx`: rewriting the arguments of an operation rewrites the values of its
    rule, each by its place.
  - `tryParse_mapValues`: a try at the rewritten values finds a rule that corresponds, or fails
    for a reason of the same kind, when the expression of the field names the same.
  - `convertOp_leads_of_foundAlike`, `valueStep_leads_of_args`: rules that correspond, and
    operations whose arguments do, end alike in a step when their parts do.
  - `endAlike_of_leads`: where no hook keeps a conversion going it is enough that one ends
    wherever the other does.
-/

import RuleTree.Proofs.Ending
import RuleTree.Proofs.FoundAlike
import RuleTree.Proofs.Operands

namespace RuleTree

open Filter

/-! ## Runs that end alike -/

namespace Run

variable {α : Type} {x y : Nat → Run α}

/-- Both runs end, with the same value, the same next number and problems of the same kinds. -/
def EndAlike (x y : Run α) : Prop :=
  ∀ n, ∃ d d', x n = some d ∧ y n = some d' ∧ d'.value = d.value ∧ d'.next = d.next ∧
    d'.problems.map Problem.kind = d.problems.map Problem.kind

/-- Of two runs that settle, one following the other, each can be looked at where it has
settled. -/
theorem endAlike_of_settles {s s' k k' : Nat} (hx : Settles (𝓟 (Set.Ici s)) x) (hy : Settles (𝓟 (Set.Ici s')) y)
    (h : ∀ k, (x k).Leads (y k)) (hk : s ≤ k) (hk' : s' ≤ k') : (x k).EndAlike (y k') := by
  intro n
  obtain ⟨d, hd⟩ := hx n
  obtain ⟨d', hd'⟩ := hy n
  rw [eventually_principal] at hd hd'
  obtain ⟨e, he, hvalue, hnext, hkinds⟩ := h (max s s') n d (hd _ (Nat.le_max_left s s'))
  have hsame : e = d' := Option.some.inj (he.symm.trans (hd' _ (Nat.le_max_right s s')))
  subst hsame
  exact ⟨d, e, hd k hk, hd' k' hk', hvalue, hnext, hkinds⟩

/-- Runs whose values differ in some respect do not end alike. -/
theorem not_endAlike {x y : Run α} (P : α → Bool) (hx : (x 0).any (fun d => P d.value) = true)
    (hy : (y 0).any (fun d => !P d.value) = true) : ¬ x.EndAlike y := by
  intro h
  obtain ⟨d, d', hd, hd', hvalue, -⟩ := h 0
  rw [hd, Option.any_some] at hx
  rw [hd', Option.any_some, hvalue, hx] at hy
  cases hy

end Run

/-! ## Rewritten arguments -/

/-- Rewriting makes of an operation one of the same name, and leaves literals alone. -/
structure Recasts (U : Json → Json → Prop) : Prop where
  opName? : ∀ a a', U a a' → a'.opName? = a.opName?
  literal : ∀ a a', U a a' → a.operation? = none → a' = a

namespace Recasts

variable {U : Json → Json → Prop} {a a' : Json} {args args' : List Json}

theorem mono {U' : Json → Json → Prop} (hU : Recasts U) (h : ∀ a a', U' a a' → U a a') : Recasts U' where
  opName? a a' ha := hU.opName? a a' (h a a' ha)
  literal a a' ha := hU.literal a a' (h a a' ha)

theorem operation? (hU : Recasts U) (h : U a a') {op : Operation} (ho : a.operation? = some op) :
    ∃ args, a'.operation? = some ⟨op.name, args⟩ := by
  have hname := hU.opName? a a' h
  rw [Json.opName?, Json.opName?, ho, Option.map_some] at hname
  obtain ⟨⟨name, args⟩, ho', rfl⟩ := Option.map_eq_some_iff.mp hname
  exact ⟨args, ho'⟩

theorem isOperation (hU : Recasts U) (h : U a a') : a'.isOperation = a.isOperation := by
  have hname := congrArg Option.isSome (hU.opName? a a' h)
  simpa [Json.opName?, Json.isOperation] using hname

/-- Text stays, and nothing else becomes text. -/
theorem str_iff (hU : Recasts U) (h : U a a') (s : String) : a' = .str s ↔ a = .str s := by
  constructor
  · rintro rfl
    have hname : Json.opName? a = none := (hU.opName? _ _ h).symm
    have ho : a.operation? = none := by simpa [Json.opName?] using hname
    exact (hU.literal _ _ h ho).symm
  · rintro rfl
    exact hU.literal _ _ h rfl

end Recasts

/-- A rewriting by a function also rewrites the list in an `in`. -/
structure KeepsNames (g : Json → Json) : Prop where
  recasts : Recasts fun a a' => a' = g a
  list : ∀ a args, a.operation? = some ⟨"in", args⟩ →
    ∃ args', (g a).operation? = some ⟨"in", args'⟩ ∧ args'[1]? = args[1]?.map g

theorem keepsNames_id : KeepsNames fun a => a where
  recasts := ⟨by rintro a _ rfl; rfl, by rintro a _ rfl _; rfl⟩
  list := fun a args ha => ⟨args, ha, by simp⟩

/-- The shape with its values rewritten by their places. -/
def RuleShape.mapValues (g : Nat → Json → Json) (s : RuleShape) : RuleShape :=
  { s with values := s.values.mapIdx g }

namespace Converter

variable {c : Converter} {s : RuleShape} {g : Nat → Json → Json} {op : Operation} {reversed : Bool}

theorem allInList?_eq_some_iff {list : Json} :
    allInList? op = some list ↔
      op.name = "all" ∧ ∃ second args,
        op.args[1]? = some second ∧ second.operation? = some ⟨"in", args⟩ ∧ args[1]? = some list := by
  unfold allInList?
  constructor
  · intro h
    split at h
    · rename_i hname hin
      cases h
      obtain ⟨second, hsecond, hop⟩ := Option.bind_eq_some_iff.mp hin
      exact ⟨beq_iff_eq.mp hname, second, _, hsecond, hop, rfl⟩
    · cases h
  · rintro ⟨hname, second, args, hsecond, hop, hlist⟩
    match args, hlist with
    | _ :: _ :: _, rfl => simp [hname, hsecond, hop]

theorem allInList?_mapIdx (op : Operation) (hg : KeepsNames (g 1)) :
    allInList? ⟨op.name, op.args.mapIdx g⟩ = (allInList? op).map (g 1) := by
  apply Option.ext
  intro list
  rw [Option.map_eq_some_iff]
  simp only [allInList?_eq_some_iff, List.getElem?_mapIdx, Option.map_eq_some_iff]
  constructor
  · rintro ⟨hname, _, args', ⟨second, hsecond, rfl⟩, hop', hlist'⟩
    have hin : second.opName? = some "in" := by
      rw [← hg.recasts.opName? second _ rfl, Json.opName?, hop']
      rfl
    obtain ⟨⟨_, args⟩, hop, rfl⟩ := Option.map_eq_some_iff.mp hin
    obtain ⟨args'', hop'', hlist⟩ := hg.list second args hop
    cases hop'.symm.trans hop''
    obtain ⟨list', hlist'', rfl⟩ := Option.map_eq_some_iff.mp (hlist.symm.trans hlist')
    exact ⟨list', ⟨hname, second, args, hsecond, hop, hlist''⟩, rfl⟩
  · rintro ⟨list', ⟨hname, second, args, hsecond, hop, hlist⟩, rfl⟩
    obtain ⟨args', hop', hlist'⟩ := hg.list second args hop
    exact ⟨hname, _, args', ⟨second, hsecond, rfl⟩, hop', by rw [hlist', hlist]; rfl⟩

/-- Rewriting the arguments of an operation rewrites the values of its rule. -/
theorem ofOperation_mapIdx (hg : KeepsNames (g 1)) :
    RuleShape.ofOperation ⟨op.name, op.args.mapIdx g⟩ = (RuleShape.ofOperation op).mapValues g := by
  have hall := allInList?_mapIdx op hg
  cases h : allInList? op with
  | none =>
    rw [h] at hall
    rw [ofOperation_of_not_allIn h, ofOperation_of_not_allIn hall]
    simp [RuleShape.mapValues]
  | some list =>
    rw [h, Option.map_some] at hall
    obtain ⟨first, second, rest, hargs, hs⟩ := ofOperation_of_allIn h
    obtain ⟨first', second', rest', hargs', hs'⟩ := ofOperation_of_allIn hall
    have hfirst : first' = g 0 first := by
      have := hargs'
      simp only [hargs, List.mapIdx_cons, List.cons.injEq] at this
      exact this.1.symm
    rw [hs, hs', hfirst]
    simp [RuleShape.mapValues]

theorem isGroupOp_mapValues (hg : KeepsNames (g 1)) : c.isGroupOp (s.mapValues g) = c.isGroupOp s := by
  have hsecond : (s.mapValues g).values[1]?.bind Json.opName? = s.values[1]?.bind Json.opName? := by
    rw [RuleShape.mapValues, List.getElem?_mapIdx]
    cases s.values[1]? with
    | none => rfl
    | some a => exact hg.recasts.opName? a _ rfl
  unfold isGroupOp
  rw [hsecond]
  rfl

theorem fieldPlace_mapValues : fieldPlace (s.mapValues g) reversed = fieldPlace s reversed := by
  simp [fieldPlace, isBetween, RuleShape.mapValues]

theorem layout_mapValues_field (s : RuleShape) (g : Nat → Json → Json) (reversed : Bool) :
    (layout (s.mapValues g) reversed).1 = (layout s reversed).1.map (g (fieldPlace s reversed)) := by
  rw [layout_field, layout_field, fieldPlace_mapValues]
  simp [RuleShape.mapValues, List.getElem?_mapIdx]

/-- The first of the other values is at the other of the first two places. -/
theorem layout_head? : (layout s reversed).2.head? = s.values[1 - fieldPlace s reversed]? := by
  by_cases hb : isBetween s = true
  · obtain ⟨low, field, high, hvalues, hlayout⟩ := layout_of_isBetween hb reversed
    simp [hlayout, fieldPlace, hb, hvalues]
  · rw [Bool.not_eq_true] at hb
    rw [layout_of_not_isBetween hb]
    cases reversed with
    | true => cases s.values <;> simp [fieldPlace]
    | false => simp [fieldPlace, hb, List.head?_eq_getElem?]

theorem layout_mapValues_head? (s : RuleShape) (g : Nat → Json → Json) (reversed : Bool) :
    (layout (s.mapValues g) reversed).2.head? = (layout s reversed).2.head?.map (g (1 - fieldPlace s reversed)) := by
  rw [layout_head?, layout_head?, fieldPlace_mapValues]
  simp [RuleShape.mapValues, List.getElem?_mapIdx]

/-- Where all values are rewritten in the same way, the operands are. -/
theorem layout_mapValues_args (f : Json → Json) :
    (layout (s.mapValues fun _ => f) reversed).2 = (layout s reversed).2.map f := by
  have hmap : (s.mapValues fun _ => f).values = s.values.map f := by
    exact List.ext_getElem? fun i => by simp [RuleShape.mapValues]
  have hbetween : isBetween (s.mapValues fun _ => f) = isBetween s := by
    simp [isBetween, RuleShape.mapValues]
  by_cases hb : isBetween s = true
  · obtain ⟨low, field, high, hvalues, hlayout⟩ := layout_of_isBetween hb reversed
    obtain ⟨low', field', high', hvalues', hlayout'⟩ := layout_of_isBetween (hbetween.trans hb) reversed
    rw [hmap, hvalues] at hvalues'
    cases hvalues'
    rw [hlayout, hlayout']
    rfl
  · rw [Bool.not_eq_true] at hb
    rw [layout_of_not_isBetween hb, layout_of_not_isBetween (hbetween.trans hb), hmap]
    cases reversed with
    | true => cases s.values <;> rfl
    | false => cases s.values <;> rfl

/-! ## Tries at rewritten values -/

section Tries

variable {V H : Json → Json → Prop} {parent parent' : Option String}

/-- A try at rewritten values finds a rule that corresponds, or fails alike, when in its layout
the expression of the field names the same and the values and the clause are related. -/
theorem tryParse_mapValues (hg : ∀ i, KeepsNames (g i))
    (hfield : ∀ x, (layout s reversed).1 = some x →
      NameAlike c c H parent parent' x (g (fieldPlace s reversed) x))
    (hargs : c.isGroupOp s = false → List.Forall₂ V (layout s reversed).2 (layout (s.mapValues g) reversed).2)
    (hclause : c.isGroupOp s = true → ∀ x, (layout s reversed).2.head? = some x →
      H x (g (1 - fieldPlace s reversed) x)) :
    FoundAlike (Option.map RuleFault.kind) (Corresponds V H) (c.tryParse s parent reversed)
      (c.tryParse (s.mapValues g) parent' reversed) := by
  apply tryParse_foundAlike rfl (isGroupOp_mapValues (hg 1)) rfl (fun _ _ => rfl) _ hargs
  · intro hgs
    rw [layout_mapValues_head?]
    exact rel_map_of_forall (hclause hgs)
  · rw [layout_mapValues_field]
    exact rel_map_of_forall fun x hx => ⟨(hg _).recasts.isOperation (a := x) rfl, hfield x hx⟩

end Tries

/-- Related having clauses are operations of one name on arguments that are related. -/
def KeepsOperations (H : Json → Json → Prop) : Prop :=
  ∀ x x', H x x' → Option.Rel (fun op op' => op'.name = op.name ∧ List.Forall₂ H op.args op'.args)
    x.operation? x'.operation?

theorem KeepsOperations.opName? {H : Json → Json → Prop} (hH : KeepsOperations H) {x x' : Json} (h : H x x') :
    x'.opName? = x.opName? := by
  unfold Json.opName?
  rcases rel_cases (hH x x' h) with ⟨ho, ho'⟩ | ⟨op, op', ho, ho', hname, -⟩
  · rw [ho, ho']
  · rw [ho, ho', Option.map_some, Option.map_some, hname]

/-- Rules that correspond still do when their negations are taken together. -/
theorem foldHaving_corresponds {V H : Json → Json → Prop} (hH : KeepsOperations H) {r r' : ParsedRule}
    (h : Corresponds V H r r') (negated : Bool) :
    (foldHaving r' negated).2 = (foldHaving r negated).2 ∧
      Corresponds V H (foldHaving r negated).1 (foldHaving r' negated).1 := by
  obtain ⟨hrest, hargs, hhaving⟩ := h
  have hfield : r'.field = r.field := by rw [hrest]
  by_cases hbang : r.field.isGroup = true ∧ r.having.bind Json.opName? = some "!"
  · obtain ⟨hgroup, hname⟩ := hbang
    obtain ⟨x, hx, hname⟩ := Option.bind_eq_some_iff.mp hname
    obtain ⟨⟨_, inner⟩, ho, rfl⟩ := Option.map_eq_some_iff.mp hname
    rw [hx] at hhaving
    obtain ⟨x', hx', hxx'⟩ := exists_of_rel_some hhaving
    have hops := hH x x' hxx'
    rw [ho] at hops
    obtain ⟨⟨_, inner'⟩, ho', rfl, hinner⟩ := exists_of_rel_some hops
    rw [foldHaving_of_bang hgroup hx ho, foldHaving_of_bang (by rw [hfield]; exact hgroup) hx' ho']
    exact ⟨rfl, by rw [hrest], hargs, rel_head? hinner⟩
  · have hsame : r'.having.bind Json.opName? = r.having.bind Json.opName? := by
      rcases rel_cases hhaving with ⟨hx, hx'⟩ | ⟨x, x', hx, hx', hxx'⟩
      · rw [hx, hx']
      · rw [hx, hx', Option.bind_some, Option.bind_some, hH.opName? hxx']
    have hunfolded : foldHaving r negated = (r, negated) ∧ foldHaving r' negated = (r', negated) := by
      by_cases hgroup : r.field.isGroup = true
      · have hne : r.having.bind Json.opName? ≠ some "!" := fun he => hbang ⟨hgroup, he⟩
        exact ⟨foldHaving_of_ne hne, foldHaving_of_ne (by rw [hsame]; exact hne)⟩
      · rw [Bool.not_eq_true] at hgroup
        exact ⟨foldHaving_of_not_isGroup hgroup, foldHaving_of_not_isGroup (by rw [hfield]; exact hgroup)⟩
    rw [hunfolded.1, hunfolded.2]
    exact ⟨rfl, hrest, hargs, hhaving⟩

section Steps

variable {V H : Json → Json → Prop} {sub sub' : SubRuns} {parent parent' : Option String}

/-- Rules that correspond end alike when related values do, each under its own parent, and
related having clauses on one collection. -/
theorem assembleRule_leads_of_corresponds (hH : KeepsOperations H) {r r' : ParsedRule} (h : Corresponds V H r r')
    (hvalue : ∀ a a' t, V a a' → (sub.value a t parent).Leads (sub'.value a' t parent'))
    (hclause : ∀ x x' path f, H x x' →
      (c.convertHaving sub x path f).Leads (c.convertHaving sub' x' path f)) (negated : Bool) :
    (c.assembleRule sub r negated parent).Leads (c.assembleRule sub' r' negated parent') := by
  obtain ⟨hneg, hrest, hargs, hhaving⟩ := foldHaving_corresponds hH h negated
  rw [assembleRule_eq, assembleRule_eq, hneg]
  apply finishRule_leads_of_args hrest
  · intro t
    exact hargs.imp fun a a' ha => hvalue a a' t ha
  · intro _
    unfold groupBody
    rcases rel_cases hhaving with ⟨hx, hx'⟩ | ⟨x, x', hx, hx', hxx'⟩
    · rw [hx, hx', hrest]
      exact Run.leads_refl _
    · rw [hx, hx', hrest]
      exact hclause x x' _ _ hxx'

theorem convertOp_leads_of_foundAlike (hH : KeepsOperations H) {e e' : Json} {op op' : Operation}
    (h : FoundAlike Problem.kind (Corresponds V H) (c.parseRule e (.ofOperation op) parent)
      (c.parseRule e' (.ofOperation op') parent'))
    (hvalue : ∀ a a' t, V a a' → (sub.value a t parent).Leads (sub'.value a' t parent'))
    (hclause : ∀ x x' path f, H x x' →
      (c.convertHaving sub x path f).Leads (c.convertHaving sub' x' path f)) (negated : Bool) :
    (c.convertOp sub e op negated parent).Leads (c.convertOp sub' e' op' negated parent') := by
  unfold convertOp
  rcases foundAlike_cases h with ⟨r, r', hx, hx', hrr⟩ | ⟨p, p', hx, hx', hkind⟩
  · rw [hx, hx']
    exact assembleRule_leads_of_corresponds hH hrr hvalue hclause negated
  · rw [hx, hx']
    exact Run.leads_fail hkind

/-! ## Values that are rewritten -/

/-- The field at a path, as a value. -/
def fieldAt (c : Converter) (path : String) : Except Problem Operand :=
  match c.fields.resolve path with
  | some f => .ok (.field path f.type)
  | none => .error (.noField path)

variable {U : Json → Json → Prop} {args args' : List Json} {name : String}

/-- A value reads the field at the text that a variable key is given first. -/
theorem fieldValue?_eq {e : Json} (he : e.operation? = some ⟨name, args⟩) (parent : Option String) :
    c.fieldValue? e parent =
      if c.index.isVarKey name then
        (args.head?.bind Json.asString?).map fun path => c.fieldAt (c.composePath parent path)
      else none := by
  unfold fieldValue? fieldAt
  rw [he]
  match args with
  | [] => simp
  | .str path :: _ =>
    simp only [List.head?_cons, Option.bind_some, Json.asString?, Option.map_some]
    split
    · split <;> simp_all
    · rfl
  | .null :: _ => simp [Json.asString?]
  | .bool _ :: _ => simp [Json.asString?]
  | .num _ :: _ => simp [Json.asString?]
  | .arr _ :: _ => simp [Json.asString?]
  | .obj _ :: _ => simp [Json.asString?]

theorem isEmptinessTest_of_forall₂ (hU : Recasts U) (h : List.Forall₂ U args args') :
    c.isEmptinessTest args' = c.isEmptinessTest args := by
  cases h with
  | nil => rfl
  | cons hab hrest =>
    cases hrest with
    | nil => simp only [isEmptinessTest, hU.opName? _ _ hab]
    | cons _ _ => rfl

/-- Rewritten operations negate what is related, or are no negations both. -/
theorem negated?_rel (c : Converter) (name : String) (hU : Recasts U) (h : List.Forall₂ U args args') :
    Option.Rel U (c.negated? ⟨name, args⟩) (c.negated? ⟨name, args'⟩) := by
  unfold negated?
  rw [isEmptinessTest_of_forall₂ hU h]
  by_cases hneg : (name == "!" && !c.isEmptinessTest args) = true
  · rw [if_pos hneg, if_pos hneg]
    exact rel_head? h
  · rw [if_neg hneg, if_neg hneg]
    exact .none

theorem callSignature?_rel (name : String) (hU : Recasts U) (h : List.Forall₂ U args args') :
    Option.Rel (fun x x' => x'.1 = x.1 ∧ List.Forall₂ U x.2 x'.2) (callSignature? ⟨name, args⟩)
      (callSignature? ⟨name, args'⟩) := by
  unfold callSignature?
  by_cases hm : (name == "method") = true
  · simp only [hm, if_true]
    cases h with
    | nil => exact .none
    | cons hobj hrest =>
      cases hrest with
      | nil => exact .none
      | @cons a a' _ _ hname hopts =>
        by_cases hstr : ∃ s, a = .str s
        · obtain ⟨s, rfl⟩ := hstr
          rw [(hU.str_iff hname s).mpr rfl]
          exact .some ⟨rfl, .cons hobj hopts⟩
        · split
          · rename_i heq
            cases heq
            exact absurd ⟨_, rfl⟩ hstr
          · split
            · rename_i heq
              cases heq
              exact absurd ⟨_, (hU.str_iff hname _).mp rfl⟩ hstr
            · exact .none
  · simp only [hm]
    exact .some ⟨rfl, h⟩

theorem hookedCall?_of_nil (hhooks : c.hooks = []) (e : Json) (type : String) : c.hookedCall? e type = none := by
  unfold hookedCall?
  rw [List.findSome?_eq_none_iff]
  intro p _
  rw [hhooks]
  rfl

/-- Rewritten operations call the same function with what is related, or none. -/
theorem call?_rel (hU : Recasts U) (hhooks : c.hooks = []) {e e' : Json} (he : e.operation? = some ⟨name, args⟩)
    (he' : e'.operation? = some ⟨name, args'⟩) (hargs : List.Forall₂ U args args') (type : String) :
    Option.Rel (fun x x' => x'.key = x.key ∧ x'.func = x.func ∧ List.Forall₂ U x.args x'.args)
      (c.call? e type) (c.call? e' type) := by
  unfold call?
  rw [he, he', Option.bind_some, Option.bind_some]
  rcases rel_cases (callSignature?_rel name hU hargs) with
    ⟨hx, hx'⟩ | ⟨⟨_, given⟩, ⟨sig, given'⟩, hx, hx', rfl, hgiven⟩
  · rw [hx, hx']
    exact .none
  · rw [hx, hx']
    simp only
    cases c.declaredFunc? sig type with
    | some found => exact .some ⟨rfl, rfl, hgiven⟩
    | none =>
      rw [hookedCall?_of_nil hhooks, hookedCall?_of_nil hhooks]
      exact .none

theorem convertCall_leads {call call' : Call} (hkey : call'.key = call.key) (hfunc : call'.func = call.func)
    (hargs : List.Forall₂ U call.args call'.args)
    (hvalue : ∀ a a' t, U a a' → (sub.value a t parent).Leads (sub'.value a' t parent')) :
    (convertCall sub call parent).Leads (convertCall sub' call' parent') := by
  unfold convertCall
  rw [hkey, hfunc, hargs.length_eq]
  by_cases hmany : call.func.args.length < call'.args.length
  · rw [if_pos hmany, if_pos hmany]
    exact Run.leads_refl _
  · rw [if_neg hmany, if_neg hmany]
    apply Run.leads_andThen (callArgs_leads_of_given _ call.key call.func.args) fun os => Run.leads_refl _
    exact hargs.imp fun v v' hv t => hvalue v v' t hv

/-- No operation is a literal, for whatever reason. -/
theorem literalValue_leads {e e' : Json} (he : e.isOperation = true) (he' : e'.isOperation = true) (t : Target) :
    (Run.ofExcept (c.literalValue e t)).Leads (.ofExcept (c.literalValue e' t)) := by
  unfold literalValue
  cases c.schema.widgets.get? t.widgetName with
  | none => exact Run.leads_refl _
  | some w =>
    simp only [he, he', if_true]
    exact Run.leads_fail rfl

theorem valueStep_of_literal {e : Json} (he : e.operation? = none) (t : Target) :
    c.valueStep sub e t parent = .ofExcept (c.literalValue e t) := by
  simp only [valueStep, fieldValue?, call?, he, Option.bind_none]

/-- In value position rewritten operations that read the same end alike when their arguments
do, each under its own parent. -/
theorem valueStep_leads_of_args (hU : Recasts U) (hhooks : c.hooks = []) {e e' : Json}
    (he : e.operation? = some ⟨name, args⟩) (he' : e'.operation? = some ⟨name, args'⟩)
    (hargs : List.Forall₂ U args args') (hfield : c.fieldValue? e' parent' = c.fieldValue? e parent)
    (hvalue : ∀ a a' t, U a a' → (sub.value a t parent).Leads (sub'.value a' t parent')) (t : Target) :
    (c.valueStep sub e t parent).Leads (c.valueStep sub' e' t parent') := by
  unfold valueStep
  rw [he, he', Option.bind_some, Option.bind_some, hfield]
  rcases rel_cases (negated?_rel c name hU hargs) with ⟨hx, hx'⟩ | ⟨x, x', hx, hx', hxx'⟩
  · rw [hx, hx']
    simp only
    cases c.fieldValue? e parent with
    | some field => exact Run.leads_refl _
    | none =>
      simp only
      rcases rel_cases (call?_rel hU hhooks he he' hargs t.type) with
        ⟨hk, hk'⟩ | ⟨call, call', hk, hk', hkey, hfunc, hgiven⟩
      · rw [hk, hk']
        apply literalValue_leads
        · rw [Json.isOperation, he]
          rfl
        · rw [Json.isOperation, he']
          rfl
      · rw [hk, hk']
        exact convertCall_leads hkey hfunc hgiven hvalue
  · rw [hx, hx']
    exact hvalue x x' t hxx'

end Steps

/-! ## Conversions that end alike -/

section EndAlike

variable {e e' : Json} {negated negated' : Bool} {parent parent' : Option String}

/-- Expressions of which one ends wherever the other does, however much may be nested, end
alike with the nesting each of them is allowed. -/
theorem endAlike_of_leads (hc : c.HooksShrink)
    (h : ∀ k, (c.ruleN k e negated parent).Leads (c.ruleN k e' negated' parent')) :
    (c.rule e negated parent).EndAlike (c.rule e' negated' parent') := by
  have hends := ends_of_size_le (q := .rule e negated parent) hc (Nat.le_refl _)
  have hends' := ends_of_size_le (q := .rule e' negated' parent') hc (Nat.le_refl _)
  exact Run.endAlike_of_settles hends hends' h (Nat.le_add_right _ _) (Nat.le_add_right _ _)

/-- And so do their imports. -/
theorem importTree_of_leads {ι : Type} (hc : c.HooksShrink) (ht : e'.isTruthy = e.isTruthy)
    (h : ∀ k, (c.ruleN k e false none).Leads (c.ruleN k e' false none)) (ids : Nat → ι) (start : Nat) :
    ∃ o o', c.importTree ids start e = some o ∧ c.importTree ids start e' = some o' ∧
      o'.tree = o.tree ∧ o'.drawn = o.drawn ∧ o'.problems.map Problem.kind = o.problems.map Problem.kind := by
  have htree : ∀ k, (c.treeN k e).Leads (c.treeN k e') := by
    intro k
    unfold treeN
    rw [ht]
    split
    · exact Run.leads_andThen (h k) fun _ => Run.leads_refl _
    · exact Run.leads_refl _
  have hends := treeN_settles (ends_of_size_le (q := .rule e false none) hc (Nat.le_refl _))
  have hends' := treeN_settles (ends_of_size_le (q := .rule e' false none) hc (Nat.le_refl _))
  obtain ⟨d, d', hd, hd', hvalue, hnext, hkinds⟩ :=
    Run.endAlike_of_settles hends hends' htree (Nat.le_add_right _ c.nesting) (Nat.le_add_right _ c.nesting) 0
  have himport : ∀ {e : Json} {d : Done (Option (Tree Nat))}, c.treeN (e.size + c.nesting) e 0 = some d →
      c.importTree ids start e =
        some ⟨d.value.map (Tree.rename fun n => ids (start + n)), d.problems, d.next⟩ := by
    intro e d hd
    rw [importTree, importN, limit, hd]
    rfl
  exact ⟨_, _, himport hd, himport hd', by rw [hvalue], hnext, hkinds⟩

end EndAlike

end Converter
end RuleTree
