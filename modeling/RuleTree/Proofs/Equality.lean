/-
  RuleTree.Proofs.Equality — equality of data is an equivalence.

  Values are equal when they are the same once no zero has a sign (`Json.same_iff`). The
  arguments of a call are compared by name and not by place, each looked up among the others,
  so that this is an equality only if no call gives two arguments one name (`Operand.Keyed`).
  - `Operand.equivalenceOn_same`: among such operands equality is an equivalence; of their
    names the two calls need as many, which makes one list a permutation of the other
    (`sameArgs_symm`).
  - `RuleProps.same_iff`, `RuleGroupProps.same_iff`: properties are equal part by part, and so
    their equality is an equivalence as well, if their operands are such
    (`RuleProps.equivalenceOn_same`, `RuleGroupProps.equivalenceOn_same`).
-/

import Mathlib.Data.List.Forall2
import Mathlib.Data.List.Perm.Subperm
import RuleTree.Proofs.Sameness

namespace RuleTree

/-! ## Equivalences among some things -/

/-- Among the things with a property the relation is an equivalence. -/
structure EquivalenceOn {α : Type} (S : α → Prop) (r : α → α → Prop) : Prop where
  refl : ∀ x, S x → r x x
  symm : ∀ x y, S x → S y → r x y → r y x
  trans : ∀ x y z, S x → S y → S z → r x y → r y z → r x z

namespace EquivalenceOn

variable {α β : Type} {S : α → Prop} {r r' : α → α → Prop}

theorem and (h : EquivalenceOn S r) (h' : EquivalenceOn S r') : EquivalenceOn S fun x y => r x y ∧ r' x y where
  refl x hx := ⟨h.refl x hx, h'.refl x hx⟩
  symm x y hx hy hr := ⟨h.symm x y hx hy hr.1, h'.symm x y hx hy hr.2⟩
  trans x y z hx hy hz hr hr' := ⟨h.trans x y z hx hy hz hr.1 hr'.1, h'.trans x y z hx hy hz hr.2 hr'.2⟩

/-- Things are compared by a part of them. -/
theorem on (f : β → α) (h : EquivalenceOn S r) : EquivalenceOn (fun b => S (f b)) fun x y => r (f x) (f y) where
  refl _ hx := h.refl _ hx
  symm _ _ hx hy := h.symm _ _ hx hy
  trans _ _ _ hx hy hz := h.trans _ _ _ hx hy hz

theorem eqOn {S : β → Prop} (f : β → α) : EquivalenceOn S fun x y => f x = f y where
  refl _ _ := rfl
  symm _ _ _ _ h := h.symm
  trans _ _ _ _ _ _ h h' := h.trans h'

theorem congr (h : EquivalenceOn S r) (hr : ∀ x y, r' x y ↔ r x y) : EquivalenceOn S r' := by
  have heq : r' = r := funext fun x => funext fun y => propext (hr x y)
  rw [heq]
  exact h

/-- Lists are compared place by place. -/
theorem forall₂ (h : EquivalenceOn S r) : EquivalenceOn (fun xs => ∀ x ∈ xs, S x) (List.Forall₂ r) where
  refl xs hxs := List.forall₂_same.mpr fun x hx => h.refl x (hxs x hx)
  symm xs ys hxs hys hr := by
    induction hr with
    | nil => exact .nil
    | cons hxy _ ih =>
      obtain ⟨hx, hxs⟩ := List.forall_mem_cons.mp hxs
      obtain ⟨hy, hys⟩ := List.forall_mem_cons.mp hys
      exact .cons (h.symm _ _ hx hy hxy) (ih hxs hys)
  trans xs ys zs hxs hys hzs hr hr' := by
    induction hr generalizing zs with
    | nil => exact hr'
    | cons hxy _ ih =>
      cases hr' with
      | cons hyz hrest =>
        obtain ⟨hx, hxs⟩ := List.forall_mem_cons.mp hxs
        obtain ⟨hy, hys⟩ := List.forall_mem_cons.mp hys
        obtain ⟨hz, hzs⟩ := List.forall_mem_cons.mp hzs
        exact .cons (h.trans _ _ _ hx hy hz hxy hyz) (ih _ hxs hys hzs hrest)

theorem equivalence (h : EquivalenceOn S r) : Equivalence fun x y : {x // S x} => r x.1 y.1 where
  refl x := h.refl _ x.2
  symm hr := h.symm _ _ (Subtype.prop _) (Subtype.prop _) hr
  trans hr hr' := h.trans _ _ _ (Subtype.prop _) (Subtype.prop _) (Subtype.prop _) hr hr'

end EquivalenceOn

/-! ## Values -/

/-- The number with no sign at a zero. -/
def Num.unsigned : Num → Num
  | int n => int n
  | float x => if x.isZero then float (Binary.zero false) else float x

theorem Num.same_iff (m n : Num) : m.same n = true ↔ m.unsigned = n.unsigned := by
  have hzero : (Binary.zero false).isZero = true := rfl
  cases m with
  | int m => cases n <;> grind [same, unsigned]
  | float x => cases n <;> grind [same, unsigned]

namespace Json

mutual

/-- The value with no sign at a zero. -/
def unsigned : Json → Json
  | .num n => .num n.unsigned
  | .arr items => .arr (unsignedItems items)
  | .obj entries => .obj (unsignedEntries entries)
  | .null => .null
  | .bool b => .bool b
  | .str s => .str s

def unsignedItems : List Json → List Json
  | [] => []
  | x :: rest => x.unsigned :: unsignedItems rest

def unsignedEntries : List (String × Json) → List (String × Json)
  | [] => []
  | (k, x) :: rest => (k, x.unsigned) :: unsignedEntries rest

end

mutual

/-- Equality of values takes no account of the sign of a zero, and of all else. -/
theorem same_iff : ∀ j k : Json, j.same k = true ↔ j.unsigned = k.unsigned
  | .null, k => by cases k <;> simp [same, unsigned]
  | .bool a, k => by cases k <;> simp [same, unsigned]
  | .num m, k => by cases k <;> simp [same, unsigned, Num.same_iff]
  | .str s, k => by cases k <;> simp [same, unsigned]
  | .arr xs, k => by
    cases k with
    | arr ys => simp [same, unsigned, sameItems_iff xs ys]
    | _ => simp [same, unsigned]
  | .obj xs, k => by
    cases k with
    | obj ys => simp [same, unsigned, sameEntries_iff xs ys]
    | _ => simp [same, unsigned]

theorem sameItems_iff : ∀ xs ys : List Json, sameItems xs ys = true ↔ unsignedItems xs = unsignedItems ys
  | [], ys => by cases ys <;> simp [sameItems, unsignedItems]
  | x :: xs, ys => by
    cases ys with
    | nil => simp [sameItems, unsignedItems]
    | cons y ys => simp [sameItems, unsignedItems, same_iff x y, sameItems_iff xs ys]

theorem sameEntries_iff :
    ∀ xs ys : List (String × Json), sameEntries xs ys = true ↔ unsignedEntries xs = unsignedEntries ys
  | [], ys => by cases ys <;> simp [sameEntries, unsignedEntries]
  | (k, x) :: xs, ys => by
    cases ys with
    | nil => simp [sameEntries, unsignedEntries]
    | cons q ys => simp [sameEntries, unsignedEntries, same_iff x q.2, sameEntries_iff xs ys, and_assoc]

end

end Json

theorem sameOptional_iff (xs ys : Option (List Json)) :
    sameOptional xs ys = true ↔ xs.map Json.unsignedItems = ys.map Json.unsignedItems := by
  cases xs with
  | none => cases ys <;> simp [sameOptional]
  | some xs =>
    cases ys with
    | none => simp [sameOptional]
    | some ys => simp [sameOptional, Json.sameItems_iff]

/-! ## Operands -/

/-- The arguments of a call by name. -/
def Content.args : Content → List (String × Operand)
  | .call _ args => args
  | _ => []

/-- No call of the operand gives two arguments one name, at any depth. -/
inductive Operand.Keyed : Operand → Prop
  | mk {content : Content} {type : Option String} {async : Option (List Json)}
      (hn : (content.args.map Prod.fst).Nodup) (h : ∀ p ∈ content.args, Keyed p.2) : Keyed (.mk content type async)

section Args

variable {xs ys zs : List (String × Operand)}

theorem sameArgs_iff : sameArgs xs ys = true ↔ ∀ p ∈ xs, ∃ y, ys.lookup p.1 = some y ∧ p.2.same y = true := by
  induction xs with
  | nil => simp [sameArgs]
  | cons p rest ih =>
    obtain ⟨k, x⟩ := p
    rw [sameArgs, Bool.and_eq_true, ih, List.forall_mem_cons]
    refine and_congr_left fun _ => ?_
    cases ys.lookup k <;> simp

theorem mem_of_lookup {α : Type} {xs : List (String × α)} {k : String} {x : α} (h : xs.lookup k = some x) :
    (k, x) ∈ xs := by
  obtain ⟨before, after, rfl, -⟩ := List.lookup_eq_some_iff.mp h
  simp

/-- As many arguments, each with an equal one of its name: then the names are the same, in some
order. -/
theorem names_perm_of_sameArgs (hn : (xs.map Prod.fst).Nodup) (hlen : xs.length = ys.length)
    (h : sameArgs xs ys = true) : (xs.map Prod.fst).Perm (ys.map Prod.fst) := by
  have hsub : xs.map Prod.fst ⊆ ys.map Prod.fst := by
    intro k hk
    obtain ⟨p, hp, rfl⟩ := List.mem_map.mp hk
    obtain ⟨y, hy, -⟩ := sameArgs_iff.mp h p hp
    exact List.mem_map.mpr ⟨_, mem_of_lookup hy, rfl⟩
  exact (hn.subperm hsub).perm_of_length_le (by simp [hlen])

theorem sameArgs_symm (hn : (xs.map Prod.fst).Nodup) (hlen : xs.length = ys.length)
    (hsymm : ∀ p ∈ xs, ∀ y, p.2.same y = true → y.same p.2 = true) (h : sameArgs xs ys = true) :
    sameArgs ys xs = true := by
  have hnames := names_perm_of_sameArgs hn hlen h
  rw [sameArgs_iff]
  intro q hq
  have hq' : q.1 ∈ xs.map Prod.fst := hnames.mem_iff.mpr (List.mem_map_of_mem hq)
  obtain ⟨p, hp, hpq⟩ := List.mem_map.mp hq'
  obtain ⟨y, hy, hsame⟩ := sameArgs_iff.mp h p hp
  -- the names of `ys` are apart as well, and what is found is `q`
  have hlookup : ys.lookup q.1 = some q.2 := lookup_of_mem (hnames.nodup_iff.mp hn) hq
  rw [hpq, hlookup] at hy
  cases hy
  exact ⟨p.2, hpq ▸ lookup_of_mem hn hp, hsymm p hp q.2 hsame⟩

theorem sameArgs_trans
    (htrans : ∀ p ∈ xs, ∀ y z, p.2.same y = true → y.same z = true → p.2.same z = true)
    (h : sameArgs xs ys = true) (h' : sameArgs ys zs = true) : sameArgs xs zs = true := by
  rw [sameArgs_iff] at h h' ⊢
  intro p hp
  obtain ⟨y, hy, hxy⟩ := h p hp
  obtain ⟨z, hz, hyz⟩ := h' _ (mem_of_lookup hy)
  exact ⟨z, hz, htrans p hp y z hxy hyz⟩

end Args

namespace Content

variable {c c' c'' : Content}

theorem same_refl (hn : (c.args.map Prod.fst).Nodup) (hrefl : ∀ p ∈ c.args, p.2.same p.2 = true) :
    c.same c = true := by
  cases c with
  | literal v => exact Json.same_refl v
  | date i => simp [same]
  | field path => simp [same]
  | call func args =>
    have hargs : sameArgs args args = true := sameArgs_of_forall fun p hp => ⟨lookup_of_mem hn hp, hrefl p hp⟩
    simp [same, hargs]

theorem same_symm (hn : (c.args.map Prod.fst).Nodup)
    (hsymm : ∀ p ∈ c.args, ∀ y, p.2.same y = true → y.same p.2 = true) (h : c.same c' = true) :
    c'.same c = true := by
  cases c with
  | literal v =>
    cases c' with
    | literal w =>
      rw [same, Json.same_iff] at h ⊢
      exact h.symm
    | _ => cases h
  | date i =>
    cases c' with
    | date j =>
      rw [same, beq_iff_eq] at h ⊢
      exact h.symm
    | _ => cases h
  | field path =>
    cases c' with
    | field path' =>
      rw [same, beq_iff_eq] at h ⊢
      exact h.symm
    | _ => cases h
  | call func args =>
    cases c' with
    | call func' args' =>
      simp only [same, Bool.and_eq_true, beq_iff_eq] at h ⊢
      obtain ⟨⟨hfunc, hlen⟩, hargs⟩ := h
      exact ⟨⟨hfunc.symm, hlen.symm⟩, sameArgs_symm hn hlen hsymm hargs⟩
    | _ => cases h

theorem same_trans (htrans : ∀ p ∈ c.args, ∀ y z, p.2.same y = true → y.same z = true → p.2.same z = true)
    (h : c.same c' = true) (h' : c'.same c'' = true) : c.same c'' = true := by
  cases c with
  | literal v =>
    cases c' with
    | literal w =>
      cases c'' with
      | literal x =>
        rw [same, Json.same_iff] at h h' ⊢
        exact h.trans h'
      | _ => cases h'
    | _ => cases h
  | date i =>
    cases c' with
    | date j =>
      rw [same, beq_iff_eq] at h
      rwa [h]
    | _ => cases h
  | field path =>
    cases c' with
    | field path' =>
      rw [same, beq_iff_eq] at h
      rwa [h]
    | _ => cases h
  | call func args =>
    cases c' with
    | call func' args' =>
      cases c'' with
      | call func'' args'' =>
        simp only [same, Bool.and_eq_true, beq_iff_eq] at h h' ⊢
        obtain ⟨⟨hfunc, hlen⟩, hargs⟩ := h
        obtain ⟨⟨hfunc', hlen'⟩, hargs'⟩ := h'
        exact ⟨⟨hfunc.trans hfunc', hlen.trans hlen'⟩, sameArgs_trans htrans hargs hargs'⟩
      | _ => cases h'
    | _ => cases h

end Content

namespace Operand

variable {o : Operand}

theorem same_iff {c c' : Content} {t t' : Option String} {a a' : Option (List Json)} :
    (mk c t a).same (mk c' t' a') = true ↔ c.same c' = true ∧ t = t' ∧ sameOptional a a' = true := by
  simp [same, and_assoc]

theorem same_refl (h : o.Keyed) : o.same o = true := by
  induction h with
  | mk hn _ ih => exact same_iff.mpr ⟨Content.same_refl hn ih, rfl, sameOptional_refl _⟩

theorem same_symm (h : o.Keyed) {o' : Operand} (hs : o.same o' = true) : o'.same o = true := by
  induction h generalizing o' with
  | mk hn _ ih =>
    cases o' with
    | mk c' t' a' =>
      obtain ⟨hc, ht, ha⟩ := same_iff.mp hs
      have hsymm := Content.same_symm hn (fun p hp y hy => ih p hp hy) hc
      rw [sameOptional_iff] at ha
      exact same_iff.mpr ⟨hsymm, ht.symm, (sameOptional_iff _ _).mpr ha.symm⟩

theorem same_trans (h : o.Keyed) {o' o'' : Operand} (hs : o.same o' = true) (hs' : o'.same o'' = true) :
    o.same o'' = true := by
  induction h generalizing o' o'' with
  | mk hn _ ih =>
    cases o' with
    | mk c' t' a' =>
      cases o'' with
      | mk c'' t'' a'' =>
        obtain ⟨hc, ht, ha⟩ := same_iff.mp hs
        obtain ⟨hc', ht', ha'⟩ := same_iff.mp hs'
        have htrans := Content.same_trans (fun p hp y z hy hz => ih p hp hy hz) hc hc'
        rw [sameOptional_iff] at ha ha'
        exact same_iff.mpr ⟨htrans, ht.trans ht', (sameOptional_iff _ _).mpr (ha.trans ha')⟩

/-- Equality is an equivalence among operands whose calls name each argument once. -/
theorem equivalenceOn_same : EquivalenceOn Keyed fun o o' => o.same o' = true where
  refl _ h := same_refl h
  symm _ _ h _ hs := same_symm h hs
  trans _ _ _ h _ _ hs hs' := same_trans h hs hs'

/-- A call that gives two arguments one name is not even equal to itself. -/
example : (call "f" [("x", field "color" "text"), ("x", field "year" "text")] "text").same
    (call "f" [("x", field "color" "text"), ("x", field "year" "text")] "text") = false := by decide

end Operand

theorem sameOperands_iff (os os' : List Operand) :
    sameOperands os os' = true ↔ List.Forall₂ (fun o o' => o.same o' = true) os os' := by
  induction os generalizing os' with
  | nil => cases os' <;> simp [sameOperands]
  | cons o rest ih => cases os' <;> simp [sameOperands, ih]

/-! ## Properties -/

/-- Rules are equal in their properties part by part: field, operator, operands in their order,
and the values to fetch later. -/
theorem RuleProps.same_iff {p q : RuleProps} :
    p.same q = true ↔
      p.field = q.field ∧ p.operator = q.operator ∧ List.Forall₂ (fun o o' => o.same o' = true) p.args q.args ∧
        p.async.map Json.unsignedItems = q.async.map Json.unsignedItems := by
  simp only [same, Bool.and_eq_true, beq_iff_eq, sameOperands_iff, sameOptional_iff, and_assoc]

/-- And so are rule groups: conjunction, negation, field, mode, operator and operands. -/
theorem RuleGroupProps.same_iff {p q : RuleGroupProps} :
    p.same q = true ↔
      p.conjunction = q.conjunction ∧ p.negated = q.negated ∧ p.field = q.field ∧ p.mode = q.mode ∧
        p.operator = q.operator ∧ List.Forall₂ (fun o o' => o.same o' = true) p.args q.args := by
  simp only [same, Bool.and_eq_true, beq_iff_eq, sameOperands_iff, and_assoc]

/-- Equality is an equivalence among the properties of rules. -/
theorem RuleProps.equivalenceOn_same :
    EquivalenceOn (fun p : RuleProps => ∀ o ∈ p.args, o.Keyed) fun p q => p.same q = true := by
  have hargs := Operand.equivalenceOn_same.forall₂.on RuleProps.args
  have hrest := hargs.and (.eqOn fun p => (p.field, p.operator, p.async.map Json.unsignedItems))
  refine hrest.congr fun p q => ?_
  simp only [same_iff, Prod.mk.injEq]
  tauto

/-- Equality is an equivalence among the properties of rule groups. -/
theorem RuleGroupProps.equivalenceOn_same :
    EquivalenceOn (fun p : RuleGroupProps => ∀ o ∈ p.args, o.Keyed) fun p q => p.same q = true := by
  have hargs := Operand.equivalenceOn_same.forall₂.on RuleGroupProps.args
  have hrest := hargs.and (.eqOn fun p => (p.conjunction, p.negated, p.field, p.mode, p.operator))
  refine hrest.congr fun p q => ?_
  simp only [same_iff, Prod.mk.injEq]
  tauto

end RuleTree
