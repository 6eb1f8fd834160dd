/-
  RuleTree.Proofs.Run — what is known of a run from the runs it is made of.

  One rule for each way of putting runs together, for five readings of a run:
  - `Gives`: it ends with a value and recorded no problem.
  - `Always`: whatever it ends with satisfies a property.
  - `Ends`: where it starts at a number, it ends at no smaller one, and what it ends with
    and where satisfy a property.
  - `Loud`: when it ends with nothing, it has recorded a problem.
  - `Leads`: another run ends wherever this one does, with the same value, the same next
    number and problems of the same kinds.
-/

import Mathlib.Data.List.Forall2
import RuleTree.Convert.Run

namespace RuleTree

namespace Run

variable {α β : Type}

/-! ## The end of a bind -/

theorem bind_eq_some {x : Run α} {f : α → Run β} {n : Nat} {e : Done β} :
    x.bind f n = some e ↔ ∃ d d', x n = some d ∧ f d.value d.next = some d' ∧
      e = ⟨d'.value, d'.next, d.problems ++ d'.problems⟩ := by
  unfold Run.bind
  cases x n with
  | none => simp
  | some d =>
    cases h : f d.value d.next with
    | none => simp [h]
    | some d' => simp [h, eq_comm]

/-! ## Runs without a problem -/

/-- From `n` the run ends with `a`, the next number is `m` and nothing went wrong. -/
def Gives (x : Run α) (n : Nat) (a : α) (m : Nat) : Prop := x n = some ⟨a, m, []⟩

theorem gives_pure {a b : α} {n m : Nat} : (Run.pure a).Gives n b m ↔ b = a ∧ m = n := by
  simp [Gives, Run.pure, eq_comm]

theorem gives_bind {x : Run α} {f : α → Run β} {n m : Nat} {b : β} :
    (x.bind f).Gives n b m ↔ ∃ a k, x.Gives n a k ∧ (f a).Gives k b m := by
  simp only [Gives, bind_eq_some]
  constructor
  · rintro ⟨⟨a, k, ps⟩, ⟨b', m', qs⟩, hx, hf, he⟩
    simp only [Done.mk.injEq, List.nil_eq, List.append_eq_nil_iff] at he
    obtain ⟨rfl, rfl, rfl, rfl⟩ := he
    exact ⟨a, k, hx, hf⟩
  · rintro ⟨a, k, hx, hf⟩
    exact ⟨_, _, hx, hf, rfl⟩

theorem gives_andThen {x : Run (Option α)} {f : α → Run (Option β)} {n m : Nat} {b : β} :
    (x.andThen f).Gives n (some b) m ↔ ∃ a k, x.Gives n (some a) k ∧ (f a).Gives k (some b) m := by
  rw [andThen, gives_bind]
  constructor
  · rintro ⟨a?, k, hx, hf⟩
    cases a? with
    | none => simp [gives_pure] at hf
    | some a => exact ⟨a, k, hx, hf⟩
  · rintro ⟨a, k, hx, hf⟩
    exact ⟨some a, k, hx, hf⟩

theorem gives_drawing {f : Nat → α × Nat} {n m : Nat} {a : α} :
    (drawing f).Gives n a m ↔ f n = (a, m) := by
  simp [Gives, drawing, Prod.ext_iff]

theorem not_gives_fail {p : Problem} {n m : Nat} {a : Option α} : ¬ (fail p).Gives n a m := by
  simp [Gives, fail]

/-! ## Properties of the value -/

/-- Every value the run can end with has the property. -/
def Always (P : α → Prop) (x : Run α) : Prop := ∀ n d, x n = some d → P d.value

section Always

variable {P : α → Prop} {Q : β → Prop} {R : Option β → Prop}

theorem always_mono {P' : α → Prop} {x : Run α} (h : ∀ a, P a → P' a) (hx : Always P x) : Always P' x :=
  fun n d hd => h _ (hx n d hd)

theorem always_stuck : Always P stuck := by
  intro n d h
  cases h

theorem always_pure {a : α} (h : P a) : Always P (Run.pure a) := by
  rintro n d ⟨⟩
  exact h

theorem always_bind {x : Run α} {f : α → Run β} (hx : Always P x) (hf : ∀ a, P a → Always Q (f a)) :
    Always Q (x.bind f) := by
  intro n e h
  obtain ⟨d, d', hd, hd', rfl⟩ := bind_eq_some.mp h
  exact hf d.value (hx n d hd) d.next d' hd'

theorem always_andThen {x : Run (Option α)} {f : α → Run (Option β)} (hx : Always (∀ a ∈ ·, P a) x)
    (hn : R none) (hf : ∀ a, P a → Always R (f a)) : Always R (x.andThen f) := by
  refine always_bind hx fun a? ha => ?_
  cases a? with
  | none => exact always_pure hn
  | some a => exact hf a (ha a rfl)

theorem always_fail {R : Option α → Prop} {p : Problem} (h : R none) : Always R (fail p) := by
  rintro n d ⟨⟩
  exact h

theorem always_drawing {f : Nat → α × Nat} (h : ∀ n, P (f n).1) : Always P (drawing f) := by
  rintro n d ⟨⟩
  exact h n

theorem always_ofExcept {r : Except Problem α} (h : ∀ a, r = .ok a → P a) :
    Always (∀ a ∈ ·, P a) (ofExcept r) := by
  cases r with
  | ok a => exact always_pure (by simpa using h a rfl)
  | error p => exact always_fail (by simp)

theorem always_draw : Always (fun _ => True) draw := fun _ _ _ => trivial

theorem always_filterMap {f : α → Run (Option β)} {as : List α}
    (h : ∀ a ∈ as, Always (∀ b ∈ ·, Q b) (f a)) : Always (∀ b ∈ ·, Q b) (filterMap f as) := by
  induction as with
  | nil => exact always_pure (by simp)
  | cons a rest ih =>
    refine always_bind (h a (by simp)) fun b? hb => ?_
    refine always_bind (ih fun x hx => h x (by simp [hx])) fun bs hbs => always_pure ?_
    intro b hm
    rcases List.mem_append.mp hm with hm | hm
    · exact hb b (by simpa using hm)
    · exact hbs b hm

theorem always_collect {f : α → Run (Option β)} (h : ∀ a, Always (∀ b ∈ ·, Q b) (f a)) (as : List α) :
    Always (∀ bs ∈ ·, ∀ b ∈ bs, Q b) (collect f as) := by
  induction as with
  | nil => exact always_pure (by simp)
  | cons a rest ih =>
    refine always_andThen (h a) (by simp) fun b hb => ?_
    refine always_andThen ih (by simp) fun bs hbs => always_pure ?_
    simpa using ⟨hb, hbs⟩

/-- The run can end with this value. -/
def Yields (x : Run (Option α)) (a : α) : Prop := ∃ n d, x n = some d ∧ d.value = some a

theorem always_yields (x : Run (Option α)) : Always (∀ a ∈ ·, x.Yields a) x :=
  fun n d hd _ ha => ⟨n, d, hd, ha⟩

/-- All items having a value, each of the values is one of its item, in order. -/
theorem always_collect_yields (f : α → Run (Option β)) (as : List α) :
    Always (∀ bs ∈ ·, List.Forall₂ (fun a b => (f a).Yields b) as bs) (collect f as) := by
  induction as with
  | nil => exact always_pure (by simp)
  | cons a rest ih =>
    refine always_andThen (always_yields (f a)) (by simp) fun b hb => ?_
    refine always_andThen ih (by simp) fun bs hbs => always_pure ?_
    intro bs' h
    cases h
    exact .cons hb hbs

end Always

/-! ## Properties of the value and of the numbers -/

/-- Started at `n` the run ends no earlier, and where it ends and its value are as said. -/
def Ends (x : Run α) (n : Nat) (P : Nat → α → Prop) : Prop :=
  ∀ d, x n = some d → n ≤ d.next ∧ P d.next d.value

section Ends

variable {n : Nat} {P : Nat → α → Prop} {Q : Nat → β → Prop} {R : Nat → Option β → Prop}

theorem ends_mono {P' : Nat → α → Prop} {x : Run α} (h : ∀ m a, n ≤ m → P m a → P' m a) (hx : x.Ends n P) :
    x.Ends n P' := by
  intro d hd
  obtain ⟨hle, hp⟩ := hx d hd
  exact ⟨hle, h _ _ hle hp⟩

theorem ends_stuck : (stuck : Run α).Ends n P := by
  intro d h
  cases h

theorem ends_pure {a : α} (h : P n a) : (Run.pure a).Ends n P := by
  rintro d ⟨⟩
  exact ⟨Nat.le_refl n, h⟩

theorem ends_draw {P : Nat → Nat → Prop} (h : P (n + 1) n) : draw.Ends n P := by
  rintro d ⟨⟩
  exact ⟨Nat.le_succ n, h⟩

theorem ends_drawing {f : Nat → α × Nat} (hn : n ≤ (f n).2) (h : P (f n).2 (f n).1) :
    (drawing f).Ends n P := by
  rintro d ⟨⟩
  exact ⟨hn, h⟩

theorem ends_fail {R : Nat → Option α → Prop} {p : Problem} (h : R n none) : (fail p).Ends n R := by
  rintro d ⟨⟩
  exact ⟨Nat.le_refl n, h⟩

theorem ends_bind {x : Run α} {f : α → Run β} (hx : x.Ends n P)
    (hf : ∀ k a, n ≤ k → P k a → (f a).Ends k Q) : (x.bind f).Ends n Q := by
  intro e h
  obtain ⟨d, d', hd, hd', rfl⟩ := bind_eq_some.mp h
  obtain ⟨hle, hp⟩ := hx d hd
  obtain ⟨hle', hq⟩ := hf _ _ hle hp d' hd'
  exact ⟨Nat.le_trans hle hle', hq⟩

/-- A run that draws a number first goes on with that number. -/
theorem ends_bind_draw {f : Nat → Run β} (h : (f n).Ends (n + 1) Q) : (draw.bind f).Ends n Q := by
  refine ends_bind (P := fun m id => m = n + 1 ∧ id = n) (ends_draw ⟨rfl, rfl⟩) ?_
  rintro m id - ⟨rfl, rfl⟩
  exact h

theorem ends_andThen {x : Run (Option α)} {f : α → Run (Option β)}
    (hx : x.Ends n fun k a? => ∀ a ∈ a?, P k a) (hn : ∀ k, R k none)
    (hf : ∀ k a, n ≤ k → P k a → (f a).Ends k R) : (x.andThen f).Ends n R := by
  refine ends_bind hx fun k a? hle ha => ?_
  cases a? with
  | none => exact ends_pure (hn k)
  | some a => exact hf k a hle (ha a rfl)

theorem ends_collect {f : α → Run (Option β)} (hf : ∀ a k, (f a).Ends k fun _ _ => True) (as : List α) :
    (collect f as).Ends n fun _ _ => True := by
  induction as generalizing n with
  | nil => exact ends_pure trivial
  | cons a rest ih =>
    refine ends_andThen (P := fun _ _ => True) ?_ (fun _ => trivial) fun k b _ _ => ?_
    · exact ends_mono (fun _ _ _ _ _ _ => trivial) (hf a n)
    · refine ends_andThen (P := fun _ _ => True) ?_ (fun _ => trivial) fun _ _ _ _ => ends_pure trivial
      exact ends_mono (fun _ _ _ _ _ _ => trivial) ih

end Ends

/-! ## Runs that say why they give nothing -/

/-- Nothing is given without a problem. -/
def Loud (x : Run (Option α)) : Prop := ∀ n m ps, x n = some ⟨none, m, ps⟩ → ps ≠ []

theorem loud_stuck : (stuck : Run (Option α)).Loud := by
  intro n m ps h
  cases h

theorem loud_some (a : α) : (Run.pure (some a)).Loud := by
  intro n m ps h
  simp [Run.pure] at h

theorem loud_fail (p : Problem) : (fail p : Run (Option α)).Loud := by
  rintro n m ps ⟨⟩
  simp

theorem loud_ofExcept (r : Except Problem α) : (ofExcept r).Loud := by
  cases r with
  | ok a => exact loud_some a
  | error p => exact loud_fail p

theorem loud_bind {x : Run α} {f : α → Run (Option β)} (hf : ∀ a, (f a).Loud) : (x.bind f).Loud := by
  intro n m ps h
  obtain ⟨d, ⟨b, k, qs⟩, hd, hd', he⟩ := bind_eq_some.mp h
  simp only [Done.mk.injEq] at he
  obtain ⟨rfl, rfl, rfl⟩ := he
  have := hf d.value d.next m qs hd'
  simp [this]

theorem loud_andThen {x : Run (Option α)} {f : α → Run (Option β)} (hx : x.Loud)
    (hf : ∀ a, (f a).Loud) : (x.andThen f).Loud := by
  intro n m ps h
  obtain ⟨⟨a?, k, qs⟩, d', hd, hd', he⟩ := bind_eq_some.mp h
  cases a? with
  | none =>
    have := hx n k qs hd
    simp only [Done.mk.injEq] at he
    simp [he.2.2, this]
  | some a =>
    obtain ⟨b, l, rs⟩ := d'
    simp only [Done.mk.injEq] at he
    obtain ⟨rfl, rfl, rfl⟩ := he
    have := hf a k m rs hd'
    simp [this]

theorem loud_collect {f : α → Run (Option β)} (hf : ∀ a, (f a).Loud) (as : List α) :
    (collect f as).Loud := by
  induction as with
  | nil => exact loud_some []
  | cons a rest ih =>
    exact loud_andThen (hf a) fun b => loud_andThen ih fun bs => loud_some (b :: bs)

/-- Without a problem, loud runs over a list give one value for each item, in order. -/
theorem gives_filterMap {f : α → Run (Option β)} (hf : ∀ a, (f a).Loud) {as : List α} {bs : List β}
    {n m : Nat} (h : (filterMap f as).Gives n bs m) :
    List.Forall₂ (fun a b => ∃ k l, (f a).Gives k (some b) l) as bs := by
  induction as generalizing n bs with
  | nil =>
    obtain ⟨rfl, -⟩ := gives_pure.mp h
    exact .nil
  | cons a rest ih =>
    obtain ⟨b?, k, hb, h⟩ := gives_bind.mp h
    obtain ⟨cs, l, hcs, h⟩ := gives_bind.mp h
    obtain ⟨rfl, rfl⟩ := gives_pure.mp h
    cases b? with
    | none => exact absurd rfl (hf a n k [] hb)
    | some b => exact .cons ⟨n, k, hb⟩ (ih hcs)

/-! ## Runs that end alike -/

/-- Where `x` ends, `y` ends with the same value, the same next number and problems of the
same kinds. -/
def Leads (x y : Run α) : Prop :=
  ∀ n d, x n = some d → ∃ d', y n = some d' ∧ d'.value = d.value ∧ d'.next = d.next ∧
    d'.problems.map Problem.kind = d.problems.map Problem.kind

theorem leads_refl (x : Run α) : x.Leads x := fun _ d h => ⟨d, h, rfl, rfl, rfl⟩

theorem leads_stuck (y : Run α) : stuck.Leads y := by
  intro n d h
  cases h

theorem leads_fail {p q : Problem} (h : q.kind = p.kind) : (fail p : Run (Option α)).Leads (fail q) := by
  rintro n d ⟨⟩
  exact ⟨_, rfl, rfl, rfl, by simp [h]⟩

theorem leads_bind {x y : Run α} {f g : α → Run β} (hx : x.Leads y) (hf : ∀ a, (f a).Leads (g a)) :
    (x.bind f).Leads (y.bind g) := by
  intro n e h
  obtain ⟨d, e', hd, he', rfl⟩ := bind_eq_some.mp h
  obtain ⟨d₂, hd₂, hv, hn, hk⟩ := hx n d hd
  obtain ⟨e₂, he₂, hv', hn', hk'⟩ := hf d.value d.next e' he'
  refine ⟨⟨e₂.value, e₂.next, d₂.problems ++ e₂.problems⟩, ?_, hv', hn', by simp [hk, hk']⟩
  exact bind_eq_some.mpr ⟨d₂, e₂, hd₂, by rw [hv, hn]; exact he₂, rfl⟩

theorem leads_andThen {x y : Run (Option α)} {f g : α → Run (Option β)} (hx : x.Leads y)
    (hf : ∀ a, (f a).Leads (g a)) : (x.andThen f).Leads (y.andThen g) := by
  refine leads_bind hx fun a? => ?_
  cases a? with
  | none => exact leads_refl _
  | some a => exact hf a

theorem leads_filterMap {f g : α → Run (Option β)} {as bs : List α}
    (h : List.Forall₂ (fun a b => (f a).Leads (g b)) as bs) : (filterMap f as).Leads (filterMap g bs) := by
  induction h with
  | nil => exact leads_refl _
  | cons hab _ ih => exact leads_bind hab fun b => leads_bind ih fun bs => leads_refl _

theorem leads_collect {f g : α → Run (Option β)} {as bs : List α}
    (h : List.Forall₂ (fun a b => (f a).Leads (g b)) as bs) : (collect f as).Leads (collect g bs) := by
  induction h with
  | nil => exact leads_refl _
  | cons hab _ ih => exact leads_andThen hab fun b => leads_andThen ih fun bs => leads_refl _

end Run
end RuleTree
