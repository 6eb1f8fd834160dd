/-
  RuleTree.Convert.Run — runs of a conversion.

  A run starts at the number of the next node, and either gets stuck (its allowance of
  nested conversions is used up) or ends with a value, the next free number and the
  problems it recorded, in order. A run can only add problems and only draw numbers
  upwards: nothing in it sees what was recorded before.
-/

import RuleTree.Problem

namespace RuleTree

/-- What a run that is not stuck ends with. -/
structure Done (α : Type) where
  value : α
  next : Nat
  problems : List Problem

/-- From the next free number to an outcome; `none` when stuck. -/
def Run (α : Type) := Nat → Option (Done α)

namespace Run

variable {α β : Type}

protected def pure (a : α) : Run α := fun n => some ⟨a, n, []⟩

protected def bind (x : Run α) (f : α → Run β) : Run β := fun n =>
  match x n with
  | none => none
  | some d =>
    match f d.value d.next with
    | none => none
    | some e => some ⟨e.value, e.next, d.problems ++ e.problems⟩

instance : Monad Run where
  pure := Run.pure
  bind := Run.bind

/-- No outcome. -/
def stuck : Run α := fun _ => none

/-- Draw the number of a new node. -/
def draw : Run Nat := fun n => some ⟨n, n + 1, []⟩

/-- A step that only draws numbers. -/
def drawing (f : Nat → α × Nat) : Run α := fun n => some ⟨(f n).1, (f n).2, []⟩

/-- Nothing, for a recorded reason. -/
def fail (p : Problem) : Run (Option α) := fun n => some ⟨none, n, [p]⟩

/-- A value, or nothing for a recorded reason. -/
def ofExcept : Except Problem α → Run (Option α)
  | .ok a => Run.pure (some a)
  | .error p => fail p

/-- Go on with a value, if there is one. -/
def andThen (x : Run (Option α)) (f : α → Run (Option β)) : Run (Option β) :=
  x.bind fun
    | some a => f a
    | none => Run.pure none

/-! ## Lists -/

/-- The values of the items that have one, in order. -/
def filterMap (f : α → Run (Option β)) : List α → Run (List β)
  | [] => Run.pure []
  | a :: rest => (f a).bind fun b => (filterMap f rest).bind fun bs =>
      Run.pure (b.toList ++ bs)

/-- The values of all items, up to the first one that has none. -/
def collect (f : α → Run (Option β)) : List α → Run (Option (List β))
  | [] => Run.pure (some [])
  | a :: rest => (f a).andThen fun b => (collect f rest).andThen fun bs =>
      Run.pure (some (b :: bs))

/-! ## Laws -/

@[simp] theorem pure_bind (a : α) (f : α → Run β) : (Run.pure a).bind f = f a := by
  funext n
  simp only [Run.bind, Run.pure, List.nil_append]
  cases f a n <;> rfl

@[simp] theorem bind_pure (x : Run α) : x.bind Run.pure = x := by
  funext n
  simp only [Run.bind, Run.pure, List.append_nil]
  cases x n <;> rfl

theorem bind_assoc {γ : Type} (x : Run α) (f : α → Run β) (g : β → Run γ) :
    (x.bind f).bind g = x.bind fun a => (f a).bind g := by
  funext n
  simp only [Run.bind]
  cases x n with
  | none => rfl
  | some d =>
    simp only
    cases f d.value d.next with
    | none => rfl
    | some e =>
      simp only
      cases g e.value e.next <;> simp

end Run
end RuleTree
