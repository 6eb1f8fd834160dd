/-
  RuleTree.Proofs.Reading — what holds of every document that is read.

  Reading JSON text makes scalars, and lists and maps of what it has read. So a property that
  scalars have, and lists and maps by their parts, holds of whatever is read
  (`Doc.Hereditary.of_readDoc?`). The induction is on the room the reader has, over values, items
  and members at once.
-/

import RuleTree.Json.Reader
import RuleTree.Proofs.Sameness

namespace RuleTree

/-- Scalars of JSON text have the property, and lists and maps have it by their parts. -/
structure Doc.Hereditary (P : Doc → Prop) : Prop where
  null : P .null
  bool (b : Bool) : P (.bool b)
  str (s : String) : P (.str s)
  num {neg : Bool} {cs rest : List Char} {n : Num} (h : JsonText.number? neg cs = some (some n, rest)) : P (.num n)
  list {items : List Doc} (h : ∀ d ∈ items, P d) : P (.list items)
  map {entries : List (String × Doc)} (h : ∀ p ∈ entries, P p.2) : P (.map entries)
  unreadable : P .unreadable

namespace Doc.Hereditary

open JsonText

variable {P : Doc → Prop} (hP : Hereditary P)

include hP

theorem textDoc (s : Option (List Char)) : P (textDoc s) := by
  cases s with
  | none => exact hP.unreadable
  | some s => exact hP.str _

theorem numberDoc {neg : Bool} {cs rest : List Char} {x : Option Num} (h : number? neg cs = some (x, rest)) :
    P (numberDoc x) := by
  cases x with
  | none => exact hP.unreadable
  | some x => exact hP.num h

theorem ofEntries {entries : List (Doc × Doc)} (h : ∀ p ∈ entries, P p.2) : P (ofEntries entries) := by
  unfold Doc.ofEntries
  split
  · rename_i members hmembers
    refine hP.map fun p hp => ?_
    obtain ⟨e, he, hread⟩ := exists_of_mem_mapM hmembers hp
    obtain ⟨k, -, rfl⟩ := Option.map_eq_some_iff.mp hread
    exact h e he
  · exact hP.unreadable

omit hP in
theorem of_map {α : Type} {x : Option α} {f : α → Doc × List Char} {d : Doc} {rest : List Char}
    (h : x.map f = some (d, rest)) (hf : ∀ a, x = some a → P (f a).1) : P d := by
  obtain ⟨a, ha, he⟩ := Option.map_eq_some_iff.mp h
  have hd := hf a ha
  rwa [he] at hd

theorem of_readN (n : Nat) :
    (∀ {deep cs d rest}, valueN n deep cs = some (d, rest) → P d) ∧
      (∀ {deep cs ds rest}, itemsN n deep cs = some (ds, rest) → ∀ d ∈ ds, P d) ∧
      ∀ {deep cs ps rest}, membersN n deep cs = some (ps, rest) → ∀ p ∈ ps, P p.2 := by
  induction n with
  | zero => exact ⟨nofun, nofun, nofun⟩
  | succ n ih =>
    obtain ⟨hvalue, hitems, hmembers⟩ := ih
    have hheld : ∀ {deep : Nat} {d : Doc}, P d → P (if deep == 0 then Doc.unreadable else d) := by
      intro deep d hd
      split
      · exact hP.unreadable
      · exact hd
    refine ⟨fun {deep cs d rest} h => ?_, fun {deep cs ds rest} h => ?_, fun {deep cs ps rest} h => ?_⟩
    · unfold valueN at h
      simp only at h
      split at h
      · exact of_map h fun r _ => hP.textDoc _
      · split at h
        · cases h
          exact hheld (hP.list (by simp))
        · exact of_map h fun r hr => hheld (hP.list (hitems hr))
      · split at h
        · cases h
          exact hheld (hP.map (by simp))
        · exact of_map h fun r hr => hheld (hP.ofEntries (hmembers hr))
      · exact of_map h fun _ _ => hP.null
      · exact of_map h fun _ _ => hP.bool true
      · exact of_map h fun _ _ => hP.bool false
      · exact of_map h fun r hr => hP.numberDoc hr
      · exact of_map h fun r hr => hP.numberDoc hr
    · unfold itemsN at h
      obtain ⟨⟨x, after⟩, hx, h⟩ := Option.bind_eq_some_iff.mp h
      simp only at h
      split at h
      · obtain ⟨⟨xs, after⟩, hxs, h⟩ := Option.bind_eq_some_iff.mp h
        cases h
        exact List.forall_mem_cons.mpr ⟨hvalue hx, hitems hxs⟩
      · cases h
        exact List.forall_mem_cons.mpr ⟨hvalue hx, nofun⟩
      · cases h
    · unfold membersN at h
      split at h
      · obtain ⟨⟨k, after⟩, -, h⟩ := Option.bind_eq_some_iff.mp h
        simp only at h
        split at h
        · obtain ⟨⟨x, after⟩, hx, h⟩ := Option.bind_eq_some_iff.mp h
          simp only at h
          split at h
          · obtain ⟨⟨ps, after⟩, hps, h⟩ := Option.bind_eq_some_iff.mp h
            cases h
            exact List.forall_mem_cons.mpr ⟨hvalue hx, hmembers hps⟩
          · cases h
            exact List.forall_mem_cons.mpr ⟨hvalue hx, nofun⟩
          · cases h
        · cases h
      · cases h

/-- Whatever is read of a text has the property. -/
theorem of_readDoc? {text : String} {d : Doc} (h : readDoc? text = some d) : P d := by
  unfold readDoc? at h
  simp only at h
  split at h
  · rename_i value rest hvalue
    split at h
    · cases h
      exact (hP.of_readN _).1 hvalue
    · cases h
  · cases h

end Doc.Hereditary
end RuleTree
