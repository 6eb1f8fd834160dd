/-
  RuleTree.Table — tables by name that keep the order of declaration.

  A table is a list of pairs with each name once. Putting a name that is there already
  keeps its place and takes the new value.
  - `get?_put_self`, `get?_put_of_ne`: what a look-up sees after `put`.
  - `keys_put`: the names after `put`; `nodup_keys_put`: still each once.
  - `mem_of_get?`: a look-up finds a pair of the table; `mem_of_mem_ofPairs`: and the pairs
    of a table made of pairs are among these; `nodup_keys_ofPairs`: each name once.
-/

namespace RuleTree

abbrev Table (α : Type) := List (String × α)

namespace Table

variable {α : Type}

def get? (t : Table α) (k : String) : Option α := t.lookup k

def has (t : Table α) (k : String) : Bool := (t.get? k).isSome

def keys (t : Table α) : List String := t.map Prod.fst

def put (k : String) (v : α) : Table α → Table α
  | [] => [(k, v)]
  | (k', v') :: rest => if k' = k then (k, v) :: rest else (k', v') :: put k v rest

/-- The table of pairs in order; of a repeated name the first place and the last value. -/
def ofPairs (pairs : List (String × α)) : Table α :=
  pairs.foldl (fun t (k, v) => put k v t) []

theorem get?_put_self (t : Table α) (k : String) (v : α) : (put k v t).get? k = some v := by
  induction t with
  | nil => simp [put, get?]
  | cons p rest ih =>
    obtain ⟨k', v'⟩ := p
    by_cases h : k' = k
    · simp [put, get?, h]
    · simpa [put, get?, h, List.lookup_cons, beq_eq_false_iff_ne.2 (Ne.symm h)] using ih

theorem get?_put_of_ne (t : Table α) {j k : String} (v : α) (h : j ≠ k) :
    (put k v t).get? j = t.get? j := by
  induction t with
  | nil => simp [put, get?, List.lookup_cons, beq_eq_false_iff_ne.2 h]
  | cons p rest ih =>
    obtain ⟨k', v'⟩ := p
    by_cases hk : k' = k
    · subst hk; simp [put, get?, List.lookup_cons, beq_eq_false_iff_ne.2 h]
    · simp only [get?] at ih
      simp [put, get?, hk, List.lookup_cons, ih]

theorem keys_put (t : Table α) (k : String) (v : α) :
    (put k v t).keys = if k ∈ t.keys then t.keys else t.keys ++ [k] := by
  induction t with
  | nil => simp [put, keys]
  | cons p rest ih =>
    obtain ⟨k', v'⟩ := p
    by_cases hk : k' = k
    · subst hk; simp [put, keys]
    · simp only [keys] at ih
      by_cases hm : k ∈ rest.map Prod.fst
      · simp [put, keys, hk, ih, hm]
      · simp [put, keys, hk, ih, hm, Ne.symm hk]

theorem nodup_keys_put (t : Table α) (k : String) (v : α) (h : t.keys.Nodup) :
    (put k v t).keys.Nodup := by
  rw [keys_put]
  split
  · exact h
  · rename_i hk
    exact List.nodup_append.2 ⟨h, by simp, by
      intro a ha b hb e
      rw [List.mem_singleton] at hb
      exact hk (hb ▸ e ▸ ha)⟩

theorem mem_of_get? {t : Table α} {k : String} {v : α} (h : t.get? k = some v) : (k, v) ∈ t := by
  obtain ⟨t₁, t₂, rfl, -⟩ := List.lookup_eq_some_iff.mp h
  simp

theorem mem_of_mem_put {t : Table α} {k : String} {v : α} {p : String × α} (h : p ∈ put k v t) :
    p = (k, v) ∨ p ∈ t := by
  induction t with
  | nil => simpa [put] using h
  | cons q rest ih =>
    unfold put at h
    split at h
    · rcases List.mem_cons.mp h with h | h
      · exact .inl h
      · exact .inr (List.mem_cons_of_mem q h)
    · rcases List.mem_cons.mp h with h | h
      · exact .inr (by simp [h])
      · exact (ih h).imp id (List.mem_cons_of_mem q)

/-- A table of pairs holds no others. -/
theorem mem_of_mem_ofPairs {pairs : List (String × α)} {p : String × α} (h : p ∈ ofPairs pairs) :
    p ∈ pairs := by
  have run : ∀ (todo : List (String × α)) (t : Table α),
      p ∈ todo.foldl (fun t (k, v) => put k v t) t → p ∈ todo ∨ p ∈ t := by
    intro todo
    induction todo with
    | nil => exact fun t h => .inr h
    | cons q rest ih =>
      intro t h
      rcases ih _ h with h | h
      · exact .inl (List.mem_cons_of_mem q h)
      · rcases mem_of_mem_put h with rfl | h
        · exact .inl (by simp)
        · exact .inr h
  simpa using run pairs [] h

theorem nodup_keys_ofPairs (pairs : List (String × α)) : (ofPairs pairs).keys.Nodup := by
  have run : ∀ (todo : List (String × α)) (t : Table α), t.keys.Nodup →
      (todo.foldl (fun t p => put p.1 p.2 t) t).keys.Nodup := by
    intro todo
    induction todo with
    | nil => exact fun t h => h
    | cons p rest ih => exact fun t h => ih _ (nodup_keys_put t p.1 p.2 h)
  exact run pairs [] List.nodup_nil

end Table
end RuleTree
