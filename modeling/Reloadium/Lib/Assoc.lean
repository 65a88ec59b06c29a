import Mathlib.Data.List.Basic
import Mathlib.Data.List.Nodup

namespace Reloadium.Lib

/-!
# Library — association lists with distinct keys

A mutable map whose entries are listed: a list of pairs with distinct keys, read with
`List.lookup`.

* `Assoc.put`, `Assoc.remove` — bind a key in its place or at the end; forget a key;
* `lookup_put`, `lookup_remove` — what they bind;
* `nodup_put`, `nodup_remove` — the keys stay distinct;
* `lookup_eq_some_iff` — with distinct keys, the bindings are the entries;
* `Assoc.entries` — a partial function, as the entries at a list of keys.
-/

namespace Assoc

variable {κ ν : Type*} [DecidableEq κ] {l : List (κ × ν)} {k k' : κ} {v v' : ν}

/-- Bind `k` to `v`: in the place of `k` if it is bound already. -/
def put (l : List (κ × ν)) (k : κ) (v : ν) : List (κ × ν) :=
  if l.any (·.1 == k) then l.map fun e => if e.1 = k then (k, v) else e else l ++ [(k, v)]

/-- Forget `k`. -/
def remove (l : List (κ × ν)) (k : κ) : List (κ × ν) := l.filter (·.1 ≠ k)

/-! ### Lookup -/

theorem lookup_cons_of_ne (h : k' ≠ k) (l : List (κ × ν)) :
    ((k, v) :: l).lookup k' = l.lookup k' := by
  rw [List.lookup_cons, beq_false_of_ne h]

theorem mem_of_lookup (h : l.lookup k = some v) : (k, v) ∈ l := by
  obtain ⟨l₁, l₂, rfl, -⟩ := List.lookup_eq_some_iff.mp h
  exact List.mem_append_right _ List.mem_cons_self

theorem lookup_eq_none_iff : l.lookup k = none ↔ k ∉ l.map Prod.fst := by
  rw [List.lookup_eq_none_iff, List.mem_map]
  apply Iff.intro
  · rintro h ⟨e, hmem, rfl⟩
    simpa using h e hmem
  · intro h e hmem
    simpa using fun heq => h ⟨e, hmem, Eq.symm heq⟩

/-- With distinct keys, the bindings are the entries. -/
theorem lookup_eq_some_iff (h : (l.map Prod.fst).Nodup) : l.lookup k = some v ↔ (k, v) ∈ l := by
  refine ⟨mem_of_lookup, fun hmem => ?_⟩
  induction l with
  | nil => cases hmem
  | cons e rest ih =>
    obtain ⟨k₁, v₁⟩ := e
    rw [List.map_cons, List.nodup_cons] at h
    rcases List.mem_cons.mp hmem with heq | hrest
    · cases heq
      exact List.lookup_cons_self
    · have hk : k ≠ k₁ := by
        intro heq
        apply h.1
        exact List.mem_map.mpr ⟨(k, v), hrest, heq⟩
      rw [lookup_cons_of_ne hk]
      exact ih h.2 hrest

theorem any_key_iff : l.any (·.1 == k) = true ↔ k ∈ l.map Prod.fst := by
  simp only [List.any_eq_true, beq_iff_eq, List.mem_map]

/-! ### Put -/

/-- Binding a key in its place. -/
theorem lookup_map_replace (k k' : κ) (v : ν) (l : List (κ × ν)) :
    (l.map fun e => if e.1 = k then (k, v) else e).lookup k' =
      if k' = k then (l.lookup k').map fun _ => v else l.lookup k' := by
  induction l with
  | nil => simp
  | cons e rest ih =>
    obtain ⟨k₁, v₁⟩ := e
    rw [List.map_cons]
    by_cases hk₁ : k₁ = k
    · subst hk₁
      rw [if_pos rfl]
      by_cases hk : k' = k₁
      · subst hk
        rw [List.lookup_cons_self, List.lookup_cons_self, if_pos rfl]
        rfl
      · rw [lookup_cons_of_ne hk, lookup_cons_of_ne hk, ih, if_neg hk]
    · rw [if_neg (show ¬ (k₁, v₁).1 = k from hk₁)]
      by_cases hk : k' = k₁
      · subst hk
        rw [List.lookup_cons_self, List.lookup_cons_self, if_neg hk₁]
      · rw [lookup_cons_of_ne hk, lookup_cons_of_ne hk, ih]

theorem lookup_put (l : List (κ × ν)) (k k' : κ) (v : ν) :
    (put l k v).lookup k' = if k' = k then some v else l.lookup k' := by
  unfold put
  split
  · next hany =>
    rw [lookup_map_replace]
    by_cases hk : k' = k
    · subst hk
      cases hlookup : l.lookup k' with
      | none => exact absurd (any_key_iff.mp hany) (lookup_eq_none_iff.mp hlookup)
      | some w => simp
    · rw [if_neg hk, if_neg hk]
  · next hany =>
    have hnone : l.lookup k = none := lookup_eq_none_iff.mpr fun hmem =>
      hany (any_key_iff.mpr hmem)
    rw [List.lookup_append]
    by_cases hk : k' = k
    · subst hk
      rw [hnone, if_pos rfl, List.lookup_cons_self]
      rfl
    · rw [lookup_cons_of_ne hk, if_neg hk]
      simp

/-- The keys after `put`. -/
theorem keys_put (l : List (κ × ν)) (k : κ) (v : ν) :
    (put l k v).map Prod.fst =
      if k ∈ l.map Prod.fst then l.map Prod.fst else l.map Prod.fst ++ [k] := by
  unfold put
  by_cases hmem : k ∈ l.map Prod.fst
  · rw [if_pos (any_key_iff.mpr hmem), if_pos hmem, List.map_map]
    refine List.map_congr_left fun e _ => ?_
    show (if e.1 = k then (k, v) else e).1 = e.1
    split
    · next heq => exact heq.symm
    · rfl
  · rw [if_neg fun hany => hmem (any_key_iff.mp hany), if_neg hmem, List.map_append]
    rfl

theorem mem_keys_put : k' ∈ (put l k v).map Prod.fst ↔ k' = k ∨ k' ∈ l.map Prod.fst := by
  rw [keys_put]
  split
  · next hmem =>
    refine ⟨Or.inr, ?_⟩
    rintro (rfl | h)
    · exact hmem
    · exact h
  · rw [List.mem_append, List.mem_singleton, or_comm]

theorem nodup_put (h : (l.map Prod.fst).Nodup) : ((put l k v).map Prod.fst).Nodup := by
  rw [keys_put]
  split
  · exact h
  · next hmem =>
    refine List.nodup_append.mpr ⟨h, List.nodup_singleton k, fun a ha b hb hab => ?_⟩
    rw [List.mem_singleton] at hb
    exact hmem (hb ▸ hab ▸ ha)

/-! ### Remove -/

theorem mem_remove {e : κ × ν} : e ∈ remove l k ↔ e ∈ l ∧ e.1 ≠ k := by
  simp only [remove, List.mem_filter, decide_eq_true_eq]

theorem mem_keys_remove : k' ∈ (remove l k).map Prod.fst ↔ k' ∈ l.map Prod.fst ∧ k' ≠ k := by
  simp only [List.mem_map, mem_remove]
  apply Iff.intro
  · rintro ⟨e, ⟨hmem, hne⟩, rfl⟩
    exact ⟨⟨e, hmem, rfl⟩, hne⟩
  · rintro ⟨⟨e, hmem, rfl⟩, hne⟩
    exact ⟨e, ⟨hmem, hne⟩, rfl⟩

theorem nodup_remove (h : (l.map Prod.fst).Nodup) : ((remove l k).map Prod.fst).Nodup :=
  h.sublist (List.filter_sublist.map _)

theorem lookup_remove (l : List (κ × ν)) (k k' : κ) :
    (remove l k).lookup k' = if k' = k then none else l.lookup k' := by
  induction l with
  | nil => simp [remove]
  | cons e rest ih =>
    obtain ⟨k₁, v₁⟩ := e
    have hcons : remove ((k₁, v₁) :: rest) k =
        if k₁ = k then remove rest k else (k₁, v₁) :: remove rest k := by
      rw [remove, List.filter_cons]
      by_cases hk : k₁ = k <;> simp [hk, remove]
    rw [hcons]
    by_cases hk₁ : k₁ = k
    · subst hk₁
      rw [if_pos rfl, ih]
      by_cases hk : k' = k₁
      · rw [if_pos hk, if_pos hk]
      · rw [if_neg hk, if_neg hk, lookup_cons_of_ne hk]
    · rw [if_neg hk₁]
      by_cases hk : k' = k₁
      · subst hk
        rw [List.lookup_cons_self, List.lookup_cons_self, if_neg hk₁]
      · rw [lookup_cons_of_ne hk, lookup_cons_of_ne hk, ih]

/-! ### The entries of a partial function -/

/-- The entries of a partial function at some keys. -/
def entries (m : κ → Option ν) (keys : List κ) : List (κ × ν) :=
  keys.filterMap fun k => (m k).map fun v => (k, v)

omit [DecidableEq κ] in
theorem keys_entries (m : κ → Option ν) (keys : List κ) :
    (entries m keys).map Prod.fst = keys.filter fun k => (m k).isSome := by
  unfold entries
  induction keys with
  | nil => rfl
  | cons k keys ih =>
    rw [List.filterMap_cons, List.filter_cons]
    cases hk : m k with
    | none => simpa [hk] using ih
    | some v => simpa [hk] using ih

omit [DecidableEq κ] in
theorem nodup_entries (m : κ → Option ν) {keys : List κ} (h : keys.Nodup) :
    ((entries m keys).map Prod.fst).Nodup := by
  rw [keys_entries]
  exact h.filter _

/-- A list of keys that has those of the function gives all its bindings. -/
theorem lookup_entries {m : κ → Option ν} {keys : List κ} (h : (m k).isSome → k ∈ keys) :
    (entries m keys).lookup k = m k := by
  unfold entries
  induction keys with
  | nil =>
    cases hk : m k with
    | none => rfl
    | some v => simp [hk] at h
  | cons a keys ih =>
    rw [List.filterMap_cons]
    by_cases ha : k = a
    · subst ha
      cases hk : m k with
      | none =>
        have hrest := ih (by simp [hk])
        simpa [hk] using hrest
      | some v => simp
    · have hrest := ih fun hk => List.mem_of_ne_of_mem ha (h hk)
      cases m a with
      | none => exact hrest
      | some v => exact (lookup_cons_of_ne ha _).trans hrest

end Assoc

end Reloadium.Lib
