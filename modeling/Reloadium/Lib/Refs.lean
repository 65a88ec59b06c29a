import Mathlib.Data.List.AList

namespace Reloadium.Lib

/-!
# Library — shared objects by number

Objects that several collections refer to are kept in one list, in the order they were
created, and the collections hold their numbers.

* `getElem?_concat` — the objects after one more has been created;
* `modifyAll`, `map_getElem?_modifyAll` — a loop over numbers that changes the objects, seen
  through an observation on which a repetition makes no difference (`getElem?_modifyAll`
  without one);
* `mem_valuesOf`, `mem_flatten_valuesOf` — the values of a map, from its lookups, and the
  elements of the lists that are its values.
-/

variable {α β κ : Type*}

/-- The objects by their numbers after a new one has been created. -/
theorem getElem?_concat (objects : List α) (x : α) (i : Nat) :
    (objects ++ [x])[i]? = if i = objects.length then some x else objects[i]? := by
  rcases Nat.lt_trichotomy i objects.length with hlt | rfl | hgt
  · rw [List.getElem?_append_left hlt, if_neg (Nat.ne_of_lt hlt)]
  · rw [List.getElem?_concat_length, if_pos rfl]
  · have hout : (objects ++ [x]).length ≤ i := by
      rw [List.length_append, List.length_singleton]
      omega
    rw [List.getElem?_eq_none hout, if_neg (Nat.ne_of_gt hgt),
      List.getElem?_eq_none (Nat.le_of_lt hgt)]

/-- `f` is done to the object of each number of the list. -/
def modifyAll (f : α → α) (refs : List Nat) (objects : List α) : List α :=
  refs.foldl (fun objects ref => objects.modify ref f) objects

@[simp] theorem modifyAll_nil (f : α → α) (objects : List α) :
    modifyAll f [] objects = objects := rfl

@[simp] theorem modifyAll_cons (f : α → α) (ref : Nat) (refs : List Nat) (objects : List α) :
    modifyAll f (ref :: refs) objects = modifyAll f refs (objects.modify ref f) := rfl

theorem length_modifyAll (f : α → α) (refs : List Nat) (objects : List α) :
    (modifyAll f refs objects).length = objects.length := by
  induction refs generalizing objects with
  | nil => rfl
  | cons r refs ih => rw [modifyAll_cons, ih, List.length_modify]

/-- Seen through `obs`, for which doing `f` again makes no difference, the objects of the
    list have changed once and the others have not. -/
theorem map_getElem?_modifyAll {f : α → α} {obs : α → β} {g : β → β}
    (hobs : ∀ x, obs (f x) = g (obs x)) (hg : ∀ b, g (g b) = g b) (refs : List Nat)
    (objects : List α) (i : Nat) :
    (modifyAll f refs objects)[i]?.map obs =
      objects[i]?.map fun x => if i ∈ refs then g (obs x) else obs x := by
  induction refs generalizing objects with
  | nil => simp
  | cons ref refs ih =>
    rw [modifyAll_cons, ih, List.getElem?_modify, Option.map_eq_map, Option.map_map]
    congr 1
    funext x
    by_cases h : ref = i
    · subst h
      simp [hobs, hg]
    · simp [h, Ne.symm h]

/-- Where doing `f` again makes no difference at all, the objects of the list have changed
    once and the others have not. -/
theorem getElem?_modifyAll {f : α → α} (hf : ∀ x, f (f x) = f x) (refs : List Nat)
    (objects : List α) (i : Nat) :
    (modifyAll f refs objects)[i]? = objects[i]?.map fun x => if i ∈ refs then f x else x := by
  have hobs := @map_getElem?_modifyAll _ _ f id f (fun _ => rfl) hf refs objects i
  rwa [Option.map_id] at hobs

/-! ### Maps to lists -/

variable [DecidableEq κ]

/-- The values of a map. -/
def valuesOf (m : AList fun _ : κ => β) : List β := m.entries.map Sigma.snd

theorem mem_valuesOf {m : AList fun _ : κ => β} {b : β} :
    b ∈ valuesOf m ↔ ∃ k, m.lookup k = some b := by
  rw [valuesOf, List.mem_map]
  apply Iff.intro
  · rintro ⟨⟨k, _⟩, hmem, rfl⟩
    exact ⟨k, AList.mem_lookup_iff.mpr hmem⟩
  · rintro ⟨k, hk⟩
    exact ⟨⟨k, b⟩, AList.mem_lookup_iff.mp hk, rfl⟩

/-- The list a key is bound to, empty if it is not bound. -/
def listAt (m : AList fun _ : κ => List β) (k : κ) : List β := (m.lookup k).getD []

/-- The map with the key bound, to an empty list if it was not. -/
def withKey (m : AList fun _ : κ => List β) (k : κ) : AList fun _ : κ => List β :=
  if k ∈ m then m else m.insert k []

variable {m : AList fun _ : κ => List β} {k k' : κ}

theorem listAt_insert (m : AList fun _ : κ => List β) (k k' : κ) (l : List β) :
    listAt (m.insert k l) k' = if k' = k then l else listAt m k' := by
  unfold listAt
  by_cases h : k' = k
  · subst h
    simp
  · rw [AList.lookup_insert_ne h, if_neg h]

theorem listAt_withKey (m : AList fun _ : κ => List β) (k k' : κ) :
    listAt (withKey m k) k' = listAt m k' := by
  unfold withKey
  split
  · rfl
  · next hnot =>
    rw [listAt_insert]
    split
    · next h => rw [listAt, h, AList.lookup_eq_none.mpr hnot, Option.getD_none]
    · rfl

/-- The elements of all lists of a map. -/
theorem mem_flatten_valuesOf {b : β} : b ∈ (valuesOf m).flatten ↔ ∃ k, b ∈ listAt m k := by
  simp only [List.mem_flatten, mem_valuesOf, listAt]
  apply Iff.intro
  · rintro ⟨l, ⟨k, hk⟩, hmem⟩
    exact ⟨k, by rwa [hk]⟩
  · rintro ⟨k, hmem⟩
    cases hk : m.lookup k with
    | none => simp [hk] at hmem
    | some l => exact ⟨l, ⟨k, hk⟩, by rwa [hk] at hmem⟩

end Reloadium.Lib
