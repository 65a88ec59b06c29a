import Mathlib.Data.List.Nodup
import Mathlib.Logic.Function.Basic

namespace Reloadium.Lib

/-!
# Library — lists of records with distinct keys

A component that keeps its records in a list, each under a key of its own, represents a
partial function from the keys to what the records hold.  `Records key val l f` says that
the list `l` represents `f`, and each operation on the list is an update of the function.
-/

/-- The records of `l` have distinct keys, and represent the partial function `f`. -/
structure Records {β κ ν : Type*} (key : β → κ) (val : β → ν) (l : List β)
    (f : κ → Option ν) : Prop where
  nodup : (l.map key).Nodup
  eq_some_iff : ∀ k v, f k = some v ↔ ∃ r ∈ l, key r = k ∧ val r = v

namespace Records

variable {β κ ν : Type*} {key : β → κ} {val : β → ν} {l : List β} {f : κ → Option ν} {k : κ}

theorem nil : Records key val [] fun _ => none := ⟨List.nodup_nil, by simp⟩

/-- What the function says of a record's key. -/
theorem of_mem (h : Records key val l f) {r : β} (hr : r ∈ l) : f (key r) = some (val r) :=
  (h.eq_some_iff _ _).mpr ⟨r, hr, rfl, rfl⟩

theorem mem_keys_iff (h : Records key val l f) : k ∈ l.map key ↔ (f k).isSome = true := by
  rw [Option.isSome_iff_exists, List.mem_map]
  apply Iff.intro
  · rintro ⟨r, hr, rfl⟩
    exact ⟨_, h.of_mem hr⟩
  · rintro ⟨v, hv⟩
    obtain ⟨r, hr, hkey, -⟩ := (h.eq_some_iff k v).mp hv
    exact ⟨r, hr, hkey⟩

/-- Changing what the function does not see of the records. -/
theorem map (h : Records key val l f) {g : β → β} (hkey : ∀ r, key (g r) = key r)
    (hval : ∀ r, val (g r) = val r) : Records key val (l.map g) f := by
  refine ⟨?_, fun k v => ?_⟩
  · rw [List.map_map, show key ∘ g = key from funext hkey]
    exact h.nodup
  · rw [h.eq_some_iff]
    simp [hkey, hval]

variable [DecidableEq κ]

/-- Removing the record of a key. -/
theorem remove (h : Records key val l f) (k : κ) :
    Records key val (l.filter fun r => key r ≠ k) (Function.update f k none) := by
  refine ⟨h.nodup.sublist (List.filter_sublist.map key), fun k' v => ?_⟩
  rw [Function.update_apply]
  split
  · next heq =>
    subst heq
    apply iff_of_false
    · simp
    · rintro ⟨r, hr, hk, -⟩
      exact absurd hk (by simpa using (List.mem_filter.mp hr).2)
  · next hne =>
    rw [h.eq_some_iff]
    apply Iff.intro
    · rintro ⟨r, hr, rfl, hv⟩
      exact ⟨r, List.mem_filter.mpr ⟨hr, by simpa using hne⟩, rfl, hv⟩
    · rintro ⟨r, hr, hk, hv⟩
      exact ⟨r, (List.mem_filter.mp hr).1, hk, hv⟩

/-- Putting a record, in the place of the one of its key. -/
theorem put (h : Records key val l f) (r : β) :
    Records key val ((l.filter fun r' => key r' ≠ key r) ++ [r])
      (Function.update f (key r) (some (val r))) := by
  have hremove := h.remove (key r)
  refine ⟨?_, fun k' v => ?_⟩
  · rw [List.map_append]
    refine List.nodup_append.mpr ⟨hremove.nodup, List.nodup_singleton _, ?_⟩
    intro a ha b hb hab
    rw [List.map_singleton, List.mem_singleton] at hb
    subst hb hab
    -- the key's record has been removed
    rw [hremove.mem_keys_iff, Function.update_self] at ha
    cases ha
  · simp only [List.mem_append, List.mem_singleton]
    rw [Function.update_apply]
    split
    · next heq =>
      subst heq
      rw [Option.some.injEq]
      apply Iff.intro
      · rintro rfl
        exact ⟨r, Or.inr rfl, rfl, rfl⟩
      · rintro ⟨r', hr' | rfl, hk, hv⟩
        · exact absurd hk (by simpa using (List.mem_filter.mp hr').2)
        · exact hv
    · next hne =>
      have hiff := hremove.eq_some_iff k' v
      rw [Function.update_of_ne hne] at hiff
      rw [hiff]
      apply Iff.intro
      · rintro ⟨r', hr', hk, hv⟩
        exact ⟨r', Or.inl hr', hk, hv⟩
      · rintro ⟨r', hr' | rfl, hk, hv⟩
        · exact ⟨r', hr', hk, hv⟩
        · exact absurd hk.symm hne

/-- Changing the record of a key that is there. -/
theorem set (h : Records key val l f) {v : ν} {g : β → β} (hk : (f k).isSome = true)
    (hkey : ∀ r, key (g r) = key r)
    (hval : ∀ r, val (g r) = if key r = k then v else val r) :
    Records key val (l.map g) (Function.update f k (some v)) := by
  refine ⟨?_, fun k' v' => ?_⟩
  · rw [List.map_map, show key ∘ g = key from funext hkey]
    exact h.nodup
  · simp only [List.mem_map, exists_exists_and_eq_and, hkey, hval]
    rw [Function.update_apply]
    split
    · next heq =>
      subst heq
      obtain ⟨r, hr, hrk⟩ := List.mem_map.mp (h.mem_keys_iff.mpr hk)
      apply Iff.intro
      · intro hv
        exact ⟨r, hr, hrk, by rw [if_pos hrk]; exact Option.some.inj hv⟩
      · rintro ⟨r', -, hr'k, hv⟩
        rw [if_pos hr'k] at hv
        rw [hv]
    · next hne =>
      rw [h.eq_some_iff]
      refine exists_congr fun r => and_congr_right fun _ => and_congr_right fun hrk => ?_
      rw [if_neg (hrk ▸ hne)]

end Records

end Reloadium.Lib
