import Mathlib.Logic.Function.Basic

namespace Reloadium.Lib

/-!
# Library — maps as partial functions

The operations of a mutable key–value map that programs use for lookups only, on partial
functions: `put`, `putIfAbsent`, `remove`, `getOrDefault`.  Each has its two lookup lemmas
(at the key and at any other key), and `PMap.Extends` orders maps by "keeps every
binding", which is what a table that is never purged does over time.
-/

variable {κ ν : Type*} [DecidableEq κ]

/-- A map from `κ` to `ν`, by its lookup function. -/
abbrev PMap (κ ν : Type*) := κ → Option ν

namespace PMap

/-- The map with no binding. -/
def empty : PMap κ ν := fun _ => none

/-- Bind `k` to `v`, replacing its binding if it has one. -/
def put (m : PMap κ ν) (k : κ) (v : ν) : PMap κ ν := Function.update m k (some v)

/-- Remove the binding of `k`. -/
def remove (m : PMap κ ν) (k : κ) : PMap κ ν := Function.update m k none

/-- The value bound to `k`, or `d`. -/
def getOrDefault (m : PMap κ ν) (k : κ) (d : ν) : ν := (m k).getD d

/-- Bind `k` to `v` unless `k` is bound already. -/
def putIfAbsent (m : PMap κ ν) (k : κ) (v : ν) : PMap κ ν := m.put k (m.getOrDefault k v)

omit [DecidableEq κ] in
@[simp] theorem empty_apply (k : κ) : (empty : PMap κ ν) k = none := rfl

@[simp] theorem put_self (m : PMap κ ν) (k : κ) (v : ν) : m.put k v k = some v :=
  Function.update_self ..

theorem put_of_ne (m : PMap κ ν) {k k' : κ} (v : ν) (h : k' ≠ k) : m.put k v k' = m k' :=
  Function.update_of_ne h ..

theorem put_apply (m : PMap κ ν) (k k' : κ) (v : ν) :
    m.put k v k' = if k' = k then some v else m k' := Function.update_apply ..

theorem remove_apply (m : PMap κ ν) (k k' : κ) :
    m.remove k k' = if k' = k then none else m k' := Function.update_apply ..

@[simp] theorem putIfAbsent_self (m : PMap κ ν) (k : κ) (v : ν) :
    m.putIfAbsent k v k = some (m.getOrDefault k v) := put_self ..

theorem putIfAbsent_of_ne (m : PMap κ ν) {k k' : κ} (v : ν) (h : k' ≠ k) :
    m.putIfAbsent k v k' = m k' := put_of_ne _ _ h

omit [DecidableEq κ] in
theorem getOrDefault_of_eq_some {m : PMap κ ν} {k : κ} {v : ν} (d : ν) (h : m k = some v) :
    m.getOrDefault k d = v := by rw [getOrDefault, h, Option.getD_some]

omit [DecidableEq κ] in
theorem getOrDefault_of_eq_none {m : PMap κ ν} {k : κ} (d : ν) (h : m k = none) :
    m.getOrDefault k d = d := by rw [getOrDefault, h, Option.getD_none]

/-! ### Extension -/

/-- `m'` keeps every binding of `m`. -/
def Extends (m m' : PMap κ ν) : Prop := ∀ k v, m k = some v → m' k = some v

omit [DecidableEq κ] in
theorem Extends.refl (m : PMap κ ν) : Extends m m := fun _ _ h => h

omit [DecidableEq κ] in
theorem Extends.trans {m₁ m₂ m₃ : PMap κ ν} (h₁ : Extends m₁ m₂) (h₂ : Extends m₂ m₃) :
    Extends m₁ m₃ := fun k v h => h₂ k v (h₁ k v h)

/-- `putIfAbsent` never loses a binding. -/
theorem extends_putIfAbsent (m : PMap κ ν) (k : κ) (v : ν) : Extends m (m.putIfAbsent k v) := by
  intro k' v' h
  by_cases hk : k' = k
  · subst hk
    rw [putIfAbsent_self, getOrDefault_of_eq_some v h]
  · rw [putIfAbsent_of_ne m v hk, h]

/-! ### Looking up a list of keys

`xs.map some = ks.map m` says that every key of `ks` is bound and `xs` are the values. -/

variable {α : Type*} {m : PMap κ ν} {xs : List ν} {ks : List κ}

omit [DecidableEq κ] in
theorem getElem?_of_map_some (h : xs.map some = ks.map m) {i : Nat} {k : κ}
    (hk : ks[i]? = some k) : ∃ x, xs[i]? = some x ∧ m k = some x := by
  have hi := congrArg (fun l => l[i]?) h
  simp only [List.getElem?_map, hk, Option.map_some] at hi
  obtain ⟨x, hx, hmx⟩ := Option.map_eq_some_iff.mp hi
  exact ⟨x, hx, hmx.symm⟩

omit [DecidableEq κ] in
theorem getElem?_none_of_map_some (h : xs.map some = ks.map m) {i : Nat}
    (hk : ks[i]? = none) : xs[i]? = none := by
  have hlen : xs.length = ks.length := by simpa using congrArg List.length h
  rw [List.getElem?_eq_none_iff] at hk ⊢
  omega

omit [DecidableEq κ] in
/-- Two views that agree on every key and its value agree on the lists. -/
theorem map_eq_map_of_map_some {u : ν → α} {v : κ → α} (h : xs.map some = ks.map m)
    (huv : ∀ k ∈ ks, ∀ x, m k = some x → u x = v k) : xs.map u = ks.map v := by
  refine List.ext_getElem? fun i => ?_
  rw [List.getElem?_map, List.getElem?_map]
  cases hk : ks[i]? with
  | none => rw [getElem?_none_of_map_some h hk, Option.map_none, Option.map_none]
  | some k =>
    obtain ⟨x, hx, hmx⟩ := getElem?_of_map_some h hk
    rw [hx, Option.map_some, Option.map_some, huv k (List.mem_of_getElem? hk) x hmx]

end PMap

end Reloadium.Lib
