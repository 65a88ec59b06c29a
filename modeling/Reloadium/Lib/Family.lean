import Mathlib.Data.List.Nodup
import Reloadium.Lib.Deferred

namespace Reloadium.Lib

/-!
# Library — a family of components with one queue

Components of one kind share the thread that runs their tasks: a task is posted with the member it
belongs to, and it touches the screen of that member only.  An operation of the family calls
operations of some of its members, one after the other.

* `Family.member` — a member is a part of the family;
* `Family.calls` — operations of members, in order;
* `Family.pick_settle_calls` — each member ends as if its own operations alone had been called;
* `Family.forall_settle_calls_iff` — a condition that is exact for a member's operation is exact for
  calls to different members.
-/

namespace Family

variable {ι σ υ τ α : Type*} [DecidableEq ι]

/-- A task runs on the screen of its member. -/
def exec (exec : υ → τ → υ) (u : ι → υ) (t : ι × τ) : ι → υ :=
  Function.update u t.1 (exec (u t.1) t.2)

variable {step : υ → τ → υ}

/-- The `i`-th member. -/
def member (step : υ → τ → υ) (i : ι) :
    Component (exec step : (ι → υ) → ι × τ → ι → υ) step (ι → σ) σ where
  get s := s i
  set s v := Function.update s i v
  view u := u i
  put u v := Function.update u i v
  post := Prod.mk i
  view_put u v := Function.update_self i v u
  put_view u := Function.update_eq_self i u
  put_put u v w := Function.update_idem v w u
  exec_post _ _ := rfl

/-- Operations of members, one after the other. -/
def calls (step : υ → τ → υ) (op : α → Posting σ τ) (cs : List (ι × α)) :
    Posting (ι → σ) (ι × τ) :=
  Posting.sequence (cs.map fun c => (member step c.1).lift (op c.2))

/-- The `i`-th member and its screen. -/
def pick (x : (ι → σ) × (ι → υ)) (i : ι) : σ × υ := (x.1 i, x.2 i)

variable {op : α → Posting σ τ} {x : (ι → σ) × (ι → υ)} {cs : List (ι × α)} {i : ι}

/-- One operation of a member. -/
theorem pick_settle_member (o : Posting σ τ) (x : (ι → σ) × (ι → υ)) (i j : ι) :
    pick (((member step j).lift o).settle (exec step) x) i =
      if i = j then o.settle step (pick x i) else pick x i := by
  rw [Component.settle_lift]
  by_cases hij : i = j
  · subst hij
    rw [if_pos rfl]
    show (Function.update x.1 i _ i, Function.update x.2 i _ i) = _
    rw [Function.update_self, Function.update_self]
    rfl
  · rw [if_neg hij]
    show (Function.update x.1 j _ i, Function.update x.2 j _ i) = _
    rw [Function.update_of_ne hij, Function.update_of_ne hij]
    rfl

/-- **Projection.** A member ends as if only its own operations had been called. -/
theorem pick_settle_calls (op : α → Posting σ τ) (cs : List (ι × α)) (x : (ι → σ) × (ι → υ))
    (i : ι) :
    pick ((calls step op cs).settle (exec step) x) i =
      ((cs.filter fun c => c.1 = i).map Prod.snd).foldl
        (fun y a => (op a).settle step y) (pick x i) := by
  induction cs generalizing x with
  | nil => rfl
  | cons c cs ih =>
    rw [calls, List.map_cons, Posting.settle_sequence_cons, ← calls, ih, pick_settle_member,
      List.filter_cons]
    by_cases hc : i = c.1
    · simp [hc]
    · rw [if_neg hc, if_neg (by simpa using fun h => hc (Eq.symm h))]

/-- A member that is not called. -/
theorem pick_settle_calls_of_not_mem (h : i ∉ cs.map Prod.fst) :
    pick ((calls step op cs).settle (exec step) x) i = pick x i := by
  have hfilter : (cs.filter fun c => c.1 = i) = [] := by
    rw [List.filter_eq_nil_iff]
    intro c hc heq
    exact h (List.mem_map.mpr ⟨c, hc, of_decide_eq_true heq⟩)
  rw [pick_settle_calls, hfilter]
  rfl

/-- A member that is called once. -/
theorem pick_settle_calls_of_mem (hnodup : (cs.map Prod.fst).Nodup) {c : ι × α} (hc : c ∈ cs) :
    pick ((calls step op cs).settle (exec step) x) c.1 = (op c.2).settle step (pick x c.1) := by
  obtain ⟨before, after, rfl⟩ := List.append_of_mem hc
  rw [List.map_append, List.map_cons, List.nodup_middle, List.nodup_cons, List.mem_append] at hnodup
  have hnone : ∀ l : List (ι × α), c.1 ∉ l.map Prod.fst →
      (l.filter fun d => d.1 = c.1) = [] := by
    intro l hl
    rw [List.filter_eq_nil_iff]
    intro d hd heq
    exact hl (List.mem_map.mpr ⟨d, hd, of_decide_eq_true heq⟩)
  rw [pick_settle_calls, List.filter_append, List.filter_cons_of_pos (by simp),
    hnone before fun h => hnodup.1 (Or.inl h), hnone after fun h => hnodup.1 (Or.inr h)]
  rfl

/-- **Exactness.** Where `C` is exact for an operation of a member, calls to different members
    keep `P` of all members exactly when each of them satisfies `C`. -/
theorem forall_settle_calls_iff {P : σ × υ → Prop} {C : σ → α → Prop}
    (hnodup : (cs.map Prod.fst).Nodup) (hP : ∀ i, P (pick x i))
    (hop : ∀ c ∈ cs, P ((op c.2).settle step (pick x c.1)) ↔ C (x.1 c.1) c.2) :
    (∀ i, P (pick ((calls step op cs).settle (exec step) x) i)) ↔ ∀ c ∈ cs, C (x.1 c.1) c.2 := by
  apply Iff.intro
  · intro h c hc
    have hi := h c.1
    rw [pick_settle_calls_of_mem hnodup hc] at hi
    exact (hop c hc).mp hi
  · intro h i
    by_cases hi : i ∈ cs.map Prod.fst
    · obtain ⟨c, hc, rfl⟩ := List.mem_map.mp hi
      rw [pick_settle_calls_of_mem hnodup hc]
      exact (hop c hc).mpr (h c hc)
    · rw [pick_settle_calls_of_not_mem hi]
      exact hP i

end Family

end Reloadium.Lib
