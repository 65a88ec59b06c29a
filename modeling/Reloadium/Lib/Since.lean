import Mathlib.Data.List.Basic
import Mathlib.Data.List.Induction

namespace Reloadium.Lib

/-!
# Library — "since" on histories

The past-time operator *since* on finite histories, the oldest event first: `Since P Q h`
says that some event of `h` met `Q`, and that every event after it met `P`.  Whether an
event meets `Q` may depend on the history before it, so the operator can be nested.  Its
fixpoint rule `since_append_singleton` goes by the last event of the history, and
`since_induction` by all of them.
-/

variable {α : Type*} {P : α → Prop} {Q : List α → α → Prop}

/-- Some event of the history meets `Q`, and every event after it meets `P`. -/
def Since (P : α → Prop) (Q : List α → α → Prop) (h : List α) : Prop :=
  ∃ before a after, h = before ++ a :: after ∧ Q before a ∧ ∀ b ∈ after, P b

@[simp] theorem not_since_nil : ¬ Since P Q [] := by
  rintro ⟨before, a, after, h, -⟩
  simp at h

/-- **Fixpoint rule.** The last event meets `Q` itself, or it keeps what held before it. -/
theorem since_append_singleton (h : List α) (a : α) :
    Since P Q (h ++ [a]) ↔ Q h a ∨ (Since P Q h ∧ P a) := by
  apply Iff.intro
  · rintro ⟨before, b, after, heq, hQ, hP⟩
    rcases List.eq_nil_or_concat after with rfl | ⟨rest, c, rfl⟩
    · -- the event that meets `Q` is the last one
      obtain ⟨rfl, hab⟩ := List.append_inj' heq rfl
      rw [List.singleton_inj] at hab
      exact Or.inl (hab ▸ hQ)
    · rw [List.concat_eq_append, ← List.cons_append, ← List.append_assoc] at heq
      obtain ⟨rfl, hac⟩ := List.append_inj' heq rfl
      rw [List.singleton_inj] at hac
      subst hac
      exact Or.inr ⟨⟨before, b, rest, rfl, hQ, fun d hd => hP d (by simp [hd])⟩,
        hP a (by simp)⟩
  · rintro (hQ | ⟨⟨before, b, after, rfl, hQ, hP⟩, ha⟩)
    · exact ⟨h, a, [], rfl, hQ, by simp⟩
    · refine ⟨before, b, after ++ [a], by simp, hQ, fun c hc => ?_⟩
      rcases List.mem_append.mp hc with hc | hc
      · exact hP c hc
      · rw [List.mem_singleton] at hc
        exact hc ▸ ha

/-- **Induction rule.** What an event that meets `Q` brings about, and an event that meets `P` keeps,
    holds since then. -/
theorem since_induction {R : List α → Prop} (start : ∀ h a, Q h a → R (h ++ [a]))
    (keep : ∀ h a, R h → P a → R (h ++ [a])) {h : List α} (hsince : Since P Q h) : R h := by
  induction h using List.reverseRecOn with
  | nil => exact absurd hsince not_since_nil
  | append_singleton h a ih =>
    rcases (since_append_singleton h a).mp hsince with hQ | ⟨hbefore, hP⟩
    · exact start h a hQ
    · exact keep h a (ih hbefore) hP

end Reloadium.Lib
