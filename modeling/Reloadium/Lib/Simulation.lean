import Reloadium.Lib.Lts

namespace Reloadium.Lib

/-!
# Library — simulation of one transition system by another

A relation between the states of a concrete and of an abstract system is a simulation when every
step of the concrete one is matched by a run, possibly an empty one, of the abstract one.
`Lts.run_append` composes the runs, and `Lts.simulation` is the rule: every run is matched.
-/

namespace Lts

variable {σ α τ β : Type*} {M : Lts σ α} {A : Lts τ β} {R : σ → τ → Prop}

/-- A run is continued where it ends. -/
theorem run_append {s t : σ} {as bs : List α} (h : M.run s as = some t) :
    M.run s (as ++ bs) = M.run t bs := by
  induction as generalizing s with
  | nil =>
    rw [run_nil, Option.some.injEq] at h
    rw [List.nil_append, h]
  | cons a as ih =>
    obtain ⟨s', hstep, hrest⟩ := run_cons_eq_some.mp h
    rw [List.cons_append, run, hstep]
    exact ih hrest

/-- A run of a single step. -/
theorem run_singleton (s : σ) (a : α) : M.run s [a] = M.step s a := by
  rw [run]
  cases M.step s a <;> rfl

/-- **Simulation rule.** Every run of the concrete system is matched by one of the abstract
    system. -/
theorem simulation
    (hstep : ∀ s t a s', R s t → M.step s a = some s' →
      ∃ bs t', A.run t bs = some t' ∧ R s' t')
    {s s' : σ} {t : τ} {as : List α} (hR : R s t) (hrun : M.run s as = some s') :
    ∃ bs t', A.run t bs = some t' ∧ R s' t' := by
  induction as generalizing s t with
  | nil =>
    rw [run_nil, Option.some.injEq] at hrun
    exact ⟨[], t, rfl, hrun ▸ hR⟩
  | cons a as ih =>
    obtain ⟨s₁, hfirst, hrest⟩ := run_cons_eq_some.mp hrun
    obtain ⟨bs, t₁, hbs, hR₁⟩ := hstep s t a s₁ hR hfirst
    obtain ⟨cs, t', hcs, hR'⟩ := ih hR₁ hrest
    exact ⟨bs ++ cs, t', (run_append hbs).trans hcs, hR'⟩

end Lts

end Reloadium.Lib
