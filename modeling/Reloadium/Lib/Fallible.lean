namespace Reloadium.Lib

/-!
# Library — steps that can fail

When a step of `Except` succeeds, by its parts: `bind_eq_ok_iff`, `map_eq_ok_iff`.
-/

variable {ε α β : Type} {x : Except ε α} {result : β}

theorem bind_eq_ok_iff {f : α → Except ε β} :
    (x >>= f) = .ok result ↔ ∃ a, x = .ok a ∧ f a = .ok result := by
  cases x with
  | error e =>
    refine iff_of_false (fun h => nomatch h) ?_
    rintro ⟨a, h, -⟩
    exact nomatch h
  | ok a =>
    refine ⟨fun h => ⟨a, rfl, h⟩, ?_⟩
    rintro ⟨a', h, h'⟩
    rw [Except.ok.inj h]
    exact h'

theorem map_eq_ok_iff {f : α → β} : x.map f = .ok result ↔ ∃ a, x = .ok a ∧ f a = result := by
  cases x with
  | error e =>
    refine iff_of_false (fun h => nomatch h) ?_
    rintro ⟨a, h, -⟩
    exact nomatch h
  | ok a =>
    refine ⟨fun h => ⟨a, rfl, Except.ok.inj h⟩, ?_⟩
    rintro ⟨a', h, rfl⟩
    rw [Except.ok.inj h]
    rfl

end Reloadium.Lib
