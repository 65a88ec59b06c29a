import Mathlib.Data.Option.Basic

namespace Reloadium.Lib

/-!
# Library — settings pages

A page shows a stored state in a form: it fills the form from the state, reads the form back,
compares what it reads with the stored state and stores it.  Every call may throw (`none`).

* `Configurable` — a page's calls, with `reset`, `isModified` and `apply` made of them;
* `Configurable.Kept` — opening the page and applying it changes nothing;
* `Configurable.kept_iff` — it is enough that the form gives back what it is filled from.
-/

/-- What the page of a form is made of.  `loadState` takes the new state and the stored one. -/
structure Configurable (Form State : Type*) where
  setState : Form → State → Option Form
  getState : Form → Option State
  equals : State → State → Option Bool
  loadState : State → State → State

namespace Configurable

variable {Form State : Type*} (c : Configurable Form State)

/-- The form is filled from the stored state. -/
def reset (form : Form) (stored : State) : Option Form := c.setState form stored

/-- The form differs from the stored state. -/
def isModified (form : Form) (stored : State) : Option Bool :=
  (c.getState form).bind fun state => (c.equals state stored).map (!·)

/-- The stored state after the form has been stored. -/
def apply (form : Form) (stored : State) : Option State :=
  (c.getState form).map fun state => c.loadState state stored

/-- After `reset` the form gives back the stored state, is not modified, and storing it leaves the
    stored state as it is. -/
def Kept (form : Form) (stored : State) : Prop :=
  ∃ form', c.reset form stored = some form' ∧ c.getState form' = some stored ∧
    c.isModified form' stored = some false ∧ c.apply form' stored = some stored

/-- A state that is read back equals itself, and all of a state is stored. -/
structure Lawful : Prop where
  equals_self : ∀ form state, c.getState form = some state → c.equals state state = some true
  loadState_eq : ∀ state stored, c.loadState state stored = state

variable {c}

/-- **Settings pages.** -/
theorem kept_iff (h : c.Lawful) (form : Form) (stored : State) :
    c.Kept form stored ↔ (c.setState form stored).bind c.getState = some stored := by
  rw [Option.bind_eq_some_iff]
  constructor
  · rintro ⟨form', hreset, hget, -, -⟩
    exact ⟨form', hreset, hget⟩
  · rintro ⟨form', hreset, hget⟩
    refine ⟨form', hreset, hget, ?_, ?_⟩
    · rw [isModified, hget, Option.bind_some, h.equals_self form' stored hget]
      rfl
    · rw [apply, hget, Option.map_some, h.loadState_eq]

end Configurable

end Reloadium.Lib
