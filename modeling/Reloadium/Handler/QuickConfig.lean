import Mathlib.Data.List.Basic
import Reloadium.Lib.Lts
import Reloadium.Settings.PreferencesForm

namespace Reloadium.Handler.QuickConfig

open Lib Settings
open Profile (CumulateType)

/-!
# Handler — the settings of a run and what its engines are told

Model of `QuickConfig`, of the constructor and `onQuickConfigChange` of `RunConfHandler` and of
what `PythonRunConfHandler.beforeRun` puts into `RW_QUICKCONFIG`.  Each run has a panel of its own.
A process of the run reads the settings that were current at the start of the run from its
environment, connects as a client, and is told by a command when the user changes the panel.

A change is handled on the UI thread, which `Session.send` keeps busy while it goes through a copy
of the list of clients.  Meanwhile processes connect and the threads of their clients begin to
run.  A client that is in the list before its thread has opened the stream makes `send` fail.

* `Run.Agreed` — every process that the change under way is not about to reach has been told what
  the panel shows;
* `agreed_iff_meets` — **when panel and processes agree** all along a run of the plugin;
* `told_of_change` — the next change that finds all streams open brings them together again.
-/

/-! ### Settings -/

structure QuickConfigState where
  profiler : Option Settings.ProfilerType
  frameScope : Bool
  cumulateType : Option CumulateType
  errorHandlingMode : Option ErrorHandlingMode
  alwaysCollectMemory : Bool
deriving DecidableEq

/-- `QuickConfigStateFactory.create` -/
def create (preferences : PreferencesState) : QuickConfigState where
  profiler := preferences.defaultProfiler
  frameScope := preferences.defaultFrameScope
  cumulateType := preferences.defaultCumulateType
  errorHandlingMode := preferences.defaultErrorHandlingMode
  alwaysCollectMemory := preferences.alwaysCollectMemory

/-- What the user selects in one of the components of the panel. -/
inductive Change
  | profiler (item : Settings.ProfilerType)
  | frameScope (selected : Bool)
  | cumulateType (item : CumulateType)
  | errorHandlingMode (item : ErrorHandlingMode)
  | alwaysCollectMemory (selected : Bool)

def Change.apply (panel : QuickConfigState) : Change → QuickConfigState
  | profiler item => { panel with profiler := some item }
  | frameScope selected => { panel with frameScope := selected }
  | cumulateType item => { panel with cumulateType := some item }
  | errorHandlingMode item => { panel with errorHandlingMode := some item }
  | alwaysCollectMemory selected => { panel with alwaysCollectMemory := selected }

/-- The labels beside the components. -/
inductive Label
  | setProfilerAsDefault
  | setFrameScopeAsDefault
  | setCumulateTypeAsDefault
  | setErrorHandlingModeAsDefault
  | setAlwaysCollectMemoryAsDefault

/-- `mouseClicked` of a label. -/
def Label.mouseClicked (panel : QuickConfigState) (preferences : PreferencesState) :
    Label → PreferencesState
  | setProfilerAsDefault => { preferences with defaultProfiler := panel.profiler }
  | setFrameScopeAsDefault => { preferences with defaultFrameScope := panel.frameScope }
  | setCumulateTypeAsDefault => { preferences with defaultCumulateType := panel.cumulateType }
  | setErrorHandlingModeAsDefault =>
    { preferences with defaultErrorHandlingMode := panel.errorHandlingMode }
  | setAlwaysCollectMemoryAsDefault =>
    { preferences with alwaysCollectMemory := panel.alwaysCollectMemory }

/-! ### A run -/

/-- A client of the session, and what its process has been told last. -/
structure Client where
  /-- `out` is there -/
  out : Bool
  told : QuickConfigState
deriving DecidableEq

structure Run where
  panel : QuickConfigState
  /-- `RW_QUICKCONFIG` -/
  env : QuickConfigState
  clients : List Client
  /-- the command that is being sent, and the clients of the copy that are left -/
  sending : Option (QuickConfigState × List Nat)
  activeProfiler : Option Settings.ProfilerType

inductive RunAction
  /-- a process has connected and its client is added -/
  | connect
  /-- the thread of a client opens its streams -/
  | openOut (client : Nat)
  | change (change : Change)
  /-- `send` on the next client of the copy, or the rest of `onQuickConfigChange` -/
  | send

namespace Run

/-- The constructor of the handler and `beforeRun`. -/
def new (preferences : PreferencesState) : Run where
  panel := create preferences
  env := create preferences
  clients := []
  sending := none
  activeProfiler := (create preferences).profiler

def step (r : Run) : RunAction → Option Run
  | .connect => some { r with clients := r.clients ++ [{ out := false, told := r.env }] }
  | .openOut i =>
    (r.clients[i]?).map fun client =>
      { r with clients := r.clients.set i { client with out := true } }
  | .change change =>
    let state := change.apply r.panel
    some { r with panel := state, sending := some (state, List.range r.clients.length) }
  | .send =>
    match r.sending with
    | none => none
    | some (state, []) => some { r with sending := none, activeProfiler := state.profiler }
    | some (state, i :: rest) =>
      match r.clients[i]? with
      | none => none
      | some client =>
        if client.out then
          some { r with
            clients := r.clients.set i { client with told := state }
            sending := some (state, rest) }
        -- the null pointer leaves `onQuickConfigChange`
        else some { r with sending := none }

/-- The clients that the change under way has still to reach. -/
def left (r : Run) : List Nat := r.sending.elim [] Prod.snd

/-- What is sent is what the panel shows, to clients that are there. -/
structure Inv (r : Run) : Prop where
  panel : ∀ state rest, r.sending = some (state, rest) → state = r.panel
  left : ∀ i ∈ r.left, i < r.clients.length

/-- The processes have been told what the panel shows, and its profiler is the active one. -/
structure Agreed (r : Run) : Prop where
  told : ∀ i client, r.clients[i]? = some client → i ∉ r.left → client.told = r.panel
  profiler : r.sending = none → r.activeProfiler = r.panel.profiler

/-- The change under way has nothing new for the clients that are left. -/
structure Old (r : Run) : Prop where
  told : ∀ i client, r.clients[i]? = some client → i ∈ r.left → client.told = r.panel
  profiler : r.activeProfiler = r.panel.profiler

/-- A process connects while the panel shows what it was at the start, and the next client of a
change has opened its stream, or there is nothing new. -/
def StaysAgreed (r : Run) : RunAction → Prop
  | .connect => r.env = r.panel
  | .send => ∀ i client, r.left.head? = some i → r.clients[i]? = some client →
      client.out = false → r.Old
  | _ => True

end Run

/-! ### The plugin -/

structure State where
  preferences : PreferencesState
  runs : List Run

inductive Action
  /-- `getEnvironment` -/
  | start
  | run (i : Nat) (a : RunAction)
  | mouseClicked (i : Nat) (label : Label)
  /-- the form of the preferences is applied -/
  | loadState (preferences : PreferencesState)

namespace State

/-- The UI thread is not in `send`. -/
def Idle (s : State) : Prop := ∀ r ∈ s.runs, r.sending = none

instance (s : State) : Decidable s.Idle := List.decidableBAll _ _

def stepRun (s : State) (i : Nat) (a : RunAction) : Option State :=
  (s.runs[i]?).bind fun r => (r.step a).map fun r => { s with runs := s.runs.set i r }

def step (s : State) : Action → Option State
  | .start =>
    -- the constructor looks the profiler up in a map that refuses null
    if s.Idle ∧ s.preferences.defaultProfiler ≠ none then
      some { s with runs := s.runs ++ [Run.new s.preferences] }
    else none
  | .run i (.change change) => if s.Idle then s.stepRun i (.change change) else none
  | .run i a => s.stepRun i a
  | .mouseClicked i label =>
    if s.Idle then
      (s.runs[i]?).map fun r =>
        { s with preferences := label.mouseClicked r.panel s.preferences }
    else none
  | .loadState preferences => if s.Idle then some { s with preferences := preferences } else none

def Inv (s : State) : Prop := ∀ r ∈ s.runs, r.Inv

/-- In all runs, panel and processes agree. -/
def AllAgreed (s : State) : Prop := ∀ r ∈ s.runs, r.Agreed

def StaysAgreed (s : State) : Action → Prop
  | .run i a => ∀ r, s.runs[i]? = some r → r.StaysAgreed a
  | _ => True

end State

/-- The plugin, started with some preferences. -/
def lts (preferences : PreferencesState) : Lts State Action where
  init := { preferences := preferences, runs := [] }
  step := State.step

/-! ### The steps of a run -/

namespace Run

variable {r r' : Run} {a : RunAction} {state : QuickConfigState} {rest : List Nat}

theorem left_of_sending (h : r.sending = some (state, rest)) : r.left = rest := by
  rw [left, h]
  rfl

theorem left_of_none (h : r.sending = none) : r.left = [] := by
  rw [left, h]
  rfl

/-- What a client has been told after it has been replaced. -/
theorem told_set {clients : List Client} {i : Nat} {client : Client} {P : Nat → Client → Prop}
    (hset : P i client) (hrest : ∀ j client, clients[j]? = some client → j ≠ i → P j client) :
    ∀ j client', (clients.set i client)[j]? = some client' → P j client' := by
  intro j client' h
  rw [List.getElem?_set] at h
  split at h
  case isTrue hij =>
    subst hij
    split at h
    · obtain rfl := Option.some.inj h
      exact hset
    · exact nomatch h
  case isFalse hij => exact hrest j client' h (Ne.symm hij)

theorem inv_new (preferences : PreferencesState) : (new preferences).Inv where
  panel := fun _ _ h => nomatch h
  left := fun _ h => absurd h List.not_mem_nil

theorem agreed_new (preferences : PreferencesState) : (new preferences).Agreed where
  told := fun _ _ h => nomatch h
  profiler := fun _ => rfl

/-- What `send` does to a run. -/
theorem step_send (h : r.step .send = some r') :
    (∃ state, r.sending = some (state, []) ∧
      r' = { r with sending := none, activeProfiler := state.profiler }) ∨
    (∃ state i rest client, r.sending = some (state, i :: rest) ∧ r.clients[i]? = some client ∧
      client.out = true ∧ r' = { r with
        clients := r.clients.set i { client with told := state }
        sending := some (state, rest) }) ∨
    ∃ state i rest client, r.sending = some (state, i :: rest) ∧ r.clients[i]? = some client ∧
      client.out = false ∧ r' = { r with sending := none } := by
  rw [step] at h
  split at h
  case h_1 => exact nomatch h
  case h_2 state hsending => exact Or.inl ⟨state, hsending, (Option.some.inj h).symm⟩
  case h_3 state i rest hsending =>
    split at h
    case h_1 => exact nomatch h
    case h_2 client hclient =>
      split at h
      case isTrue hout =>
        exact Or.inr (Or.inl ⟨state, i, rest, client, hsending, hclient, hout,
          (Option.some.inj h).symm⟩)
      case isFalse hout =>
        exact Or.inr (Or.inr ⟨state, i, rest, client, hsending, hclient,
          Bool.eq_false_iff.mpr hout, (Option.some.inj h).symm⟩)

theorem inv_step (hr : r.Inv) (h : r.step a = some r') : r'.Inv := by
  cases a with
  | connect =>
    obtain rfl := Option.some.inj h
    refine ⟨hr.panel, fun i hi => ?_⟩
    rw [List.length_append]
    exact Nat.lt_add_right _ (hr.left i hi)
  | openOut i =>
    obtain ⟨client, -, rfl⟩ := Option.map_eq_some_iff.mp h
    refine ⟨hr.panel, fun j hj => ?_⟩
    rw [List.length_set]
    exact hr.left j hj
  | change change =>
    obtain rfl := Option.some.inj h
    refine ⟨fun state rest hsending => ?_, fun i hi => List.mem_range.mp hi⟩
    exact (Prod.mk.inj (Option.some.inj hsending)).1.symm
  | send =>
    rcases step_send h with ⟨state, -, rfl⟩ | ⟨state, i, rest, client, hsending, -, -, rfl⟩ |
      ⟨state, i, rest, client, -, -, -, rfl⟩
    · exact ⟨fun _ _ h => (nomatch h), fun _ h => absurd h List.not_mem_nil⟩
    · refine ⟨fun state' rest' h' => ?_, fun j hj => ?_⟩
      · obtain ⟨rfl, -⟩ := Prod.mk.inj (Option.some.inj h')
        exact hr.panel _ _ hsending
      · rw [List.length_set]
        apply hr.left j
        rw [left_of_sending hsending]
        exact List.mem_cons_of_mem i hj
    · exact ⟨fun _ _ h => (nomatch h), fun _ h => absurd h List.not_mem_nil⟩

/-- A command keeps panel and processes together, unless it fails while there is something new. -/
theorem agreed_send_iff (hr : r.Inv) (hagreed : r.Agreed) (h : r.step .send = some r') :
    r'.Agreed ↔ r.StaysAgreed .send := by
  rcases step_send h with ⟨state, hsending, rfl⟩ |
    ⟨state, i, rest, client, hsending, hclient, hout, rfl⟩ |
    ⟨state, i, rest, client, hsending, hclient, hout, rfl⟩
  · have hleft := left_of_sending hsending
    have hpanel := hr.panel _ _ hsending
    refine iff_of_true ⟨fun j client hj _ => ?_, fun _ => hpanel ▸ rfl⟩ fun i client hhead => ?_
    · apply hagreed.told j client hj
      rw [hleft]
      exact List.not_mem_nil
    · rw [hleft] at hhead
      exact nomatch hhead
  · have hleft := left_of_sending hsending
    have hpanel := hr.panel _ _ hsending
    refine iff_of_true ⟨?_, fun h => nomatch h⟩ fun j client' hhead hj hout' => ?_
    · apply told_set
      · exact fun _ => hpanel
      · intro j client' hj hji hrest
        apply hagreed.told j client' hj
        rw [hleft]
        exact fun hmem => (List.mem_cons.mp hmem).elim hji hrest
    · rw [hleft] at hhead
      obtain rfl := Option.some.inj hhead
      rw [hclient] at hj
      obtain rfl := Option.some.inj hj
      rw [hout] at hout'
      exact nomatch hout'
  · have hleft := left_of_sending hsending
    refine ⟨fun h' j client' hhead hj _ => ?_, fun hold => ?_⟩
    · exact ⟨fun k client hk _ => h'.told k client hk List.not_mem_nil, h'.profiler rfl⟩
    · have hold := hold i client (by rw [hleft]; rfl) hclient hout
      refine ⟨fun k client hk _ => ?_, fun _ => hold.profiler⟩
      by_cases hmem : k ∈ r.left
      · exact hold.told k client hk hmem
      · exact hagreed.told k client hk hmem

/-- **A step keeps panel and processes together** exactly if it meets the condition. -/
theorem agreed_step_iff (hr : r.Inv) (hagreed : r.Agreed) (h : r.step a = some r') :
    r'.Agreed ↔ r.StaysAgreed a := by
  cases a with
  | connect =>
    obtain rfl := Option.some.inj h
    -- the new client is not in the copy of a change under way
    have hnew : r.clients.length ∉ r.left := fun hmem => Nat.lt_irrefl _ (hr.left _ hmem)
    refine ⟨fun h' => h'.told r.clients.length _ List.getElem?_concat_length hnew, fun henv => ?_⟩
    refine ⟨fun i client hi hleft => ?_, hagreed.profiler⟩
    rcases Nat.lt_or_ge i r.clients.length with hlt | hge
    · rw [List.getElem?_append_left hlt] at hi
      exact hagreed.told i client hi hleft
    · rw [List.getElem?_append_right hge, List.getElem?_singleton] at hi
      split at hi
      · obtain rfl := Option.some.inj hi
        exact henv
      · exact nomatch hi
  | openOut i =>
    obtain ⟨client, hclient, rfl⟩ := Option.map_eq_some_iff.mp h
    refine iff_of_true ⟨?_, hagreed.profiler⟩ trivial
    apply told_set
    · exact hagreed.told i client hclient
    · exact fun j client' hj _ => hagreed.told j client' hj
  | change change =>
    obtain rfl := Option.some.inj h
    refine iff_of_true ⟨fun i client hi hleft => ?_, fun h => nomatch h⟩ trivial
    obtain ⟨hlt, -⟩ := List.getElem?_eq_some_iff.mp hi
    exact absurd (List.mem_range.mpr hlt) hleft
  | send => exact agreed_send_iff hr hagreed h

theorem staysAgreed_of_none (h : r.step a = none) : r.StaysAgreed a := by
  cases a with
  | connect => exact nomatch h
  | openOut i => trivial
  | change change => trivial
  | send =>
    intro i client hhead hclient hout
    rw [step] at h
    split at h
    case h_1 hsending =>
      rw [left_of_none hsending] at hhead
      exact nomatch hhead
    case h_2 => exact nomatch h
    case h_3 state i' rest hsending =>
      rw [left_of_sending hsending] at hhead
      obtain rfl := Option.some.inj hhead
      rw [hclient] at h
      dsimp only at h
      split at h <;> exact nomatch h

end Run

/-! ### All runs -/

variable {preferences : PreferencesState} {s s' : State} {a : Action}

/-- What an action does to the runs. -/
theorem step_runs (h : s.step a = some s') :
    ((∀ i ra, a ≠ .run i ra) ∧
      (s'.runs = s.runs ∨ s'.runs = s.runs ++ [Run.new s.preferences])) ∨
      ∃ i ra r r', a = .run i ra ∧ s.runs[i]? = some r ∧ r.step ra = some r' ∧
        s'.runs = s.runs.set i r' := by
  have hrun {i : Nat} {ra : RunAction} (h : s.stepRun i ra = some s') :
      ∃ r r', s.runs[i]? = some r ∧ r.step ra = some r' ∧ s'.runs = s.runs.set i r' := by
    obtain ⟨r, hr, h⟩ := Option.bind_eq_some_iff.mp h
    obtain ⟨r', hstep, rfl⟩ := Option.map_eq_some_iff.mp h
    exact ⟨r, r', hr, hstep, rfl⟩
  cases a with
  | start =>
    rw [State.step] at h
    split at h
    · obtain rfl := Option.some.inj h
      exact Or.inl ⟨fun _ _ => Action.noConfusion, Or.inr rfl⟩
    · exact nomatch h
  | run i ra =>
    refine Or.inr ?_
    suffices hstep : s.stepRun i ra = some s' by
      obtain ⟨r, r', hr, hr', hruns⟩ := hrun hstep
      exact ⟨i, ra, r, r', rfl, hr, hr', hruns⟩
    cases ra with
    | change change =>
      rw [State.step] at h
      split at h
      · exact h
      · exact nomatch h
    | connect => exact h
    | openOut client => exact h
    | send => exact h
  | mouseClicked i label =>
    rw [State.step] at h
    split at h
    · obtain ⟨r, -, rfl⟩ := Option.map_eq_some_iff.mp h
      exact Or.inl ⟨fun _ _ => Action.noConfusion, Or.inl rfl⟩
    · exact nomatch h
  | loadState preferences =>
    rw [State.step] at h
    split at h
    · obtain rfl := Option.some.inj h
      exact Or.inl ⟨fun _ _ => Action.noConfusion, Or.inl rfl⟩
    · exact nomatch h

theorem mem_append_new {runs : List Run} {P : Run → Prop} (hruns : ∀ r ∈ runs, P r)
    (hnew : P (Run.new preferences)) : ∀ r ∈ runs ++ [Run.new preferences], P r := by
  intro r hr
  rcases List.mem_append.mp hr with hr | hr
  · exact hruns r hr
  · obtain rfl := List.mem_singleton.mp hr
    exact hnew

theorem mem_set {runs : List Run} {P : Run → Prop} {i : Nat} {r : Run}
    (hruns : ∀ r ∈ runs, P r) (hnew : P r) : ∀ r' ∈ runs.set i r, P r' := by
  intro r' hr'
  rcases List.mem_or_eq_of_mem_set hr' with hmem | rfl
  · exact hruns r' hmem
  · exact hnew

theorem inv_step (s : State) (a : Action) (s' : State) (hs : s.Inv) (h : s.step a = some s') :
    s'.Inv := by
  rcases step_runs h with ⟨-, hruns | hruns⟩ | ⟨i, ra, r, r', rfl, hr, hstep, hruns⟩
  · rw [State.Inv, hruns]
    exact hs
  · rw [State.Inv, hruns]
    exact mem_append_new hs (Run.inv_new s.preferences)
  · rw [State.Inv, hruns]
    exact mem_set hs (Run.inv_step (hs r (List.mem_of_getElem? hr)) hstep)

theorem staysAgreed_of_ne (h : ∀ i ra, a ≠ .run i ra) : s.StaysAgreed a := by
  cases a with
  | run i ra => exact absurd rfl (h i ra)
  | start => trivial
  | mouseClicked i label => trivial
  | loadState preferences => trivial

theorem allAgreed_step_iff (s : State) (a : Action) (s' : State) (hs : s.Inv)
    (hagreed : s.AllAgreed) (h : s.step a = some s') : s'.AllAgreed ↔ s.StaysAgreed a := by
  rcases step_runs h with ⟨hne, hruns | hruns⟩ | ⟨i, ra, r, r', rfl, hr, hstep, hruns⟩
  · rw [State.AllAgreed, hruns]
    exact iff_of_true hagreed (staysAgreed_of_ne hne)
  · rw [State.AllAgreed, hruns]
    exact iff_of_true (mem_append_new hagreed (Run.agreed_new s.preferences))
      (staysAgreed_of_ne hne)
  · rw [State.AllAgreed, hruns]
    have hmem : r ∈ s.runs := List.mem_of_getElem? hr
    have hiff := Run.agreed_step_iff (hs r hmem) (hagreed r hmem) hstep
    refine ⟨fun hall r'' hr'' => ?_, fun hstays => ?_⟩
    · rw [hr] at hr''
      obtain rfl := Option.some.inj hr''
      apply hiff.mp
      apply hall
      exact List.mem_set (List.getElem?_eq_some_iff.mp hr).1 r'
    · exact mem_set hagreed (hiff.mpr (hstays r hr))

/-- **When panel and processes agree.**  In all runs, every process that has connected has been
told what the panel of its run shows, unless the change under way is about to reach it, and the
active profiler is the one of the panel, all along a run of the plugin, exactly if each process
connects while the panel shows what it was at the start, and no change fails on a client whose
stream is not open. -/
theorem agreed_iff_meets (preferences : PreferencesState) (as : List Action) :
    (lts preferences).Always State.AllAgreed (lts preferences).init as ↔
      (lts preferences).Meets State.StaysAgreed (lts preferences).init as := by
  refine Lts.always_iff_meets_of_invariant inv_step allAgreed_step_iff (fun s a hnone => ?_)
    (fun _ h => absurd h List.not_mem_nil) (fun _ h => absurd h List.not_mem_nil) as
  cases a with
  | run i ra =>
    intro r hr
    have hstep {ra : RunAction} (h : s.stepRun i ra = none) : r.StaysAgreed ra := by
      rw [State.stepRun, hr, Option.bind_some] at h
      exact Run.staysAgreed_of_none (Option.map_eq_none_iff.mp h)
    cases ra with
    | change change => trivial
    | openOut client => trivial
    | connect => exact hstep hnone
    | send => exact hstep hnone
  | start => trivial
  | mouseClicked i label => trivial
  | loadState preferences => trivial

/-! ### The next change -/

namespace Run

variable {r r' : Run} {a : RunAction} {n : Nat} {panel : QuickConfigState}

/-- A change on its way to the first clients of the list, which have opened their streams. -/
structure Reaching (n : Nat) (panel : QuickConfigState) (r : Run) : Prop where
  shows : r.panel = panel
  out : ∀ i client, r.clients[i]? = some client → i < n → client.out = true
  left : ∀ i ∈ r.left, i < n
  sent : ∀ state rest, r.sending = some (state, rest) → state = panel
  told : ∀ i client, r.clients[i]? = some client → i < n → i ∉ r.left → client.told = panel
  profiler : r.sending = none → r.activeProfiler = panel.profiler

theorem reaching_change {change : Change} (hout : ∀ client ∈ r.clients, client.out = true)
    (h : r.step (.change change) = some r') :
    r'.Reaching r.clients.length (change.apply r.panel) := by
  obtain rfl := Option.some.inj h
  refine ⟨rfl, fun i client hi _ => hout client (List.mem_of_getElem? hi),
    fun i hi => List.mem_range.mp hi, fun state rest h => ?_, fun i client _ hlt hleft => ?_,
    fun h => (nomatch h)⟩
  · exact (Prod.mk.inj (Option.some.inj h)).1.symm
  · exact absurd (List.mem_range.mpr hlt) hleft

/-- A command is sent to a client that the change has still to reach. -/
theorem reaching_send (hn : n ≤ r.clients.length) (hr : r.Reaching n panel)
    (h : r.step .send = some r') : r'.Reaching n panel ∧ n ≤ r'.clients.length := by
  rcases step_send h with ⟨state, hsending, rfl⟩ |
    ⟨state, i, rest, client, hsending, hclient, hout, rfl⟩ |
    ⟨state, i, rest, client, hsending, hclient, hout, rfl⟩
  · have hleft := left_of_sending hsending
    refine ⟨⟨hr.shows, hr.out, fun _ h => absurd h List.not_mem_nil, fun _ _ h => (nomatch h),
      fun i client hi hlt _ => ?_, fun _ => ?_⟩, hn⟩
    · apply hr.told i client hi hlt
      rw [hleft]
      exact List.not_mem_nil
    · exact hr.sent _ _ hsending ▸ rfl
  · have hleft := left_of_sending hsending
    have hstate := hr.sent _ _ hsending
    refine ⟨⟨hr.shows, ?_, fun j hj => ?_, fun state' rest' h' => ?_, ?_,
      fun h => (nomatch h)⟩, ?_⟩
    · apply told_set
      · exact fun _ => hout
      · exact fun j client' hj _ => hr.out j client' hj
    · apply hr.left
      rw [hleft]
      exact List.mem_cons_of_mem i hj
    · exact (Prod.mk.inj (Option.some.inj h')).1 ▸ hstate
    · apply told_set
      · exact fun _ _ => hstate
      · intro j client' hj hji hlt hrest
        apply hr.told j client' hj hlt
        rw [hleft]
        exact fun hmem => (List.mem_cons.mp hmem).elim hji hrest
    · rw [List.length_set]
      exact hn
  · -- the client is one of those that have opened their streams
    have hlt : i < n := hr.left i (by rw [left_of_sending hsending]; exact List.mem_cons_self)
    rw [hr.out i client hclient hlt] at hout
    exact nomatch hout

theorem reaching_step (hn : n ≤ r.clients.length) (hr : r.Reaching n panel)
    (hne : ∀ change, a ≠ .change change) (h : r.step a = some r') :
    r'.Reaching n panel ∧ n ≤ r'.clients.length := by
  cases a with
  | connect =>
    obtain rfl := Option.some.inj h
    have hold {i : Nat} {client : Client} (hi : (r.clients ++ [⟨false, r.env⟩])[i]? = some client)
        (hlt : i < n) : r.clients[i]? = some client := by
      rw [List.getElem?_append_left (Nat.lt_of_lt_of_le hlt hn)] at hi
      exact hi
    refine ⟨⟨hr.shows, fun i client hi hlt => hr.out i client (hold hi hlt) hlt, hr.left, hr.sent,
      fun i client hi hlt => hr.told i client (hold hi hlt) hlt, hr.profiler⟩, ?_⟩
    rw [List.length_append]
    exact Nat.le_add_right_of_le hn
  | openOut i =>
    obtain ⟨client, hclient, rfl⟩ := Option.map_eq_some_iff.mp h
    refine ⟨⟨hr.shows, ?_, hr.left, hr.sent, ?_, hr.profiler⟩, ?_⟩
    · apply told_set
      · exact fun _ => rfl
      · exact fun j client' hj _ => hr.out j client' hj
    · apply told_set
      · exact hr.told i client hclient
      · exact fun j client' hj _ => hr.told j client' hj
    · rw [List.length_set]
      exact hn
  | change change => exact absurd rfl (hne change)
  | send => exact reaching_send hn hr h

end Run

theorem getElem?_step_run {i : Nat} {r : Run} {ra : RunAction} (hr : s.runs[i]? = some r)
    (h : s.step (.run i ra) = some s') :
    ∃ r', r.step ra = some r' ∧ s'.runs[i]? = some r' := by
  rcases step_runs h with ⟨hne, -⟩ | ⟨j, rb, rj, r', heq, hj, hstep, hruns⟩
  · exact absurd rfl (hne i ra)
  · obtain ⟨rfl, rfl⟩ := Action.run.inj heq
    rw [hr] at hj
    obtain rfl := Option.some.inj hj
    exact ⟨r', hstep, hruns ▸ List.getElem?_set_self (List.getElem?_eq_some_iff.mp hr).1⟩

/-- Whatever happens to other runs, the one at `i` goes on with its own actions. -/
theorem getElem?_step {i : Nat} {r : Run} (hr : s.runs[i]? = some r) (h : s.step a = some s') :
    s'.runs[i]? = some r ∨
      ∃ ra r', a = .run i ra ∧ r.step ra = some r' ∧ s'.runs[i]? = some r' := by
  have hlt := (List.getElem?_eq_some_iff.mp hr).1
  rcases step_runs h with ⟨-, hruns | hruns⟩ | ⟨j, ra, rj, r', rfl, hj, hstep, hruns⟩
  · exact Or.inl (hruns ▸ hr)
  · rw [hruns, List.getElem?_append_left hlt]
    exact Or.inl hr
  · by_cases hji : j = i
    · subst hji
      obtain ⟨r', hra, hr'⟩ := getElem?_step_run hr h
      exact Or.inr ⟨ra, r', rfl, hra, hr'⟩
    · rw [hruns, List.getElem?_set_ne hji]
      exact Or.inl hr

/-- A change of the run at `i` is on its way to its first `n` clients. -/
def State.Reaching (i n : Nat) (panel : QuickConfigState) (s : State) : Prop :=
  ∃ r, s.runs[i]? = some r ∧ r.Reaching n panel ∧ n ≤ r.clients.length

/-- **The next change.**  If all clients of a run have opened their streams when the user changes
the panel, then as soon as the change is sent all of them have been told what the panel shows, and
its profiler is the active one, whatever they had been told before and whoever connects
meanwhile. -/
theorem told_of_change {i : Nat} {r : Run} {change : Change} {as : List Action}
    (hr : s.runs[i]? = some r) (hout : ∀ client ∈ r.clients, client.out = true)
    (has : ∀ change', .run i (.change change') ∉ as)
    (hrun : (lts preferences).run s (.run i (.change change) :: as) = some s') :
    ∃ r', s'.runs[i]? = some r' ∧ r'.panel = change.apply r.panel ∧
      (r'.sending = none → r'.activeProfiler = r'.panel.profiler ∧
        ∀ j client, r'.clients[j]? = some client → j < r.clients.length →
          client.told = r'.panel) := by
  obtain ⟨t, hstep, hrest⟩ := Lts.run_cons_eq_some.mp hrun
  have hstep : s.step (.run i (.change change)) = some t := hstep
  have hfirst : t.Reaching i r.clients.length (change.apply r.panel) := by
    obtain ⟨r', hchange, hr'⟩ := getElem?_step_run hr hstep
    refine ⟨r', hr', Run.reaching_change hout hchange, ?_⟩
    obtain rfl := Option.some.inj hchange
    exact Nat.le_refl _
  have hmeets : (lts preferences).Meets
      (fun _ a => ∀ change', a ≠ .run i (.change change')) t as := by
    apply Lts.meets_of_mem
    rintro a ha - change' rfl
    exact has change' ha
  have hlast : s'.Reaching i r.clients.length (change.apply r.panel) := by
    refine Lts.invariant_of_meets ?_ hfirst hmeets hrest
    rintro s a s' ⟨r', hr', hreaching, hn⟩ hne hstep
    rcases getElem?_step hr' hstep with hsame | ⟨ra, r'', rfl, hra, hr''⟩
    · exact ⟨r', hsame, hreaching, hn⟩
    · obtain ⟨hreaching', hn'⟩ :=
        Run.reaching_step hn hreaching (fun change' heq => hne change' (heq ▸ rfl)) hra
      exact ⟨r'', hr'', hreaching', hn'⟩
  obtain ⟨r', hr', hreaching, -⟩ := hlast
  refine ⟨r', hr', hreaching.shows, fun hnone => ?_⟩
  rw [hreaching.shows]
  refine ⟨hreaching.profiler hnone, fun j client hj hlt => hreaching.told j client hj hlt ?_⟩
  rw [Run.left_of_none hnone]
  exact List.not_mem_nil

/-- A run with one process. -/
def connected : State where
  preferences := .new
  runs := [{ Run.new .new with clients := [{ out := true, told := create .new }] }]

/-- A second process connects while the user's change is sent to the first. -/
def profilerChanged : List Action :=
  [.run 0 (.change (.profiler .MEMORY)), .run 0 .connect, .run 0 .send, .run 0 .send]

theorem told_profilerChanged :
    ∃ s', (lts .new).run connected profilerChanged = some s' ∧
      ∃ r', s'.runs[0]? = some r' ∧
        r'.panel = (Change.profiler .MEMORY).apply (create .new) ∧
        (r'.sending = none → r'.activeProfiler = r'.panel.profiler ∧
          ∀ j client, r'.clients[j]? = some client → j < 1 → client.told = r'.panel) :=
  ⟨_, rfl, @told_of_change .new connected _ 0 _ (.profiler .MEMORY) profilerChanged.tail rfl
    (by decide) (by simp [profilerChanged]) rfl⟩

end Reloadium.Handler.QuickConfig
