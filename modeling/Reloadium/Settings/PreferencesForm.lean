import Reloadium.Lib.Configurable
import Reloadium.Lib.JString
import Reloadium.Profile.CumulateMaps

namespace Reloadium.Settings

open Reloadium.Lib
open Reloadium.Profile (CumulateType)

/-!
# Settings — the preferences

Model of `PreferencesState`, `PreferencesForm` and `PreferencesConfigurable`, and of the lookups of
`ColorMaps`.  A null field of the state is `none`; the components of the form are what their
models hold, which take any value.

The form has no component for the default frame scope, and gives back the one of a new state.

* `PreferencesState.equals_eq` — the comparison is that of all fields;
* `bind_getState` — what the form gives back;
* `preferences_kept_iff` — when opening and applying the preferences changes nothing.
-/

/-! ### The state -/

inductive ProfilerType where
  | NONE
  | TIME
  | MEMORY
deriving DecidableEq, Repr

def ProfilerType.DEFAULT : ProfilerType := .TIME

inductive ErrorHandlingMode where
  | BREAKPOINT_PRESENT
  | ALWAYS
deriving DecidableEq, Repr

def ErrorHandlingMode.DEFAULT : ErrorHandlingMode := .ALWAYS

/-- The images of the colour maps; an `ImageIcon` is equal to itself only. -/
inductive ImageIcon where
  | inferno
  | plasma
  | viridis
deriving DecidableEq, Repr

/-- A `ColorMap`, without its colours. -/
structure ColorMap where
  image : ImageIcon
  name : JString
deriving DecidableEq

namespace ColorMaps

def inferno : ColorMap := ⟨.inferno, .ofString "Inferno"⟩

def plasma : ColorMap := ⟨.plasma, .ofString "Plasma"⟩

def viridis : ColorMap := ⟨.viridis, .ofString "Viridis"⟩

def getAll : List ColorMap := [inferno, plasma, viridis]

/-- `getColorMapByImage`; `none` where it throws or returns null. -/
def getColorMapByImage (image : Option ImageIcon) : Option ColorMap :=
  getAll.find? fun colorMap => some colorMap.image = image

@[inherit_doc getColorMapByImage]
def getColorMapByName (name : Option JString) : Option ColorMap :=
  getAll.find? fun colorMap => some colorMap.name = name

end ColorMaps

structure PreferencesState where
  blinkDuration : Int32
  timingColorMap : Option JString
  defaultProfiler : Option ProfilerType
  defaultFrameScope : Bool
  defaultCumulateType : Option CumulateType
  defaultErrorHandlingMode : Option ErrorHandlingMode
  alwaysCollectMemory : Bool
  markReloadable : Bool
  runtimeCompletion : Bool
deriving DecidableEq

namespace PreferencesState

/-- `new PreferencesState()`. -/
def new : PreferencesState where
  blinkDuration := 1000
  markReloadable := true
  timingColorMap := some ColorMaps.viridis.name
  defaultProfiler := some .DEFAULT
  defaultFrameScope := true
  defaultCumulateType := some .DEFAULT
  defaultErrorHandlingMode := some .DEFAULT
  alwaysCollectMemory := false
  runtimeCompletion := true

/-- `equals`; `none` when the call on a null name throws. -/
def equals (this that : PreferencesState) : Option Bool :=
  this.timingColorMap.map fun timingColorMap =>
    this.blinkDuration = that.blinkDuration && some timingColorMap = that.timingColorMap &&
      this.markReloadable = that.markReloadable && this.defaultProfiler = that.defaultProfiler &&
      this.defaultFrameScope = that.defaultFrameScope &&
      this.defaultCumulateType = that.defaultCumulateType &&
      this.defaultErrorHandlingMode = that.defaultErrorHandlingMode &&
      this.alwaysCollectMemory = that.alwaysCollectMemory &&
      this.runtimeCompletion = that.runtimeCompletion

/-- The comparison leaves out no field. -/
theorem equals_eq {this : PreferencesState} (h : this.timingColorMap.isSome = true)
    (that : PreferencesState) : this.equals that = some (decide (this = that)) := by
  obtain ⟨name, hname⟩ := Option.isSome_iff_exists.mp h
  rw [equals, hname, Option.map_some, Option.some.injEq, ← hname]
  obtain ⟨⟩ := this
  obtain ⟨⟩ := that
  rw [Bool.eq_iff_iff]
  simp only [Bool.and_eq_true, decide_eq_true_eq, mk.injEq]
  tauto

end PreferencesState

/-! ### The form -/

/-- `PreferencesForm`: the number of the spinner, the selected items and check boxes. -/
structure PreferencesForm where
  blinkDuration : Int32
  timingColormap : Option ImageIcon
  markReloadable : Bool
  defaultProfiler : Option ProfilerType
  defaultCumulateType : Option CumulateType
  errorHandlingMode : Option ErrorHandlingMode
  alwaysCollectMemory : Bool
  runtimeCompletion : Bool

namespace PreferencesForm

/-- `getState`; `none` when it throws. -/
def getState (form : PreferencesForm) : Option PreferencesState :=
  (ColorMaps.getColorMapByImage form.timingColormap).map fun colorMap =>
    { PreferencesState.new with
      blinkDuration := form.blinkDuration
      timingColorMap := some colorMap.name
      alwaysCollectMemory := form.alwaysCollectMemory
      markReloadable := form.markReloadable
      defaultProfiler := form.defaultProfiler
      defaultCumulateType := form.defaultCumulateType
      defaultErrorHandlingMode := form.errorHandlingMode
      runtimeCompletion := form.runtimeCompletion }

/-- `setState`; `none` when it throws. -/
def setState (form : PreferencesForm) (state : PreferencesState) : Option PreferencesForm :=
  (ColorMaps.getColorMapByName state.timingColorMap).map fun colorMap =>
    { form with
      -- `SpinnerNumberModel.setValue` checks no bounds
      blinkDuration := state.blinkDuration
      timingColormap := some colorMap.image
      alwaysCollectMemory := state.alwaysCollectMemory
      markReloadable := state.markReloadable
      defaultProfiler := state.defaultProfiler
      defaultCumulateType := state.defaultCumulateType
      errorHandlingMode := state.defaultErrorHandlingMode
      runtimeCompletion := state.runtimeCompletion }

end PreferencesForm

/-- `PreferencesConfigurable`.  `Preferences.loadState` copies every field. -/
def preferencesConfigurable : Configurable PreferencesForm PreferencesState where
  setState := PreferencesForm.setState
  getState := PreferencesForm.getState
  equals := PreferencesState.equals
  loadState state _ := state

/-! ### What the form gives back -/

variable {form : PreferencesForm} {state : PreferencesState}

/-- A colour map is the one of its image and of its name. -/
theorem getColorMapByImage_image {colorMap : ColorMap} (h : colorMap ∈ ColorMaps.getAll) :
    ColorMaps.getColorMapByImage (some colorMap.image) = some colorMap ∧
      ColorMaps.getColorMapByName (some colorMap.name) = some colorMap := by
  rw [ColorMaps.getAll, List.mem_cons, List.mem_cons, List.mem_singleton] at h
  rcases h with rfl | rfl | rfl <;> exact ⟨by decide, by decide⟩

/-- A colour map that is found has the name that it is looked up by. -/
theorem getColorMapByName_eq_some {name : Option JString} {colorMap : ColorMap}
    (h : ColorMaps.getColorMapByName name = some colorMap) :
    colorMap ∈ ColorMaps.getAll ∧ name = some colorMap.name := by
  have hfound := List.find?_some h
  exact ⟨List.mem_of_find?_eq_some h, (of_decide_eq_true hfound).symm⟩

/-- A state that the form gives back has a colour map. -/
theorem isSome_timingColorMap (h : form.getState = some state) :
    state.timingColorMap.isSome = true := by
  obtain ⟨colorMap, -, rfl⟩ := Option.map_eq_some_iff.mp h
  rfl

theorem preferencesConfigurable_lawful : preferencesConfigurable.Lawful where
  equals_self form state h := by
    have hequals := PreferencesState.equals_eq (isSome_timingColorMap h) state
    exact hequals.trans (congrArg some (decide_eq_true rfl))
  loadState_eq _ _ := rfl

/-- **Spec lemma.** Everything but the default frame scope is given back, if there is a colour map
    of the state's name. -/
theorem bind_getState (form : PreferencesForm) (state : PreferencesState) :
    (form.setState state).bind PreferencesForm.getState =
      (ColorMaps.getColorMapByName state.timingColorMap).map fun _ =>
        { state with defaultFrameScope := true } := by
  rw [PreferencesForm.setState]
  cases hname : ColorMaps.getColorMapByName state.timingColorMap with
  | none => rfl
  | some colorMap =>
    obtain ⟨hmem, htiming⟩ := getColorMapByName_eq_some hname
    rw [Option.map_some, Option.bind_some, PreferencesForm.getState,
      (getColorMapByImage_image hmem).1, Option.map_some, Option.map_some, ← htiming]
    rfl

/-- **Preferences.** Opening and applying them changes nothing just if the default frame scope is
    set and the colour map is one there is. -/
theorem preferences_kept_iff (form : PreferencesForm) (state : PreferencesState) :
    preferencesConfigurable.Kept form state ↔
      state.defaultFrameScope = true ∧
        ∃ colorMap ∈ ColorMaps.getAll, state.timingColorMap = some colorMap.name := by
  rw [Configurable.kept_iff preferencesConfigurable_lawful]
  show (form.setState state).bind PreferencesForm.getState = some state ↔ _
  rw [bind_getState, Option.map_eq_some_iff]
  constructor
  · rintro ⟨colorMap, hname, heq⟩
    obtain ⟨hmem, htiming⟩ := getColorMapByName_eq_some hname
    exact ⟨(congrArg PreferencesState.defaultFrameScope heq).symm, colorMap, hmem, htiming⟩
  · rintro ⟨hscope, colorMap, hmem, htiming⟩
    refine ⟨colorMap, htiming ▸ (getColorMapByImage_image hmem).2, ?_⟩
    rw [← hscope]

end Reloadium.Settings
