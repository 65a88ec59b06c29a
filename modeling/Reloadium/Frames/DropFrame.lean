import Reloadium.Frames.LastUpdate

namespace Reloadium.Frames

open Reloadium.Lib

/-!
# Frames — when dropping a frame is offered

Model of `DropFrameActionHandler.canDrop`.  It asks the id map, which is never purged and
whose frames keep the flag and the caller they were first received with:

* `canDrop_eq` — the answer is the one the *first* records of the id and of its caller
  give;
* `canDrop_iff` — hence it is right for an id exactly when the id, once received, is still
  in the last event, and its first records give the same answer as the last event.
-/

/-- `DropFrameActionHandler.canDrop`, for the id of the selected frame. -/
def canDrop (s : Stack) (frameId : Int) : Bool :=
  match s.getFrameById frameId with
  | none => false
  | some reFrame =>
    if !reFrame.reloadable then false
    else
      match reFrame.back with
      | none => false
      | some back => back.reloadable

/-! ### What the events say -/

/-- The id occurs in the last event. -/
def InLatest (events : List StackUpdate) (id : Int) : Prop :=
  ∃ e ∈ events.getLast?, ∃ f ∈ e.frames, f.frameId = id

/-- The last event has a reloadable frame with this id whose caller exists and is
    reloadable. -/
def DroppableInLatest (events : List StackUpdate) (id : Int) : Prop :=
  ∃ e ∈ events.getLast?, ∃ r ∈ e.records, r.1.frameId = id ∧ r.1.reloadable = true ∧
    ∃ caller, r.2 = some caller ∧ caller.reloadable = true

/-- The id was first received with a reloadable frame and a caller, whose id was first
    received with a reloadable frame. -/
def DroppableAtFirst (events : List StackUpdate) (id : Int) : Prop :=
  ∃ r, firstSeen (historyRecords events) id = some r ∧ r.1.reloadable = true ∧
    ∃ caller, r.2 = some caller ∧
      ∃ r', firstSeen (historyRecords events) caller.frameId = some r' ∧
        r'.1.reloadable = true

/-! ### What the code answers -/

theorem reloadable_of_view {frame : Frame} {f : FrameData} (h : frame.view = f.view) :
    frame.reloadable = f.reloadable := by
  simp only [Frame.view, FrameData.view, Prod.mk.injEq] at h
  exact h.2.2.2

/-- The id map knows exactly the ids ever received. -/
theorem getFrameById_eq_none_iff (events : List StackUpdate) (id : Int) :
    (afterEvents events).getFrameById id = none ↔
      ∀ e ∈ events, ∀ f ∈ e.frames, f.frameId ≠ id := by
  have hint := afterEvents_interned events id
  have hnone : (afterEvents events).getFrameById id = none ↔
      firstSeen (historyRecords events) id = none := by
    cases hf : firstSeen (historyRecords events) id with
    | none => simpa [hf, Stack.getFrameById] using hint
    | some r =>
      simp only [hf] at hint
      obtain ⟨frame, hframe, _⟩ := hint
      simp [Stack.getFrameById, hframe]
  rw [hnone, firstSeen_eq_none]
  constructor
  · intro h e he f hf
    -- every frame of an event is in one of its records
    obtain ⟨r, hr, rfl⟩ := List.mem_map.mp ((records_perm e).mem_iff.mpr hf)
    exact h r (List.mem_flatMap.mpr ⟨e, he, hr⟩)
  · intro h r hr
    obtain ⟨e, he, hre⟩ := List.mem_flatMap.mp hr
    exact h e he r.1 ((records_perm e).mem_iff.mp (List.mem_map_of_mem hre))

/-- **What `canDrop` answers**: the flags with which the id and its caller were first
    received. -/
theorem canDrop_eq (events : List StackUpdate) (id : Int) :
    canDrop (afterEvents events) id = true ↔ DroppableAtFirst events id := by
  have hint := afterEvents_interned events
  unfold canDrop DroppableAtFirst Stack.getFrameById
  have hid := hint id
  cases hf : firstSeen (historyRecords events) id with
  | none =>
    simp only [hf] at hid
    simp [hid]
  | some r =>
    simp only [hf] at hid
    obtain ⟨frame, hframe, hview, hback⟩ := hid
    simp only [hframe, reloadable_of_view hview, Option.some.injEq, exists_eq_left']
    cases hr : r.1.reloadable with
    | false => simp
    | true =>
      cases hc : r.2 with
      | none =>
        simp only [hc] at hback
        simp [hback]
      | some caller =>
        simp only [hc] at hback
        obtain ⟨b, hb, hbf⟩ := hback
        -- the back frame is the caller's own interned frame, so its flag is looked up the same way
        have hcid := hint caller.frameId
        cases hfc : firstSeen (historyRecords events) caller.frameId with
        | none =>
          simp only [hfc] at hcid
          rw [hb] at hcid
          exact absurd hcid (by simp)
        | some r' =>
          simp only [hfc] at hcid
          obtain ⟨b', hb', hmade'⟩ := hcid
          rw [hb, Option.some.injEq] at hb'
          subst hb'
          simp [hbf, hfc, reloadable_of_view hmade'.1, -Prod.exists]

/-- **Drop frame.** After any events and for any frame id: the offer to drop and the
    lookup of the frame are those of the last event exactly when the id, if it was ever
    received, is in the last event, and its first records give the last event's answer. -/
theorem canDrop_iff (events : List StackUpdate) (id : Int) :
    ((canDrop (afterEvents events) id = true ↔ DroppableInLatest events id) ∧
      ((afterEvents events).getFrameById id ≠ none ↔ InLatest events id)) ↔
    (DroppableAtFirst events id ↔ DroppableInLatest events id) ∧
      ((∃ e ∈ events, ∃ f ∈ e.frames, f.frameId = id) → InLatest events id) := by
  have hseen : (afterEvents events).getFrameById id ≠ none ↔
      ∃ e ∈ events, ∃ f ∈ e.frames, f.frameId = id := by
    rw [Ne, getFrameById_eq_none_iff]
    simp
  have hlatest : InLatest events id → ∃ e ∈ events, ∃ f ∈ e.frames, f.frameId = id := by
    rintro ⟨e, he, hf⟩
    exact ⟨e, List.mem_of_getLast? he, hf⟩
  rw [canDrop_eq, hseen]
  constructor
  · rintro ⟨hdrop, hid⟩
    exact ⟨hdrop, hid.mp⟩
  · rintro ⟨hdrop, hid⟩
    exact ⟨hdrop, ⟨hid, hlatest⟩⟩

/-- A reloadable frame with id 1 called from a reloadable frame with id 2. -/
def twoFrames : StackUpdate where
  content := [("0", [⟨1, "/shop/cake.py", "cake.bake", true⟩,
    ⟨2, "/shop/main.py", "main", true⟩])]
  threads_nodup := by decide
  ids_nodup := by decide

/-- **Counterexample.** After frame 1 has returned, dropping it is still offered and the
    stack still finds it. -/
theorem returned_frame_droppable :
    ¬ ∀ (events : List StackUpdate) (id : Int),
      (canDrop (afterEvents events) id = true ↔ DroppableInLatest events id) ∧
        ((afterEvents events).getFrameById id ≠ none ↔ InLatest events id) := by
  intro h
  -- the second event has only the caller left
  obtain ⟨hdrop, _⟩ := h [twoFrames, singleFrame 2 "/shop/main.py"] 1
  obtain ⟨e, he, r, hr, hid, _⟩ := hdrop.mp (by decide)
  rw [Option.mem_def, List.getLast?_cons_cons, List.getLast?_singleton,
    Option.some.injEq] at he
  subst he
  have hr2 : r.1.frameId = 2 := by
    rw [List.mem_singleton.mp hr]
  omega

end Reloadium.Frames
