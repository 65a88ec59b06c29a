import Reloadium.Frames.Stack
import Mathlib.Data.List.Induction

namespace Reloadium.Frames

open Reloadium.Lib

/-!
# Frames — the stack against the last event

The frame objects of the stack are interned: the object found for an id is the one made
when the id was *first* received, with the data and the caller it had then.

* `Interned` — what `frameIdToFrame` holds, in terms of the records of all events so far;
* `afterEvents_interned`, `afterEvents_eventOk` — the state after any sequence of events;
* `describes_iff` — the stack describes its last event exactly when every frame of that
  event was first received with the same data and the same caller id.
-/

/-- The data a frame shows. -/
def Frame.view (f : Frame) : Int × String × String × Bool :=
  (f.id, f.path, f.fullname, f.reloadable)

/-- The data an event gives for a frame. -/
def FrameData.view (f : FrameData) : Int × String × String × Bool :=
  (f.frameId, f.localPath, f.fullname, f.reloadable)

/-! ### The interned frames -/

/-- `frame` is the object made for the record `r`: its data, and the interned frame of its
    caller. -/
def MadeFor (m : PMap Int Frame) (r : FrameData × Option FrameData) (frame : Frame) : Prop :=
  frame.view = r.1.view ∧
    match r.2 with
    | none => frame.back = none
    | some caller => ∃ b, m caller.frameId = some b ∧ frame.back = some b

/-- The id map holds, for every id of the records, the frame made for its first record. -/
def Interned (m : PMap Int Frame) (records : List (FrameData × Option FrameData)) : Prop :=
  ∀ id, match firstSeen records id with
    | none => m id = none
    | some r => ∃ frame, m id = some frame ∧ MadeFor m r frame

theorem firstSeen_append (rs ts : List (FrameData × Option FrameData)) (id : Int) :
    firstSeen (rs ++ ts) id = (firstSeen rs id).or (firstSeen ts id) := List.find?_append

theorem firstSeen_singleton (r : FrameData × Option FrameData) (id : Int) :
    firstSeen [r] id = if r.1.frameId = id then some r else none := by
  unfold firstSeen
  by_cases h : r.1.frameId = id <;> simp [h]

theorem firstSeen_eq_none {rs : List (FrameData × Option FrameData)} {id : Int} :
    firstSeen rs id = none ↔ ∀ r ∈ rs, r.1.frameId ≠ id := by
  simp [firstSeen, List.find?_eq_none]

/-- The first record of an id is one of the records, and is of that id. -/
theorem firstSeen_eq_some {rs : List (FrameData × Option FrameData)} {id : Int}
    {r : FrameData × Option FrameData} (h : firstSeen rs id = some r) :
    r ∈ rs ∧ r.1.frameId = id :=
  ⟨List.mem_of_find?_eq_some h, by simpa using List.find?_some h⟩

theorem interned_empty : Interned .empty [] := fun _ => rfl

/-- Every id of the records is bound. -/
theorem Interned.exists_of_mem {m : PMap Int Frame}
    {records : List (FrameData × Option FrameData)} (h : Interned m records)
    {r : FrameData × Option FrameData} (hr : r ∈ records) :
    ∃ frame, m r.1.frameId = some frame := by
  have hid := h r.1.frameId
  cases hf : firstSeen records r.1.frameId with
  | none => exact absurd rfl (firstSeen_eq_none.mp hf r hr)
  | some r₀ =>
    simp only [hf] at hid
    obtain ⟨frame, hframe, _⟩ := hid
    exact ⟨frame, hframe⟩

/-- The frame bound to an id shows that id. -/
theorem Interned.id_eq {m : PMap Int Frame} {records : List (FrameData × Option FrameData)}
    (h : Interned m records) {id : Int} {frame : Frame} (hm : m id = some frame) :
    frame.id = id := by
  have hid := h id
  cases hf : firstSeen records id with
  | none => simp [hf, hm] at hid
  | some r =>
    simp only [hf, hm, Option.some.injEq, exists_eq_left'] at hid
    have hview := congrArg Prod.fst hid.1
    exact hview.trans (firstSeen_eq_some hf).2

/-- The frame made for a record stays so when the map grows. -/
theorem MadeFor.mono {m m' : PMap Int Frame} {r : FrameData × Option FrameData}
    {frame : Frame} (hext : m.Extends m') (h : MadeFor m r frame) : MadeFor m' r frame := by
  refine ⟨h.1, ?_⟩
  have h2 := h.2
  cases hc : r.2 with
  | none => simpa [hc] using h2
  | some caller =>
    simp only [hc] at h2 ⊢
    obtain ⟨b, hb, hback⟩ := h2
    exact ⟨b, hext _ _ hb, hback⟩

/-! ### One frame -/

/-- The paths map lists, for every path, the interned frames of the event's records with
    that path, in processing order. -/
def PathsOk (s : Stack) (done : List (FrameData × Option FrameData)) : Prop :=
  ∀ p, ((s.pathToFrames p).getD []).map some =
    (done.filter fun r => r.1.localPath = p).map fun r => s.frameIdToFrame r.1.frameId

/-- `backFrame` is the interned frame of the caller. -/
def BackOk (l : ThreadLoop) (caller : Option FrameData) : Prop :=
  match caller with
  | none => l.backFrame = none
  | some c => ∃ b, l.stack.frameIdToFrame c.frameId = some b ∧ l.backFrame = some b

/-- The frame object the loop body uses for `f`. -/
def frameFor (l : ThreadLoop) (f : FrameData) : Frame :=
  l.stack.frameIdToFrame.getOrDefault f.frameId
    (.mk f.frameId f.localPath f.fullname f.reloadable l.backFrame)

@[simp] theorem addFrame_frames (l : ThreadLoop) (f : FrameData) :
    (addFrame l f).frames = frameFor l f :: l.frames := rfl

theorem addFrame_frameIdToFrame (l : ThreadLoop) (f : FrameData) :
    (addFrame l f).stack.frameIdToFrame =
      l.stack.frameIdToFrame.putIfAbsent f.frameId (frameFor l f) := rfl

/-- After the body the id of `f` is bound to the frame used for it. -/
theorem addFrame_bound (l : ThreadLoop) (f : FrameData) :
    (addFrame l f).stack.frameIdToFrame f.frameId = some (frameFor l f) := by
  rw [addFrame_frameIdToFrame, PMap.putIfAbsent_self]
  cases h : l.stack.frameIdToFrame f.frameId with
  | none => rw [PMap.getOrDefault_of_eq_none _ h]
  | some frame =>
    rw [PMap.getOrDefault_of_eq_some _ h, frameFor, PMap.getOrDefault_of_eq_some _ h]

theorem addFrame_extends (l : ThreadLoop) (f : FrameData) :
    l.stack.frameIdToFrame.Extends (addFrame l f).stack.frameIdToFrame :=
  PMap.extends_putIfAbsent _ _ _

/-- **Interning.** The body of the inner loop adds one record to the history the id map
    stands for. -/
theorem addFrame_interned {l : ThreadLoop} {f : FrameData} {caller : Option FrameData}
    {records : List (FrameData × Option FrameData)}
    (h : Interned l.stack.frameIdToFrame records) (hback : BackOk l caller) :
    Interned (addFrame l f).stack.frameIdToFrame (records ++ [(f, caller)]) := by
  have hext := addFrame_extends l f
  intro id
  rw [firstSeen_append, firstSeen_singleton]
  have hid := h id
  cases hf : firstSeen records id with
  | some r =>
    -- an id seen before keeps its frame
    simp only [hf, Option.some_or] at hid ⊢
    obtain ⟨frame, hframe, hmade⟩ := hid
    exact ⟨frame, hext _ _ hframe, hmade.mono hext⟩
  | none =>
    simp only [hf, Option.none_or] at hid ⊢
    by_cases hfid : f.frameId = id
    · -- a new id gets the frame built from `f` and `backFrame`
      subst hfid
      simp only [if_true]
      refine ⟨frameFor l f, addFrame_bound l f, ?_⟩
      rw [frameFor, PMap.getOrDefault_of_eq_none _ hid]
      refine ⟨rfl, ?_⟩
      cases caller with
      | none => exact hback
      | some c =>
        obtain ⟨b, hb, hbf⟩ := hback
        exact ⟨b, hext _ _ hb, hbf⟩
    · simp only [if_neg hfid]
      rw [addFrame_frameIdToFrame, PMap.putIfAbsent_of_ne _ _ (Ne.symm hfid)]
      exact hid

/-- The frames of records that are interned already do not change when the map grows. -/
theorem map_frames_congr {m m' : PMap Int Frame}
    {records done : List (FrameData × Option FrameData)} (h : Interned m records)
    (hext : m.Extends m') (hsub : ∀ r ∈ done, r ∈ records) :
    done.map (fun r => m' r.1.frameId) = done.map fun r => m r.1.frameId := by
  refine List.map_congr_left fun r hr => ?_
  obtain ⟨frame, hframe⟩ := h.exists_of_mem (hsub r hr)
  rw [hframe, hext _ _ hframe]

/-- The body of the inner loop files the frame under its local path. -/
theorem addFrame_pathsOk {l : ThreadLoop} {f : FrameData} {caller : Option FrameData}
    {records done : List (FrameData × Option FrameData)}
    (h : Interned l.stack.frameIdToFrame records) (hsub : ∀ r ∈ done, r ∈ records)
    (hp : PathsOk l.stack done) : PathsOk (addFrame l f).stack (done ++ [(f, caller)]) := by
  intro p
  have hold : ((l.stack.pathToFrames p).getD []).map some =
      (done.filter fun r => r.1.localPath = p).map
        fun r => (addFrame l f).stack.frameIdToFrame r.1.frameId := by
    rw [hp p, map_frames_congr h (addFrame_extends l f)]
    exact fun r hr => hsub r (List.mem_of_mem_filter hr)
  have hpaths : (addFrame l f).stack.pathToFrames =
      (l.stack.pathToFrames.putIfAbsent f.localPath []).put f.localPath
        ((l.stack.pathToFrames.putIfAbsent f.localPath []).getOrDefault f.localPath [] ++
          [frameFor l f]) := rfl
  rw [List.filter_append, List.map_append, ← hold, hpaths]
  by_cases hpf : p = f.localPath
  · subst hpf
    rw [PMap.put_self, PMap.getOrDefault_of_eq_some _ (PMap.putIfAbsent_self _ _ _)]
    simp [addFrame_bound, PMap.getOrDefault]
  · rw [PMap.put_of_ne _ _ hpf, PMap.putIfAbsent_of_ne _ _ hpf]
    simp [Ne.symm hpf]

/-! ### One thread -/

theorem mem_threadRecords {fds : List FrameData} {r : FrameData × Option FrameData} :
    r ∈ threadRecords fds ↔ ∃ i, fds[i]? = some r.1 ∧ fds[i + 1]? = r.2 := by
  induction fds with
  | nil => simp [threadRecords]
  | cons f callers ih =>
    simp only [threadRecords, List.mem_append, List.mem_singleton, ih]
    constructor
    · rintro (⟨i, h1, h2⟩ | rfl)
      · exact ⟨i + 1, by simpa using h1, by simpa using h2⟩
      · exact ⟨0, by simp, by simp [List.head?_eq_getElem?]⟩
    · rintro ⟨i, h1, h2⟩
      cases i with
      | zero =>
        right
        simp only [List.getElem?_cons_zero, Option.some.injEq] at h1
        simp only [List.getElem?_cons_succ] at h2
        rw [List.head?_eq_getElem?, h2, h1]
      | succ i => exact Or.inl ⟨i, by simpa using h1, by simpa using h2⟩

/-- Processing a thread meets its frames in reverse order. -/
theorem threadRecords_map_fst (fds : List FrameData) :
    (threadRecords fds).map Prod.fst = fds.reverse := by
  induction fds with
  | nil => rfl
  | cons f callers ih => simp [threadRecords, ih]

/-- What the inner loop has achieved after the frames `fds`: they are interned and filed,
    and `frames` lists their objects. -/
structure LoopOk (s : Stack) (hist done : List (FrameData × Option FrameData))
    (fds : List FrameData) (l : ThreadLoop) : Prop where
  interned : Interned l.stack.frameIdToFrame (hist ++ (done ++ threadRecords fds))
  paths : PathsOk l.stack (done ++ threadRecords fds)
  frames : l.frames.map some = fds.map fun f => l.stack.frameIdToFrame f.frameId
  back : BackOk l fds.head?
  content : l.stack.content = s.content
  extends' : s.frameIdToFrame.Extends l.stack.frameIdToFrame

/-- The frames of a thread that has been processed are records of the event. -/
theorem map_threadFrames_congr {m m' : PMap Int Frame} {fds : List FrameData}
    {records : List (FrameData × Option FrameData)} (h : Interned m records)
    (hext : m.Extends m') (hsub : ∀ r ∈ threadRecords fds, r ∈ records) :
    (fds.map fun f => m' f.frameId) = fds.map fun f => m f.frameId := by
  -- the frames of a thread are those of its records, in reverse order
  have hmap : ∀ m₀ : PMap Int Frame, (fds.map fun f => m₀ f.frameId)
      = ((threadRecords fds).map fun r => m₀ r.1.frameId).reverse := by
    intro m₀
    rw [← List.map_reverse, ← Function.comp_def (fun f => m₀ (FrameData.frameId f)) Prod.fst,
      ← List.map_map, List.map_reverse, threadRecords_map_fst, List.reverse_reverse]
  rw [hmap, hmap, map_frames_congr h hext hsub]

/-- **Thread lemma.** The inner loop processes the frames of one thread. -/
theorem loopOk_foldl {s : Stack} {hist done : List (FrameData × Option FrameData)}
    (h : Interned s.frameIdToFrame (hist ++ done)) (hp : PathsOk s done)
    (fds : List FrameData) :
    LoopOk s hist done fds (fds.reverse.foldl addFrame ⟨s, [], none⟩) := by
  induction fds with
  | nil =>
    refine ⟨?_, ?_, rfl, rfl, rfl, PMap.Extends.refl _⟩
    · simpa [threadRecords] using h
    · simpa [threadRecords] using hp
  | cons f callers ih =>
    rw [List.reverse_cons, List.foldl_append, List.foldl_cons, List.foldl_nil]
    -- the callers have been processed before `f`
    generalize callers.reverse.foldl addFrame ⟨s, [], none⟩ = l at ih
    have hrec : done ++ threadRecords (f :: callers)
        = (done ++ threadRecords callers) ++ [(f, callers.head?)] := by
      rw [threadRecords, List.append_assoc]
    refine ⟨?_, ?_, ?_, ?_, ih.content, ih.extends'.trans (addFrame_extends l f)⟩
    · rw [hrec, ← List.append_assoc]
      exact addFrame_interned ih.interned ih.back
    · rw [hrec]
      exact addFrame_pathsOk ih.interned (fun r hr => List.mem_append_right _ hr) ih.paths
    · rw [addFrame_frames, List.map_cons, List.map_cons, addFrame_bound, ih.frames,
        map_threadFrames_congr ih.interned (addFrame_extends l f)]
      exact fun r hr => List.mem_append_right _ (List.mem_append_right _ hr)
    · exact ⟨frameFor l f, addFrame_bound l f, rfl⟩

/-! ### One event -/

/-- The records of a list of content entries. -/
def entryRecords (entries : List (String × List FrameData)) :
    List (FrameData × Option FrameData) :=
  entries.flatMap fun entry => threadRecords entry.2

/-- What the outer loop has achieved after some content entries. -/
structure EventOk (hist : List (FrameData × Option FrameData))
    (entries : List (String × List FrameData)) (s : Stack) : Prop where
  interned : Interned s.frameIdToFrame (hist ++ entryRecords entries)
  paths : PathsOk s (entryRecords entries)
  present : ∀ t fds, (t, fds) ∈ entries → ∃ frames, s.content t = some frames ∧
    frames.map some = fds.map fun f => s.frameIdToFrame f.frameId
  absent : ∀ t, t ∉ entries.map Prod.fst → s.content t = none

/-- **Entry lemma.** The outer loop processes one more thread. -/
theorem eventOk_addThread {hist : List (FrameData × Option FrameData)}
    {entries : List (String × List FrameData)} {s : Stack} (h : EventOk hist entries s)
    (entry : String × List FrameData) (hnew : entry.1 ∉ entries.map Prod.fst) :
    EventOk hist (entries ++ [entry]) (addThread s entry) := by
  obtain ⟨t₀, fds₀⟩ := entry
  have hl := loopOk_foldl h.interned h.paths fds₀
  simp only [addThread]
  generalize fds₀.reverse.foldl addFrame ⟨s, [], none⟩ = l at hl
  have hrec : entryRecords (entries ++ [(t₀, fds₀)])
      = entryRecords entries ++ threadRecords fds₀ := by
    simp [entryRecords]
  refine ⟨by rw [hrec]; exact hl.interned, by rw [hrec]; exact hl.paths, ?_, ?_⟩
  · intro t fds hmem
    rcases List.mem_append.mp hmem with hold | hlast
    · -- an earlier thread: another key, and its frames are interned already
      obtain ⟨frames, hframes, hmap⟩ := h.present t fds hold
      have hne : t ≠ t₀ := by
        rintro rfl
        exact hnew (List.mem_map.mpr ⟨_, hold, rfl⟩)
      refine ⟨frames, ?_, ?_⟩
      · show l.stack.content.put t₀ l.frames t = some frames
        rw [PMap.put_of_ne _ _ hne, hl.content, hframes]
      · rw [hmap]
        refine (map_threadFrames_congr h.interned hl.extends' ?_).symm
        exact fun r hr => List.mem_append_right _ (List.mem_flatMap.mpr ⟨_, hold, hr⟩)
    · rw [List.mem_singleton, Prod.mk.injEq] at hlast
      obtain ⟨rfl, rfl⟩ := hlast
      exact ⟨l.frames, PMap.put_self _ _ _, hl.frames⟩
  · intro t ht
    rw [List.map_append, List.mem_append, not_or] at ht
    have hne : t ≠ t₀ := by simpa using ht.2
    show l.stack.content.put t₀ l.frames t = none
    rw [PMap.put_of_ne _ _ hne, hl.content]
    exact h.absent t ht.1

theorem eventOk_foldl {hist : List (FrameData × Option FrameData)}
    (todo : List (String × List FrameData)) {entries : List (String × List FrameData)}
    {s : Stack} (h : EventOk hist entries s)
    (hnodup : ((entries ++ todo).map Prod.fst).Nodup) :
    EventOk hist (entries ++ todo) (todo.foldl addThread s) := by
  -- over the threads that are left; those done move to `entries`
  induction todo generalizing entries s with
  | nil => simpa using h
  | cons entry todo ih =>
    have hnew : entry.1 ∉ entries.map Prod.fst := by
      intro hmem
      rw [List.map_append, List.nodup_append] at hnodup
      exact hnodup.2.2 _ hmem _ (by simp) rfl
    rw [List.foldl_cons]
    have hassoc : entries ++ entry :: todo = (entries ++ [entry]) ++ todo := by simp
    rw [hassoc] at hnodup ⊢
    exact ih (eventOk_addThread h entry hnew) hnodup

/-- **Event lemma.** `onStackUpdateEvent` rebuilds content and paths from the event and
    adds its records to the history of the id map. -/
theorem eventOk_onStackUpdateEvent {hist : List (FrameData × Option FrameData)} {s : Stack}
    (h : Interned s.frameIdToFrame hist) (e : StackUpdate) :
    EventOk hist e.content (onStackUpdateEvent s e) := by
  -- both maps start empty, and the id map as it was left
  have h0 : EventOk hist [] { s with content := .empty, pathToFrames := .empty } := by
    refine ⟨by simpa [entryRecords] using h, ?_, by simp, fun _ _ => rfl⟩
    intro p
    simp [entryRecords]
  exact eventOk_foldl e.content h0 e.threads_nodup

/-! ### All events -/

/-- The records of a sequence of events, in processing order. -/
def historyRecords (events : List StackUpdate) : List (FrameData × Option FrameData) :=
  events.flatMap StackUpdate.records

theorem afterEvents_concat (events : List StackUpdate) (e : StackUpdate) :
    afterEvents (events ++ [e]) = onStackUpdateEvent (afterEvents events) e := by
  simp [afterEvents]

theorem historyRecords_concat (events : List StackUpdate) (e : StackUpdate) :
    historyRecords (events ++ [e]) = historyRecords events ++ e.records := by
  simp [historyRecords]

/-- **History lemma.** After any events the id map holds, for every id ever received, the
    frame made when it was first received. -/
theorem afterEvents_interned (events : List StackUpdate) :
    Interned (afterEvents events).frameIdToFrame (historyRecords events) := by
  induction events using List.reverseRecOn with
  | nil => exact interned_empty
  | append_singleton events e ih =>
    rw [afterEvents_concat, historyRecords_concat]
    exact (eventOk_onStackUpdateEvent ih e).interned

/-- Content and paths after any events are those of the last one. -/
theorem afterEvents_eventOk (events : List StackUpdate) (e : StackUpdate) :
    EventOk (historyRecords events) e.content (afterEvents (events ++ [e])) := by
  rw [afterEvents_concat]
  exact eventOk_onStackUpdateEvent (afterEvents_interned events) e

/-! ### The stack and its last event -/

/-- The frames of an event, in order. -/
def StackUpdate.frames (e : StackUpdate) : List FrameData := e.content.flatMap Prod.snd

/-- The stack is the event: for every thread, frame `i` shows the data of the event's frame
    `i` and has frame `i + 1` for its back frame (none for the last), and every path lists
    exactly the event's frames with that local path. -/
structure Describes (s : Stack) (e : StackUpdate) : Prop where
  threads : ∀ t, s.content t = none ↔ t ∉ e.content.map Prod.fst
  frames : ∀ t fds, (t, fds) ∈ e.content → ∃ frames, s.content t = some frames ∧
    frames.length = fds.length ∧
    ∀ i frame f, frames[i]? = some frame → fds[i]? = some f →
      frame.view = f.view ∧ frame.back = frames[i + 1]?
  paths : ∀ p, (((s.getForPath p).getD []).map Frame.view).Perm
    ((e.frames.filter fun f => f.localPath = p).map FrameData.view)

/-- Every frame of `e` was first received with the data and the caller id it has in `e`. -/
def FirstSeenAgree (events : List StackUpdate) (e : StackUpdate) : Prop :=
  ∀ r ∈ e.records, ∀ r₀, firstSeen (historyRecords (events ++ [e])) r.1.frameId = some r₀ →
    r₀.1.view = r.1.view ∧ r₀.2.map FrameData.frameId = r.2.map FrameData.frameId

/-- The frame of a record of the last event is the one made for the first record of its
    id. -/
theorem frame_of_record (events : List StackUpdate) (e : StackUpdate)
    {r : FrameData × Option FrameData} (hr : r ∈ e.records) :
    ∃ r₀ frame, firstSeen (historyRecords (events ++ [e])) r.1.frameId = some r₀ ∧
      (afterEvents (events ++ [e])).frameIdToFrame r.1.frameId = some frame ∧
      MadeFor (afterEvents (events ++ [e])).frameIdToFrame r₀ frame := by
  have hint := afterEvents_interned (events ++ [e])
  -- the last event's records are part of the history
  have hmem : r ∈ historyRecords (events ++ [e]) := by
    rw [historyRecords_concat]
    exact List.mem_append_right _ hr
  have hid := hint r.1.frameId
  cases hf : firstSeen (historyRecords (events ++ [e])) r.1.frameId with
  | none => exact absurd rfl (firstSeen_eq_none.mp hf r hmem)
  | some r₀ =>
    simp only [hf] at hid
    obtain ⟨frame, hframe, hmade⟩ := hid
    exact ⟨r₀, frame, rfl, hframe, hmade⟩

/-- The back frame of an interned frame is the interned frame of the caller in the event,
    if the caller ids agree. -/
theorem back_eq_of_agree {m : PMap Int Frame} {r₀ r : FrameData × Option FrameData}
    {frame : Frame} {frames : List Frame} {fds : List FrameData} {i : Nat}
    (hmade : MadeFor m r₀ frame)
    (hframes : frames.map some = fds.map fun f => m f.frameId)
    (hcaller : fds[i + 1]? = r.2)
    (hid : r₀.2.map FrameData.frameId = r.2.map FrameData.frameId) :
    frame.back = frames[i + 1]? := by
  have hback := hmade.2
  cases hc : r.2 with
  | none =>
    rw [hc, Option.map_none, Option.map_eq_none_iff] at hid
    simp only [hid] at hback
    rw [hback, PMap.getElem?_none_of_map_some hframes (hcaller.trans hc)]
  | some c =>
    rw [hc, Option.map_some] at hid
    obtain ⟨c₀, hc₀, hcid⟩ := Option.map_eq_some_iff.mp hid
    simp only [hc₀] at hback
    obtain ⟨b, hb, hbf⟩ := hback
    obtain ⟨b', hb', hmb'⟩ := PMap.getElem?_of_map_some hframes (hcaller.trans hc)
    -- the two callers have one id, and the id map one frame for it
    rw [hcid, hmb'] at hb
    rw [hbf, hb', hb]

/-- Conversely, the back frame tells the caller id. -/
theorem caller_eq_of_back {m : PMap Int Frame}
    {records : List (FrameData × Option FrameData)} (hint : Interned m records)
    {r₀ r : FrameData × Option FrameData}
    {frame : Frame} {frames : List Frame} {fds : List FrameData} {i : Nat}
    (hmade : MadeFor m r₀ frame)
    (hframes : frames.map some = fds.map fun f => m f.frameId)
    (hcaller : fds[i + 1]? = r.2) (hback : frame.back = frames[i + 1]?) :
    r₀.2.map FrameData.frameId = r.2.map FrameData.frameId := by
  have hmback := hmade.2
  cases hc : r.2 with
  | none =>
    rw [PMap.getElem?_none_of_map_some hframes (hcaller.trans hc)] at hback
    cases hc₀ : r₀.2 with
    | none => rfl
    | some c₀ =>
      simp only [hc₀] at hmback
      obtain ⟨b, _, hbf⟩ := hmback
      rw [hback] at hbf
      exact absurd hbf (by simp)
  | some c =>
    obtain ⟨b', hb', hmb'⟩ := PMap.getElem?_of_map_some hframes (hcaller.trans hc)
    rw [hb'] at hback
    cases hc₀ : r₀.2 with
    | none =>
      simp only [hc₀] at hmback
      rw [hmback] at hback
      exact absurd hback (by simp)
    | some c₀ =>
      simp only [hc₀] at hmback
      obtain ⟨b, hb, hbf⟩ := hmback
      rw [hback, Option.some.injEq] at hbf
      subst hbf
      rw [Option.map_some, Option.map_some, ← hint.id_eq hb, ← hint.id_eq hmb']

/-- The records of an event list its frames, in another order. -/
theorem records_perm (e : StackUpdate) : (e.records.map Prod.fst).Perm e.frames := by
  unfold StackUpdate.records StackUpdate.frames
  induction e.content with
  | nil => exact List.Perm.nil
  | cons entry rest ih =>
    simp only [List.flatMap_cons, List.map_append, threadRecords_map_fst]
    exact (List.reverse_perm _).append ih

/-- Frame `i` of a thread is the one made for the first record of its id. -/
theorem threadFrame_made (events : List StackUpdate) (e : StackUpdate) {t : String}
    {fds : List FrameData} (hentry : (t, fds) ∈ e.content) {frames : List Frame}
    (hmap : frames.map some =
      fds.map fun f => (afterEvents (events ++ [e])).frameIdToFrame f.frameId)
    {i : Nat} {f : FrameData} (hf : fds[i]? = some f) :
    ∃ r₀ frame, firstSeen (historyRecords (events ++ [e])) f.frameId = some r₀ ∧
      frames[i]? = some frame ∧
      MadeFor (afterEvents (events ++ [e])).frameIdToFrame r₀ frame := by
  have hmem : (f, fds[i + 1]?) ∈ e.records :=
    List.mem_flatMap.mpr ⟨_, hentry, mem_threadRecords.mpr ⟨i, hf, rfl⟩⟩
  obtain ⟨r₀, frame, hr₀, hframe, hmade⟩ := frame_of_record events e hmem
  -- `frames` lists the objects of the id map
  obtain ⟨x, hx, hmx⟩ := PMap.getElem?_of_map_some hmap hf
  rw [hframe, Option.some.injEq] at hmx
  subst hmx
  exact ⟨r₀, frame, hr₀, hx, hmade⟩

/-- A stack that describes the event tells how its frames were first received. -/
theorem firstSeenAgree_of_describes {events : List StackUpdate} {e : StackUpdate}
    (hd : Describes (afterEvents (events ++ [e])) e) : FirstSeenAgree events e := by
  intro r hr r₀ hr₀
  obtain ⟨⟨t, fds⟩, hentry, hmem⟩ := List.mem_flatMap.mp hr
  obtain ⟨i, hi, hcaller⟩ := mem_threadRecords.mp hmem
  obtain ⟨frames, hframes, hmap⟩ := (afterEvents_eventOk events e).present t fds hentry
  obtain ⟨frames', hframes', _, hdesc⟩ := hd.frames t fds hentry
  rw [hframes, Option.some.injEq] at hframes'
  subst hframes'
  obtain ⟨r₁, frame, hr₁, hx, hmade⟩ := threadFrame_made events e hentry hmap hi
  rw [hr₀, Option.some.injEq] at hr₁
  subst hr₁
  obtain ⟨hview, hback⟩ := hdesc i frame r.1 hx hi
  exact ⟨hmade.1.symm.trans hview,
    caller_eq_of_back (afterEvents_interned (events ++ [e])) hmade hmap hcaller hback⟩

/-- Where the first records agree, the threads are the event's. -/
theorem frames_of_firstSeenAgree {events : List StackUpdate} {e : StackUpdate}
    (hagree : FirstSeenAgree events e) {t : String} {fds : List FrameData}
    (hentry : (t, fds) ∈ e.content) {frames : List Frame}
    (hmap : frames.map some =
      fds.map fun f => (afterEvents (events ++ [e])).frameIdToFrame f.frameId)
    {i : Nat} {frame : Frame} {f : FrameData} (hfr : frames[i]? = some frame)
    (hf : fds[i]? = some f) : frame.view = f.view ∧ frame.back = frames[i + 1]? := by
  have hmem : (f, fds[i + 1]?) ∈ e.records :=
    List.mem_flatMap.mpr ⟨_, hentry, mem_threadRecords.mpr ⟨i, hf, rfl⟩⟩
  obtain ⟨r₀, frame', hr₀, hx, hmade⟩ := threadFrame_made events e hentry hmap hf
  rw [hfr, Option.some.injEq] at hx
  subst hx
  obtain ⟨hview, hcid⟩ := hagree _ hmem r₀ hr₀
  exact ⟨hmade.1.trans hview, back_eq_of_agree hmade hmap rfl hcid⟩

/-- And so are the paths. -/
theorem paths_of_firstSeenAgree {events : List StackUpdate} {e : StackUpdate}
    (hagree : FirstSeenAgree events e) (p : String) :
    ((((afterEvents (events ++ [e])).getForPath p).getD []).map Frame.view).Perm
      ((e.frames.filter fun f => f.localPath = p).map FrameData.view) := by
  have hviews : (((afterEvents (events ++ [e])).getForPath p).getD []).map Frame.view
      = (e.records.filter fun r => r.1.localPath = p).map fun r => r.1.view := by
    -- path by path, the filed frames show the data of the event's own records
    refine PMap.map_eq_map_of_map_some ((afterEvents_eventOk events e).paths p)
      fun r hr frame hframe => ?_
    have hrec : r ∈ e.records := List.mem_of_mem_filter hr
    obtain ⟨r₀, frame', hr₀, hframe', hmade⟩ := frame_of_record events e hrec
    rw [hframe, Option.some.injEq] at hframe'
    subst hframe'
    exact hmade.1.trans (hagree r hrec r₀ hr₀).1
  rw [hviews]
  -- the event lists the same frames, in the order of the stack
  have hperm := ((records_perm e).filter fun f => f.localPath = p).map FrameData.view
  rwa [List.filter_map, List.map_map] at hperm

/-- **The last update.** After any events `events` and then `e`, the stack describes `e`
    exactly when every frame of `e` was first received with the same data and caller id. -/
theorem describes_iff (events : List StackUpdate) (e : StackUpdate) :
    Describes (afterEvents (events ++ [e])) e ↔ FirstSeenAgree events e := by
  have hok := afterEvents_eventOk events e
  refine ⟨firstSeenAgree_of_describes, fun hagree => ⟨?_, ?_, paths_of_firstSeenAgree hagree⟩⟩
  · intro t
    refine ⟨fun hnone hmem => ?_, hok.absent t⟩
    obtain ⟨⟨t', fds⟩, hentry, rfl⟩ := List.mem_map.mp hmem
    obtain ⟨frames, hframes, _⟩ := hok.present t' fds hentry
    rw [hframes] at hnone
    exact absurd hnone (by simp)
  · intro t fds hentry
    obtain ⟨frames, hframes, hmap⟩ := hok.present t fds hentry
    exact ⟨frames, hframes, by simpa using congrArg List.length hmap,
      fun i frame f hfr hf => frames_of_firstSeenAgree hagree hentry hmap hfr hf⟩

/-- One thread with one frame of the given id and local path. -/
def singleFrame (id : Int) (localPath : String) : StackUpdate where
  content := [("0", [⟨id, localPath, "cakeshop.cake", true⟩])]
  threads_nodup := by simp
  ids_nodup := by simp

/-- **Counterexample.** A frame of another file reuses an id: the stack still shows the
    old file. -/
theorem reused_id_shows_old_frame :
    ¬ ∀ (events : List StackUpdate) (e : StackUpdate),
      Describes (afterEvents (events ++ [e])) e := by
  intro h
  obtain ⟨frames, hframes, _, hdesc⟩ :=
    (h [singleFrame 1 "/shop/cake.py"] (singleFrame 1 "/shop/pie.py")).frames "0" _
      (List.mem_singleton_self _)
  have hold : frames = [.mk 1 "/shop/cake.py" "cakeshop.cake" true none] :=
    Option.some.inj (hframes.symm.trans rfl)
  subst hold
  exact absurd (hdesc 0 _ _ rfl rfl).1 (by decide)

end Reloadium.Frames
