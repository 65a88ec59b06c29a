import Mathlib.Data.List.Basic
import Mathlib.Data.List.Nodup
import Reloadium.Lib.Lts

namespace Reloadium.Watchdog

open Lib

/-!
# File watching — pairing the two events of a move

The thread of an `InotifyBuffer` reads inotify events in batches, pairs each `IN_MOVED_TO` with the
`IN_MOVED_FROM` of its cookie, in the batch or in the `DelayedQueue`, and puts what it has grouped
into the queue.  The emitter takes from the queue; an `IN_MOVED_FROM` on its own is held back for a
while, outside the lock.  The two threads interleave at each use of the lock, and the clock goes on
at any time.

* `Buffer.Inv` — where the events are and what the emitter may hold;
* `buffer_run` — **each event is in one place, once**: it waits to be grouped or put, is in the
  queue, or has been handed out; pairs belong together, and a move-from that was handed out alone
  has waited for the delay.
-/

/-! ### Events -/

/-- What the kernel reports. -/
structure RawEvent where
  isMovedFrom : Bool
  isMovedTo : Bool
  isDeleteSelf : Bool
  cookie : Nat
  srcPath : String
deriving DecidableEq

/-- `InotifyEvent`, an object of its own. -/
structure InotifyEvent extends RawEvent where
  address : Nat
deriving DecidableEq

/-- An event, or the tuple of the two events of a move. -/
inductive Element
  | single (event : InotifyEvent)
  | pair (from_event to_event : InotifyEvent)
deriving DecidableEq

namespace Element

def events : Element → List InotifyEvent
  | single event => [event]
  | pair from_event to_event => [from_event, to_event]

/-- `matching_from_event` -/
def matchingFrom (to_event : InotifyEvent) : Element → Option InotifyEvent
  | single event =>
    if event.isMovedFrom ∧ event.cookie = to_event.cookie then some event else none
  | pair _ _ => none

/-- Whether the element is put with a delay. -/
def delayed : Element → Bool
  | single event => event.isMovedFrom
  | pair _ _ => false

/-- Whether the element says that the watched directory is gone. -/
def deletesSelf (path : String) : Element → Bool
  | single event => event.isDeleteSelf && event.srcPath == path
  | pair _ _ => false

end Element

/-! ### The delayed queue -/

/-- An entry of `DelayedQueue`. -/
structure Entry where
  element : Element
  insertTime : Nat
  delay : Bool

/-- `DelayedQueue.remove`: the first element that the event completes to a move, and what is left. -/
def remove (to_event : InotifyEvent) : List Entry → Option (InotifyEvent × List Entry)
  | [] => none
  | entry :: queue =>
    match entry.element.matchingFrom to_event with
    | some from_event => some (from_event, queue)
    | none => (remove to_event queue).map fun (from_event, queue) => (from_event, entry :: queue)

/-- The search in `grouped`: the first element that the event completes becomes a pair. -/
def pairIn (to_event : InotifyEvent) : List Element → Option (List Element)
  | [] => none
  | element :: grouped =>
    match element.matchingFrom to_event with
    | some from_event => some (.pair from_event to_event :: grouped)
    | none => (pairIn to_event grouped).map (element :: ·)

/-! ### The two threads -/

/-- Where `DelayedQueue.get` stands. -/
inductive Reader
  /-- about to look at the head of the queue -/
  | looking
  /-- with the head, outside the lock -/
  | waiting (head : Element) (insertTime : Nat) (delay : Bool)
  /-- about to take the head if it is still there -/
  | taking (head : Element) (insertTime : Nat) (delay : Bool)

/-- Where `InotifyBuffer.run` stands. -/
inductive Writer
  | reading
  | grouping (todo : List InotifyEvent) (grouped : List Element)
  /-- the elements that are left to put; without one it is at the head of its loop -/
  | putting (grouped : List Element)
  | stopped

/-- What was handed out, when it had been put and when it was taken. -/
structure Delivery where
  element : Element
  insertTime : Nat
  time : Nat

structure Buffer where
  now : Nat
  next : Nat
  /-- `_stopped_event` -/
  stopped : Bool
  closed : Bool
  queue : List Entry
  reader : Reader
  writer : Writer
  deletedSelf : Bool
  /-- all events read so far -/
  read : List InotifyEvent
  delivered : List Delivery

inductive BufferAction
  /-- time passes -/
  | tick (seconds : Nat)
  | stop
  /-- `on_thread_stop` closes the queue -/
  | close
  /-- `read_events` returns -/
  | readEvents (events : List RawEvent)
  /-- the next event of the batch is grouped, or all are -/
  | group
  /-- the next element is put, or all are -/
  | put
  | look
  | wake
  | take

/-- New objects for the events of a batch. -/
def allocate (next : Nat) : List RawEvent → List InotifyEvent
  | [] => []
  | event :: events => { event with address := next } :: allocate (next + 1) events

namespace Buffer

def init : Buffer where
  now := 0
  next := 0
  stopped := false
  closed := false
  queue := []
  reader := .looking
  writer := .putting []
  deletedSelf := false
  read := []
  delivered := []

/-- One round of the loop in `_group_events`. -/
def groupEvent (x : Buffer) (event : InotifyEvent) (todo : List InotifyEvent)
    (grouped : List Element) : Buffer :=
  if event.isMovedTo then
    match pairIn event grouped with
    | some grouped => { x with writer := .grouping todo grouped }
    | none =>
      match remove event x.queue with
      | some (from_event, queue) =>
        { x with queue := queue, writer := .grouping todo (grouped ++ [.pair from_event event]) }
      | none => { x with writer := .grouping todo (grouped ++ [.single event]) }
  else { x with writer := .grouping todo (grouped ++ [.single event]) }

def putElement (path : String) (x : Buffer) (element : Element) (grouped : List Element) :
    Buffer :=
  { x with
    queue := x.queue ++
      [{ element := element, insertTime := x.now, delay := element.delayed }]
    writer := .putting grouped
    deletedSelf := x.deletedSelf || element.deletesSelf path }

/-- `delay` is `delay_sec` and `path` the watched directory. -/
def step (delay : Nat) (path : String) (x : Buffer) : BufferAction → Option Buffer
  | .tick seconds => some { x with now := x.now + seconds }
  | .stop => some { x with stopped := true }
  | .close => if x.stopped then some { x with closed := true } else none
  | .readEvents events =>
    match x.writer with
    | .reading =>
      some { x with
        next := x.next + events.length
        writer := .grouping (allocate x.next events) []
        read := x.read ++ allocate x.next events }
    | _ => none
  | .group =>
    match x.writer with
    | .grouping [] grouped => some { x with writer := .putting grouped }
    | .grouping (event :: todo) grouped => some (x.groupEvent event todo grouped)
    | _ => none
  | .put =>
    match x.writer with
    | .putting [] =>
      some { x with writer := if x.stopped || x.deletedSelf then .stopped else .reading }
    | .putting (element :: grouped) => some (x.putElement path element grouped)
    | _ => none
  | .look =>
    match x.reader with
    | .looking =>
      -- a closed queue hands out nothing more, an empty one makes the emitter wait
      if x.closed then none
      else
        match x.queue with
        | [] => none
        | entry :: _ =>
          some { x with reader := .waiting entry.element entry.insertTime entry.delay }
    | _ => none
  | .wake =>
    match x.reader with
    | .waiting head insertTime delayed =>
      if delayed ∧ x.now < insertTime + delay then none
      else some { x with reader := .taking head insertTime delayed }
    | _ => none
  | .take =>
    match x.reader with
    | .taking head _ _ =>
      match x.queue with
      | [] => some { x with reader := .looking }
      | entry :: queue =>
        if entry.element = head then
          some { x with
            queue := queue
            reader := .looking
            delivered := x.delivered ++
              [{ element := entry.element, insertTime := entry.insertTime, time := x.now }] }
        else some { x with reader := .looking }
    | _ => none

/-! ### Where the events are -/

/-- The events of some elements. -/
def eventsOf (elements : List Element) : List InotifyEvent := elements.flatMap Element.events

/-- The elements that the reading thread has grouped and not put. -/
def grouped (x : Buffer) : List Element :=
  match x.writer with
  | .grouping _ grouped => grouped
  | .putting grouped => grouped
  | _ => []

/-- The events that it has read and not grouped. -/
def todo (x : Buffer) : List InotifyEvent :=
  match x.writer with
  | .grouping todo _ => todo
  | _ => []

def queued (x : Buffer) : List Element := x.queue.map Entry.element

def handedOut (x : Buffer) : List Element := x.delivered.map Delivery.element

/-- The elements, wherever they are. -/
def elements (x : Buffer) : List Element := x.handedOut ++ x.queued ++ x.grouped

/-- The events, wherever they are. -/
def places (x : Buffer) : List InotifyEvent := eventsOf x.elements ++ x.todo

end Buffer

/-- The two events of a pair belong together. -/
def Element.Matched : Element → Prop
  | single _ => True
  | pair from_event to_event =>
    from_event.isMovedFrom = true ∧ to_event.isMovedTo = true ∧ from_event.cookie = to_event.cookie

/-- What the emitter holds is where it was, or gone for good. -/
structure Holds (x : Buffer) (event : InotifyEvent) (insertTime : Nat) : Prop where
  same : ∀ entry ∈ x.queue, entry.element = .single event → entry.insertTime = insertTime
  notGrouped : .single event ∉ x.grouped
  notTodo : event ∉ x.todo
  old : event ∈ x.read

/-- The emitter waits for an element with a delay, and takes it after the delay. -/
def ReaderOk (delay : Nat) (x : Buffer) : Reader → Prop
  | .looking => True
  | .waiting head insertTime delayed =>
    delayed = head.delayed ∧
      ∀ event, head = .single event → event.isMovedFrom = true → Holds x event insertTime
  | .taking head insertTime delayed =>
    delayed = head.delayed ∧
      ∀ event, head = .single event → event.isMovedFrom = true →
        Holds x event insertTime ∧ insertTime + delay ≤ x.now

/-- Where the events are and what the emitter may hold. -/
structure Buffer.Inv (delay : Nat) (x : Buffer) : Prop where
  conserved : ∀ event, x.places.count event = x.read.count event
  nodup : x.read.Nodup
  fresh : ∀ event ∈ x.read, event.address < x.next
  sorted : x.todo.Pairwise (·.address < ·.address)
  ordered : ∀ event ∈ eventsOf x.elements, ∀ later ∈ x.todo, event.address < later.address
  /-- a move-to on its own has left no move-from behind -/
  torn : ∀ to_event, .single to_event ∈ x.elements → to_event.isMovedTo = true →
    ∀ from_event, .single from_event ∈ x.queued ++ x.grouped → from_event.isMovedFrom = true →
      from_event.cookie = to_event.cookie → to_event.address ≤ from_event.address
  entries : ∀ entry ∈ x.queue, entry.delay = entry.element.delayed
  matched : ∀ element ∈ x.elements, element.Matched
  reader : ReaderOk delay x x.reader
  waited : ∀ delivery ∈ x.delivered, delivery.element.delayed = true →
    delivery.insertTime + delay ≤ delivery.time

/-! ### Pairing -/

variable {to_event from_event event : InotifyEvent} {queue queue' : List Entry}
  {grouped grouped' : List Element} {element : Element}

theorem matchingFrom_eq_some (h : element.matchingFrom to_event = some from_event) :
    element = .single from_event ∧ from_event.isMovedFrom = true ∧
      from_event.cookie = to_event.cookie := by
  cases element with
  | single event =>
    rw [Element.matchingFrom] at h
    split at h
    case isTrue hmatch =>
      obtain rfl := Option.some.inj h
      exact ⟨rfl, hmatch⟩
    case isFalse => exact nomatch h
  | pair _ _ => exact nomatch h

/-- What `remove` takes out of the queue. -/
theorem remove_eq_some (h : remove to_event queue = some (from_event, queue')) :
    queue'.Sublist queue ∧ from_event.isMovedFrom = true ∧ from_event.cookie = to_event.cookie ∧
      ∀ event, (Buffer.eventsOf (queue.map Entry.element)).count event =
        (Buffer.eventsOf (queue'.map Entry.element)).count event + [from_event].count event := by
  induction queue generalizing queue' with
  | nil => exact nomatch h
  | cons entry queue ih =>
    rw [remove] at h
    split at h
    case h_1 f hmatch =>
      obtain ⟨rfl, rfl⟩ := Prod.mk.inj (Option.some.inj h)
      obtain ⟨hsingle, hfrom, hcookie⟩ := matchingFrom_eq_some hmatch
      refine ⟨List.sublist_cons_self _ _, hfrom, hcookie, fun event => ?_⟩
      rw [List.map_cons, hsingle, Buffer.eventsOf, List.flatMap_cons, List.count_append,
        Nat.add_comm]
      rfl
    case h_2 =>
      obtain ⟨⟨f, rest⟩, hrest, heq⟩ := Option.map_eq_some_iff.mp h
      obtain ⟨rfl, rfl⟩ := Prod.mk.inj heq
      obtain ⟨hsub, hfrom, hcookie, hcount⟩ := ih hrest
      refine ⟨hsub.cons_cons entry, hfrom, hcookie, fun event => ?_⟩
      have hevent := hcount event
      rw [Buffer.eventsOf, Buffer.eventsOf] at hevent
      rw [Buffer.eventsOf, Buffer.eventsOf, List.map_cons, List.map_cons, List.flatMap_cons,
        List.flatMap_cons, List.count_append, List.count_append, hevent, Nat.add_assoc]

/-- What pairing does to the elements grouped so far. -/
theorem pairIn_eq_some (hto : to_event.isMovedTo = true)
    (h : pairIn to_event grouped = some grouped') :
    (∀ event, (Buffer.eventsOf grouped').count event =
        (Buffer.eventsOf grouped).count event + [to_event].count event) ∧
      ∀ element ∈ grouped', element ∈ grouped ∨
        ∃ from_event, element = .pair from_event to_event ∧ element.Matched := by
  induction grouped generalizing grouped' with
  | nil => exact nomatch h
  | cons element grouped ih =>
    rw [pairIn] at h
    split at h
    case h_1 f hmatch =>
      obtain rfl := Option.some.inj h
      obtain ⟨hsingle, hfrom, hcookie⟩ := matchingFrom_eq_some hmatch
      refine ⟨fun event => ?_, fun element' hmem => ?_⟩
      · rw [Buffer.eventsOf, Buffer.eventsOf, List.flatMap_cons, List.flatMap_cons, hsingle,
          List.count_append, List.count_append]
        show [f, to_event].count event + _ = [f].count event + _ + _
        rw [List.count_cons, List.count_singleton, List.count_singleton]
        omega
      · rcases List.mem_cons.mp hmem with rfl | hmem
        · exact Or.inr ⟨f, rfl, hfrom, hto, hcookie⟩
        · exact Or.inl (List.mem_cons_of_mem _ hmem)
    case h_2 =>
      obtain ⟨rest, hrest, rfl⟩ := Option.map_eq_some_iff.mp h
      obtain ⟨hcount, hmem⟩ := ih hrest
      refine ⟨fun event => ?_, fun element' h' => ?_⟩
      · have hevent := hcount event
        rw [Buffer.eventsOf, Buffer.eventsOf] at hevent
        rw [Buffer.eventsOf, Buffer.eventsOf, List.flatMap_cons, List.flatMap_cons,
          List.count_append, List.count_append, hevent, Nat.add_assoc]
      · rcases List.mem_cons.mp h' with rfl | h'
        · exact Or.inl List.mem_cons_self
        · exact (hmem element' h').imp_left (List.mem_cons_of_mem _)

theorem matchingFrom_single (hfrom : from_event.isMovedFrom = true)
    (hcookie : from_event.cookie = to_event.cookie) :
    (Element.single from_event).matchingFrom to_event = some from_event :=
  if_pos ⟨hfrom, hcookie⟩

/-- Nothing in the queue completes to a move. -/
theorem cookie_ne_of_remove (h : remove to_event queue = none)
    (hmem : .single from_event ∈ queue.map Entry.element) (hfrom : from_event.isMovedFrom = true) :
    from_event.cookie ≠ to_event.cookie := by
  intro hcookie
  induction queue with
  | nil => exact absurd hmem List.not_mem_nil
  | cons entry queue ih =>
    rw [remove] at h
    split at h
    case h_1 => exact nomatch h
    case h_2 hmatch =>
      rw [List.map_cons] at hmem
      rcases List.mem_cons.mp hmem with hhead | hmem
      · rw [← hhead, matchingFrom_single hfrom hcookie] at hmatch
        exact nomatch hmatch
      · exact ih (Option.map_eq_none_iff.mp h) hmem

/-- Nothing grouped so far completes to a move. -/
theorem cookie_ne_of_pairIn (h : pairIn to_event grouped = none)
    (hmem : .single from_event ∈ grouped) (hfrom : from_event.isMovedFrom = true) :
    from_event.cookie ≠ to_event.cookie := by
  intro hcookie
  induction grouped with
  | nil => exact absurd hmem List.not_mem_nil
  | cons element grouped ih =>
    rw [pairIn] at h
    split at h
    case h_1 => exact nomatch h
    case h_2 hmatch =>
      rcases List.mem_cons.mp hmem with hhead | hmem
      · rw [← hhead, matchingFrom_single hfrom hcookie] at hmatch
        exact nomatch hmatch
      · exact ih (Option.map_eq_none_iff.mp h) hmem

/-! ### The steps -/

variable {delay : Nat} {path : String} {x y : Buffer} {todo : List InotifyEvent}

theorem mem_allocate {next : Nat} {events : List RawEvent} (h : event ∈ allocate next events) :
    next ≤ event.address ∧ event.address < next + events.length := by
  induction events generalizing next with
  | nil => exact absurd h List.not_mem_nil
  | cons raw events ih =>
    rw [List.length_cons]
    rcases List.mem_cons.mp h with rfl | h
    · exact ⟨Nat.le_refl _, by show next < _; omega⟩
    · have hrest := ih h
      omega

theorem sorted_allocate (next : Nat) (events : List RawEvent) :
    (allocate next events).Pairwise (·.address < ·.address) := by
  induction events generalizing next with
  | nil => exact List.Pairwise.nil
  | cons raw events ih =>
    exact List.pairwise_cons.mpr ⟨fun event h => (mem_allocate h).1, ih (next + 1)⟩

theorem nodup_of_sorted {events : List InotifyEvent}
    (h : events.Pairwise (·.address < ·.address)) : events.Nodup := by
  apply List.Pairwise.imp _ h
  rintro a b hlt rfl
  exact Nat.lt_irrefl _ hlt

namespace Buffer

theorem count_eventsOf_append (xs ys : List Element) (event : InotifyEvent) :
    (eventsOf (xs ++ ys)).count event = (eventsOf xs).count event + (eventsOf ys).count event := by
  rw [eventsOf, List.flatMap_append, List.count_append]
  rfl

theorem mem_eventsOf_single {elements : List Element} (h : .single event ∈ elements) :
    event ∈ eventsOf elements :=
  List.mem_flatMap.mpr ⟨.single event, h, List.mem_cons_self⟩

/-- An event is counted where it is. -/
theorem count_places (x : Buffer) (event : InotifyEvent) :
    x.places.count event =
      (eventsOf x.handedOut).count event + (eventsOf x.queued).count event +
        (eventsOf x.grouped).count event + x.todo.count event := by
  rw [places, elements, List.count_append, count_eventsOf_append, count_eventsOf_append]

theorem mem_elements_of_queued (h : element ∈ x.queued) : element ∈ x.elements :=
  List.mem_append_left _ (List.mem_append_right _ h)

theorem mem_elements_of_grouped (h : element ∈ x.grouped) : element ∈ x.elements :=
  List.mem_append_right _ h

theorem mem_read (hx : x.Inv delay) : event ∈ x.places ↔ event ∈ x.read := by
  rw [← List.count_pos_iff, ← List.count_pos_iff, hx.conserved]

/-- No event is in two places. -/
theorem count_le_one (hx : x.Inv delay) (event : InotifyEvent) : x.places.count event ≤ 1 := by
  rw [hx.conserved]
  exact List.nodup_iff_count_le_one.mp hx.nodup event

theorem inv_init : (init : Buffer).Inv delay where
  conserved := fun _ => rfl
  nodup := List.nodup_nil
  fresh := fun _ h => absurd h List.not_mem_nil
  sorted := List.Pairwise.nil
  ordered := fun _ h => absurd h List.not_mem_nil
  torn := fun _ h => absurd h List.not_mem_nil
  entries := fun _ h => absurd h List.not_mem_nil
  matched := fun _ h => absurd h List.not_mem_nil
  reader := trivial
  waited := fun _ h => absurd h List.not_mem_nil

theorem readerOk_of_holds {reader : Reader} (hr : ReaderOk delay x reader) (hnow : x.now ≤ y.now)
    (hholds : ∀ event insertTime, event.isMovedFrom = true → Holds x event insertTime →
      Holds y event insertTime) : ReaderOk delay y reader := by
  cases reader with
  | looking => trivial
  | waiting head insertTime delayed =>
    exact ⟨hr.1, fun event hhead hfrom => hholds event insertTime hfrom (hr.2 event hhead hfrom)⟩
  | taking head insertTime delayed =>
    refine ⟨hr.1, fun event hhead hfrom => ?_⟩
    obtain ⟨hheld, htime⟩ := hr.2 event hhead hfrom
    exact ⟨hholds event insertTime hfrom hheld, Nat.le_trans htime hnow⟩

/-- The clock and the flags do not matter. -/
theorem inv_flags (hx : x.Inv delay) (seconds : Nat) (stopped closed : Bool) :
    Inv delay { x with now := x.now + seconds, stopped := stopped, closed := closed } :=
  { hx with
    reader := readerOk_of_holds hx.reader (Nat.le_add_right _ _)
      fun _ _ _ h => ⟨h.same, h.notGrouped, h.notTodo, h.old⟩ }

/-! ### The reading thread -/

theorem grouped_of_writer {writer : Writer} (h : x.writer = writer) :
    x.grouped = ({ x with writer := writer } : Buffer).grouped := by
  subst h
  rfl

theorem todo_of_writer {writer : Writer} (h : x.writer = writer) :
    x.todo = ({ x with writer := writer } : Buffer).todo := by
  subst h
  rfl

/-- A thread that holds nothing may do something else that holds nothing. -/
theorem inv_writer (hx : x.Inv delay) {writer : Writer}
    (hgrouped : x.grouped = ({ x with writer := writer } : Buffer).grouped)
    (htodo : x.todo = ({ x with writer := writer } : Buffer).todo) :
    Inv delay { x with writer := writer } := by
  have helements : ({ x with writer := writer } : Buffer).elements = x.elements := by
    rw [elements, elements, ← hgrouped]
    rfl
  have hplaces : ({ x with writer := writer } : Buffer).places = x.places := by
    rw [places, places, helements, ← htodo]
  refine ⟨?_, hx.nodup, hx.fresh, ?_, ?_, ?_, hx.entries, ?_, ?_, hx.waited⟩
  · intro event
    rw [hplaces]
    exact hx.conserved event
  · rw [← htodo]
    exact hx.sorted
  · rw [helements, ← htodo]
    exact hx.ordered
  · rw [helements, ← hgrouped]
    exact hx.torn
  · rw [helements]
    exact hx.matched
  · refine readerOk_of_holds hx.reader (Nat.le_refl _) ?_
    intro event insertTime hfrom h
    exact ⟨h.same, hgrouped ▸ h.notGrouped, htodo ▸ h.notTodo, h.old⟩

/-- A batch of new events. -/
theorem inv_readEvents (hx : x.Inv delay) (hwriter : x.writer = .reading)
    (events : List RawEvent) :
    Inv delay { x with
      next := x.next + events.length
      writer := .grouping (allocate x.next events) []
      read := x.read ++ allocate x.next events } := by
  have hgrouped : x.grouped = [] := grouped_of_writer hwriter
  have htodo : x.todo = [] := todo_of_writer hwriter
  have helements : x.elements = x.handedOut ++ x.queued ++ [] := by rw [elements, hgrouped]
  refine ⟨?_, ?_, ?_, sorted_allocate _ _, ?_, ?_, hx.entries, ?_, ?_, hx.waited⟩
  · intro event
    have hevent := hx.conserved event
    rw [count_places, hgrouped, htodo] at hevent
    rw [count_places, List.count_append, ← hevent]
    rfl
  · refine List.nodup_append.mpr ⟨hx.nodup, nodup_of_sorted (sorted_allocate _ _), ?_⟩
    rintro a ha b hb rfl
    exact absurd (hx.fresh a ha) (Nat.not_lt.mpr (mem_allocate hb).1)
  · intro event h
    rcases List.mem_append.mp h with h | h
    · exact Nat.lt_add_right _ (hx.fresh event h)
    · exact (mem_allocate h).2
  · intro event h later hlater
    have hold : event ∈ x.read := by
      apply (mem_read hx).mp
      rw [places, helements]
      exact List.mem_append_left _ h
    exact Nat.lt_of_lt_of_le (hx.fresh event hold) (mem_allocate hlater).1
  · have htorn := hx.torn
    rw [helements, hgrouped] at htorn
    exact htorn
  · have hmatched := hx.matched
    rw [helements] at hmatched
    exact hmatched
  · refine readerOk_of_holds hx.reader (Nat.le_refl _) ?_
    intro event insertTime hfrom h
    refine ⟨h.same, List.not_mem_nil, fun hnew => ?_, List.mem_append_left _ h.old⟩
    exact absurd (hx.fresh event h.old) (Nat.not_lt.mpr (mem_allocate hnew).1)

/-- An event of the batch is grouped: what is new is the event, on its own or in a pair. -/
theorem inv_regroup (hx : x.Inv delay) (hwriter : x.writer = .grouping (event :: todo) grouped)
    (hsub : queue'.Sublist x.queue)
    (hcount : ∀ e, (eventsOf (queue'.map Entry.element)).count e + (eventsOf grouped').count e =
      (eventsOf x.queued).count e + (eventsOf grouped).count e + [event].count e)
    (hnew : ∀ element ∈ grouped', element ∈ grouped ∨ (element.Matched ∧
      ∀ e, element = .single e → e = event ∧
        (event.isMovedTo = true → ∀ from_event, .single from_event ∈ x.queued ++ grouped →
          from_event.isMovedFrom = true → from_event.cookie ≠ event.cookie))) :
    Inv delay { x with queue := queue', writer := .grouping todo grouped' } := by
  have hgrouped : x.grouped = grouped := grouped_of_writer hwriter
  have htodo : x.todo = event :: todo := todo_of_writer hwriter
  have hsorted := hx.sorted
  rw [htodo] at hsorted
  obtain ⟨hlater, hsorted⟩ := List.pairwise_cons.mp hsorted
  have hconserved : ∀ e, ({ x with queue := queue', writer := .grouping todo grouped' } :
      Buffer).places.count e = x.read.count e := by
    intro e
    have hevent := hx.conserved e
    rw [count_places, hgrouped, htodo, List.count_cons] at hevent
    rw [count_places]
    have hc := hcount e
    rw [List.count_singleton] at hc
    show (eventsOf x.handedOut).count e + (eventsOf (queue'.map Entry.element)).count e +
      (eventsOf grouped').count e + todo.count e = _
    omega
  -- an element waits already, or is put together from the event
  have hold : ∀ element, element ∈ queue'.map Entry.element ++ grouped' →
      element ∈ x.queued ++ x.grouped ∨ element ∈ grouped' ∧ element ∉ grouped := by
    intro element h
    rw [hgrouped]
    rcases List.mem_append.mp h with h | h
    · exact Or.inl (List.mem_append_left _ ((hsub.map Entry.element).subset h))
    · by_cases hmem : element ∈ grouped
      · exact Or.inl (List.mem_append_right _ hmem)
      · exact Or.inr ⟨h, hmem⟩
  have helements : ∀ element,
      element ∈ x.handedOut ++ queue'.map Entry.element ++ grouped' →
        element ∈ x.elements ∨ element ∈ grouped' ∧ element ∉ grouped := by
    intro element h
    rw [List.append_assoc] at h
    rw [elements, List.append_assoc]
    rcases List.mem_append.mp h with h | h
    · exact Or.inl (List.mem_append_left _ h)
    · exact (hold element h).imp_left (List.mem_append_right _)
  refine ⟨hconserved, hx.nodup, hx.fresh, hsorted, ?_, ?_, ?_, ?_, ?_, hx.waited⟩
  · intro e h later hmem
    have hcounts : (eventsOf (x.handedOut ++ queue'.map Entry.element ++ grouped')).count e =
        (eventsOf x.elements).count e + [event].count e := by
      have hc := hcount e
      rw [elements, count_eventsOf_append, count_eventsOf_append, count_eventsOf_append,
        count_eventsOf_append, hgrouped]
      omega
    have hpos := List.count_pos_iff.mpr h
    by_cases he : e = event
    · exact he ▸ hlater later hmem
    · have hzero : [event].count e = 0 := List.count_eq_zero_of_not_mem
        (fun h => he (List.mem_singleton.mp h))
      apply hx.ordered e _ later (by rw [htodo]; exact List.mem_cons_of_mem _ hmem)
      apply List.count_pos_iff.mp
      rw [hzero, Nat.add_zero] at hcounts
      exact hcounts ▸ hpos
  · intro to_event hto hmoved from_event hfrom hmovedFrom hcookie
    rcases helements _ hto with hto | ⟨hto, hto'⟩
    · rcases hold _ hfrom with hfrom | ⟨hfrom, hfrom'⟩
      · exact hx.torn to_event hto hmoved from_event hfrom hmovedFrom hcookie
      · obtain ⟨rfl, -⟩ := ((hnew _ hfrom).resolve_left hfrom').2 from_event rfl
        have hhead : from_event ∈ x.todo := by rw [htodo]; exact List.mem_cons_self
        exact Nat.le_of_lt (hx.ordered to_event (mem_eventsOf_single hto) from_event hhead)
    · obtain ⟨rfl, hnone⟩ := ((hnew _ hto).resolve_left hto').2 to_event rfl
      rcases hold _ hfrom with hfrom | ⟨hfrom, hfrom'⟩
      · rw [hgrouped] at hfrom
        exact absurd hcookie (hnone hmoved from_event hfrom hmovedFrom)
      · obtain ⟨rfl, -⟩ := ((hnew _ hfrom).resolve_left hfrom').2 from_event rfl
        exact Nat.le_refl _
  · exact fun entry h => hx.entries entry (hsub.subset h)
  · intro element h
    rcases helements element h with h | ⟨h, h'⟩
    · exact hx.matched element h
    · exact ((hnew element h).resolve_left h').1
  · refine readerOk_of_holds hx.reader (Nat.le_refl _) ?_
    intro held insertTime hfrom h
    refine ⟨fun entry hentry => h.same entry (hsub.subset hentry), fun hmem => ?_, ?_, h.old⟩
    · rcases hnew _ hmem with hmem | ⟨-, hsingle⟩
      · exact h.notGrouped (hgrouped ▸ hmem)
      · have heq := (hsingle held rfl).1
        exact h.notTodo (by rw [htodo, heq]; exact List.mem_cons_self)
    · intro hmem
      exact h.notTodo (by rw [htodo]; exact List.mem_cons_of_mem _ hmem)

theorem count_queued_append_single (grouped : List Element) (event e : InotifyEvent) :
    (eventsOf (grouped ++ [.single event])).count e =
      (eventsOf grouped).count e + [event].count e := by
  rw [count_eventsOf_append]
  rfl

theorem inv_group (hx : x.Inv delay)
    (hwriter : x.writer = .grouping (event :: todo) grouped) :
    (x.groupEvent event todo grouped).Inv delay := by
  -- the event is put at the end of the batch, where no move-from is left for it
  have hsingle (hnone : event.isMovedTo = true → ∀ from_event,
      .single from_event ∈ x.queued ++ grouped → from_event.isMovedFrom = true →
        from_event.cookie ≠ event.cookie) :
      Inv delay { x with writer := .grouping todo (grouped ++ [.single event]) } := by
    refine @inv_regroup _ x.queue _ (grouped ++ [.single event]) _ _ _ hx hwriter
      (List.Sublist.refl _) (fun e => ?_) (fun element h => ?_)
    · rw [count_queued_append_single, ← Nat.add_assoc]
      rfl
    · rcases List.mem_append.mp h with h | h
      · exact Or.inl h
      · obtain rfl := List.mem_singleton.mp h
        refine Or.inr ⟨trivial, fun e he => ?_⟩
        obtain rfl := Element.single.inj he
        exact ⟨rfl, hnone⟩
  rw [groupEvent]
  split
  case isFalse hto => exact hsingle fun h => absurd h hto
  case isTrue hto =>
    split
    case h_1 paired hpair =>
      obtain ⟨hcount, hmem⟩ := pairIn_eq_some hto hpair
      refine @inv_regroup _ x.queue _ paired _ _ _ hx hwriter (List.Sublist.refl _)
        (fun e => ?_) (fun element h => ?_)
      · rw [hcount e, ← Nat.add_assoc]
        rfl
      · rcases hmem element h with h | ⟨from_event, rfl, hmatched⟩
        · exact Or.inl h
        · exact Or.inr ⟨hmatched, fun e he => nomatch he⟩
    case h_2 hpair =>
      split
      case h_1 from_event queue hremove =>
        obtain ⟨hsub, hfrom, hcookie, hcount⟩ := remove_eq_some hremove
        refine inv_regroup hx hwriter hsub (fun e => ?_) (fun element h => ?_)
        · have hqueued := hcount e
          rw [count_eventsOf_append, queued, hqueued]
          show _ + (_ + [from_event, event].count e) = _
          rw [List.count_cons, List.count_singleton, List.count_singleton]
          omega
        · rcases List.mem_append.mp h with h | h
          · exact Or.inl h
          · obtain rfl := List.mem_singleton.mp h
            exact Or.inr ⟨⟨hfrom, hto, hcookie⟩, fun e he => nomatch he⟩
      case h_2 hremove =>
        refine hsingle fun _ from_event h hfrom => ?_
        rcases List.mem_append.mp h with h | h
        · exact cookie_ne_of_remove hremove h hfrom
        · exact cookie_ne_of_pairIn hpair h hfrom

/-- An element goes from the batch into the queue. -/
theorem inv_put (hx : x.Inv delay) (hwriter : x.writer = .putting (element :: grouped)) :
    (x.putElement path element grouped).Inv delay := by
  have hgrouped : x.grouped = element :: grouped := grouped_of_writer hwriter
  have htodo : x.todo = [] := todo_of_writer hwriter
  have hwaiting : (x.putElement path element grouped).queued ++ grouped = x.queued ++ x.grouped := by
    rw [hgrouped, List.append_cons, queued, queued, putElement, List.map_append]
    rfl
  have helements : (x.putElement path element grouped).elements = x.elements := by
    rw [elements, elements, List.append_assoc, List.append_assoc, ← hwaiting]
    rfl
  have hplaces : (x.putElement path element grouped).places = x.places := by
    rw [places, places, helements, htodo]
    rfl
  refine ⟨?_, hx.nodup, hx.fresh, List.Pairwise.nil, fun _ _ _ h => absurd h List.not_mem_nil,
    ?_, ?_, ?_, ?_, hx.waited⟩
  · intro e
    rw [hplaces]
    exact hx.conserved e
  · rw [helements]
    have htorn := hx.torn
    rw [← hwaiting] at htorn
    exact htorn
  · intro entry h
    rcases List.mem_append.mp h with h | h
    · exact hx.entries entry h
    · obtain rfl := List.mem_singleton.mp h
      rfl
  · rw [helements]
    exact hx.matched
  · refine readerOk_of_holds hx.reader (Nat.le_refl _) ?_
    intro held insertTime hfrom h
    refine ⟨fun entry hmem hentry => ?_, fun hmem => ?_, List.not_mem_nil, h.old⟩
    · rcases List.mem_append.mp hmem with hmem | hmem
      · exact h.same entry hmem hentry
      · -- the element comes from the batch, and the one that is held does not
        obtain rfl := List.mem_singleton.mp hmem
        have hhead : .single held ∈ x.grouped := by
          rw [hgrouped, ← hentry]
          exact List.mem_cons_self
        exact absurd hhead h.notGrouped
    · apply h.notGrouped
      rw [hgrouped]
      exact List.mem_cons_of_mem _ hmem

/-! ### The emitter -/

/-- The emitter remembers the head of the queue. -/
theorem inv_look (hx : x.Inv delay) {entry : Entry} (hqueue : x.queue = entry :: queue) :
    Inv delay { x with reader := .waiting entry.element entry.insertTime entry.delay } := by
  have hmem : entry ∈ x.queue := by rw [hqueue]; exact List.mem_cons_self
  refine { hx with reader := ⟨hx.entries entry hmem, fun event hhead _ => ?_⟩ }
  have hqueued : x.queued = .single event :: queue.map Entry.element := by
    rw [queued, hqueue, List.map_cons, hhead]
  -- the event is at the head of the queue and so nowhere else
  have hcount := count_le_one hx event
  have hcons : (eventsOf (.single event :: queue.map Entry.element)).count event =
      (eventsOf (queue.map Entry.element)).count event + 1 := List.count_cons_self
  rw [count_places, hqueued, hcons] at hcount
  have hrest : (eventsOf (queue.map Entry.element)).count event = 0 := by omega
  have hgroup : (eventsOf x.grouped).count event = 0 := by omega
  have htodo : x.todo.count event = 0 := by omega
  refine ⟨fun entry' hmem' hentry' => ?_, fun h => ?_, ?_, ?_⟩
  · rw [show x.queue = entry :: queue from hqueue] at hmem'
    rcases List.mem_cons.mp hmem' with rfl | hmem'
    · rfl
    · have hsingle : .single event ∈ queue.map Entry.element :=
        List.mem_map.mpr ⟨entry', hmem', hentry'⟩
      exact absurd (mem_eventsOf_single hsingle) (List.count_eq_zero.mp hrest)
  · exact absurd (mem_eventsOf_single h) (List.count_eq_zero.mp hgroup)
  · exact List.count_eq_zero.mp htodo
  · apply (mem_read hx).mp
    apply List.mem_append_left
    apply mem_eventsOf_single
    apply mem_elements_of_queued
    rw [hqueued]
    exact List.mem_cons_self

/-- It stops waiting. -/
theorem inv_wake (hx : x.Inv delay) {head : Element} {insertTime : Nat} {delayed : Bool}
    (hreader : x.reader = .waiting head insertTime delayed)
    (hwait : ¬(delayed = true ∧ x.now < insertTime + delay)) :
    Inv delay { x with reader := .taking head insertTime delayed } := by
  have hr := hx.reader
  rw [hreader] at hr
  obtain ⟨hdelayed, hheld⟩ := hr
  refine { hx with reader := ⟨hdelayed, fun event hhead hfrom => ?_⟩ }
  obtain ⟨hsame, hgrouped, htodo, hold⟩ := hheld event hhead hfrom
  have htrue : delayed = true := by rw [hdelayed, hhead]; exact hfrom
  exact ⟨⟨hsame, hgrouped, htodo, hold⟩, Nat.le_of_not_lt fun hlt => hwait ⟨htrue, hlt⟩⟩

/-- It takes the head, if that is the one it remembers. -/
theorem inv_take (hx : x.Inv delay) {head : Element} {insertTime : Nat} {delayed : Bool}
    (hreader : x.reader = .taking head insertTime delayed) {entry : Entry}
    (hqueue : x.queue = entry :: queue) (hhead : entry.element = head) :
    Inv delay { x with
      queue := queue
      reader := .looking
      delivered := x.delivered ++
        [{ element := entry.element, insertTime := entry.insertTime, time := x.now }] } := by
  have hmem : entry ∈ x.queue := by rw [hqueue]; exact List.mem_cons_self
  have helements : x.handedOut ++ [entry.element] ++ queue.map Entry.element ++ x.grouped =
      x.elements := by
    rw [elements, queued, hqueue, List.map_cons, ← List.append_cons]
  have hnew : x.handedOut ++ [entry.element] =
      (x.delivered ++ [Delivery.mk entry.element entry.insertTime x.now]).map
        Delivery.element := by
    rw [handedOut, List.map_append]
    rfl
  rw [hnew] at helements
  refine ⟨fun e => ?_, hx.nodup, hx.fresh, hx.sorted, ?_, ?_, ?_, ?_, trivial, ?_⟩
  · show (eventsOf (_ ++ queue.map Entry.element ++ x.grouped) ++ x.todo).count e = _
    rw [handedOut, helements]
    exact hx.conserved e
  · show ∀ event ∈ eventsOf (_ ++ queue.map Entry.element ++ x.grouped), _
    rw [handedOut, helements]
    exact hx.ordered
  · show ∀ to_event, .single to_event ∈ _ ++ queue.map Entry.element ++ x.grouped → _
    rw [handedOut, helements]
    intro to_event hto hmoved from_event hfrom
    apply hx.torn to_event hto hmoved from_event
    rw [queued, hqueue]
    exact List.mem_cons_of_mem _ hfrom
  · intro entry' h
    apply hx.entries
    rw [hqueue]
    exact List.mem_cons_of_mem _ h
  · show ∀ element ∈ _ ++ queue.map Entry.element ++ x.grouped, _
    rw [handedOut, helements]
    exact hx.matched
  · intro delivery h hdelayed
    rcases List.mem_append.mp h with h | h
    · exact hx.waited delivery h hdelayed
    · obtain rfl := List.mem_singleton.mp h
      have hr := hx.reader
      rw [hreader, ← hhead] at hr
      -- only a move-from on its own is put with a delay
      cases hentry : entry.element with
      | pair from_event to_event =>
        rw [show entry.element.delayed = false by rw [hentry]; rfl] at hdelayed
        exact nomatch hdelayed
      | single event =>
        have hfrom : event.isMovedFrom = true := by
          have hfrom : entry.element.delayed = true := hdelayed
          rw [hentry] at hfrom
          exact hfrom
        obtain ⟨hheld, htime⟩ := hr.2 event hentry hfrom
        show entry.insertTime + delay ≤ x.now
        rw [hheld.same entry hmem hentry]
        exact htime

theorem inv_step (x : Buffer) (a : BufferAction) (y : Buffer) (hx : x.Inv delay)
    (h : x.step delay path a = some y) : y.Inv delay := by
  cases a with
  | tick seconds =>
    obtain rfl := Option.some.inj h
    exact inv_flags hx seconds x.stopped x.closed
  | stop =>
    obtain rfl := Option.some.inj h
    exact inv_flags hx 0 true x.closed
  | close =>
    rw [step] at h
    split at h
    · obtain rfl := Option.some.inj h
      exact inv_flags hx 0 x.stopped true
    · exact nomatch h
  | readEvents events =>
    rw [step] at h
    split at h
    case h_1 hwriter =>
      obtain rfl := Option.some.inj h
      exact inv_readEvents hx hwriter events
    case h_2 => exact nomatch h
  | group =>
    rw [step] at h
    split at h
    case h_1 grouped hwriter =>
      obtain rfl := Option.some.inj h
      have hgrouped : x.grouped = grouped := grouped_of_writer hwriter
      have htodo : x.todo = [] := todo_of_writer hwriter
      exact inv_writer hx hgrouped htodo
    case h_2 event todo grouped hwriter =>
      obtain rfl := Option.some.inj h
      exact inv_group hx hwriter
    case h_3 => exact nomatch h
  | put =>
    rw [step] at h
    split at h
    case h_1 hwriter =>
      obtain rfl := Option.some.inj h
      apply inv_writer hx
      · rw [grouped_of_writer hwriter, grouped, grouped]
        cases x.stopped || x.deletedSelf <;> rfl
      · rw [todo_of_writer hwriter, todo, todo]
        cases x.stopped || x.deletedSelf <;> rfl
    case h_2 element grouped hwriter =>
      obtain rfl := Option.some.inj h
      exact inv_put hx hwriter
    case h_3 => exact nomatch h
  | look =>
    rw [step] at h
    split at h
    case h_2 => exact nomatch h
    case h_1 hreader =>
      split at h
      · exact nomatch h
      · split at h
        case h_1 => exact nomatch h
        case h_2 entry queue hqueue =>
          obtain rfl := Option.some.inj h
          exact inv_look hx hqueue
  | wake =>
    rw [step] at h
    split at h
    case h_2 => exact nomatch h
    case h_1 head insertTime delayed hreader =>
      split at h
      case isTrue => exact nomatch h
      case isFalse hwait =>
        obtain rfl := Option.some.inj h
        exact inv_wake hx hreader hwait
  | take =>
    rw [step] at h
    split at h
    case h_2 => exact nomatch h
    case h_1 head insertTime delayed hreader =>
      split at h
      case h_1 =>
        obtain rfl := Option.some.inj h
        exact { hx with reader := trivial }
      case h_2 entry queue hqueue =>
        split at h
        case isTrue hhead =>
          obtain rfl := Option.some.inj h
          exact inv_take hx hreader hqueue hhead
        case isFalse =>
          obtain rfl := Option.some.inj h
          exact { hx with reader := trivial }

/-! ### Runs -/

/-- The two threads and the clock, in any order. -/
def bufferLts (delay : Nat) (path : String) : Lts Buffer BufferAction where
  init := init
  step := step delay path

/-- **The events over a run.**  Each event that was read is in one place, once, the two events of a
pair belong together, and a move-from that was handed out alone has waited for the delay. -/
theorem buffer_run {as : List BufferAction} (h : (bufferLts delay path).run init as = some x) :
    (∀ event, x.places.count event = if event ∈ x.read then 1 else 0) ∧
      (∀ element ∈ x.elements, element.Matched) ∧
      ∀ delivery ∈ x.delivered, delivery.element.delayed = true →
        delivery.insertTime + delay ≤ delivery.time := by
  have hx : x.Inv delay := Lts.invariant_of_run inv_step inv_init h
  refine ⟨fun event => ?_, hx.matched, hx.waited⟩
  rw [hx.conserved event, hx.nodup.count]

/-- The kernel reports the two events of a move. -/
def movedFrom : RawEvent := ⟨true, false, false, 7, "/src/a.py"⟩

def movedTo : RawEvent := ⟨false, true, false, 7, "/src/b.py"⟩

/-- The emitter takes the first event of a move before the second one is read. -/
def tornMove : List BufferAction :=
  [.put, .readEvents [movedFrom], .group, .group, .put, .put, .look, .tick 5, .wake, .take,
    .readEvents [movedTo], .group, .group, .stop, .close]

theorem buffer_tornMove :
    ∃ x, (bufferLts 5 "/src").run init tornMove = some x ∧
      (∀ event, x.places.count event = if event ∈ x.read then 1 else 0) ∧
      (∀ element ∈ x.elements, element.Matched) ∧
      ∀ delivery ∈ x.delivered, delivery.element.delayed = true →
        delivery.insertTime + 5 ≤ delivery.time :=
  ⟨_, rfl, @buffer_run 5 "/src" _ tornMove rfl⟩

/-- **A torn move.**  Where a move-to stays alone, a move-from with its cookie that was read before
it has another partner, or has waited for the delay and was handed out. -/
theorem torn_run {as : List BufferAction} (h : (bufferLts delay path).run init as = some x)
    {to_event from_event : InotifyEvent} (hto : .single to_event ∈ x.elements)
    (hmovedTo : to_event.isMovedTo = true) (hread : from_event ∈ x.read)
    (hmovedFrom : from_event.isMovedFrom = true) (hcookie : from_event.cookie = to_event.cookie)
    (hbefore : from_event.address < to_event.address) :
    (∃ a b, .pair a b ∈ x.elements ∧ (from_event = a ∨ from_event = b)) ∨
      ∃ delivery ∈ x.delivered, delivery.element = .single from_event ∧
        delivery.insertTime + delay ≤ delivery.time := by
  have hx : x.Inv delay := Lts.invariant_of_run inv_step inv_init h
  rcases List.mem_append.mp ((mem_read hx).mpr hread) with hplace | htodo
  · obtain ⟨element, helement, hevent⟩ := List.mem_flatMap.mp hplace
    cases element with
    | pair a b =>
      refine Or.inl ⟨a, b, helement, ?_⟩
      rcases List.mem_cons.mp hevent with ha | hb
      · exact Or.inl ha
      · exact Or.inr (List.mem_singleton.mp hb)
    | single event =>
      obtain rfl := List.mem_singleton.mp hevent
      rw [elements, List.append_assoc] at helement
      rcases List.mem_append.mp helement with hout | hwaiting
      · obtain ⟨delivery, hdelivery, hsingle⟩ := List.mem_map.mp hout
        refine Or.inr ⟨delivery, hdelivery, hsingle, hx.waited delivery hdelivery ?_⟩
        rw [hsingle]
        exact hmovedFrom
      · have hle := hx.torn to_event hto hmovedTo from_event hwaiting hmovedFrom hcookie
        exact absurd hbefore (Nat.not_lt.mpr hle)
  · -- what is still to group was read after all that is grouped
    have hlt := hx.ordered to_event (mem_eventsOf_single hto) from_event htodo
    exact absurd hbefore (Nat.lt_asymm hlt)

theorem torn_tornMove :
    ∃ x, (bufferLts 5 "/src").run init tornMove = some x ∧
      ((∃ a b, .pair a b ∈ x.elements ∧
          ((⟨movedFrom, 0⟩ : InotifyEvent) = a ∨ (⟨movedFrom, 0⟩ : InotifyEvent) = b)) ∨
        ∃ delivery ∈ x.delivered, delivery.element = .single ⟨movedFrom, 0⟩ ∧
          delivery.insertTime + 5 ≤ delivery.time) :=
  ⟨_, rfl, @torn_run 5 "/src" _ tornMove rfl ⟨movedTo, 1⟩ ⟨movedFrom, 0⟩ (by decide) rfl
    (by decide) rfl rfl (by decide)⟩

end Buffer

end Reloadium.Watchdog
