import Mathlib.Data.List.Destutter
import Reloadium.Lib.Lts

namespace Reloadium.Watchdog

open Lib

/-!
# File watching — the queue of events

`SkipRepeatsQueue` is a `queue.Queue` that drops an item equal to the one put last, as long as that
one has not been taken.  It compares the items by value when it puts and by identity when it takes,
so an item is a value at an address.  Emitters put each event in a new tuple, and the observer
takes them; both go on in any order.

* `Queue.Inv` — the item put last is the one at the end of the queue, if there is one;
* `delivered_run` — **up to repetitions, what is taken or waits is what was put**, in its order;
* `taken_of_put` — **no event is lost**: what is put waits, or is taken afterwards.
-/

/-! ### Repetitions -/

section Destutter

variable {ε : Type*} [DecidableEq ε] {l : List ε} {a b : ε}

theorem destutter'_concat (l : List ε) (a b : ε) :
    (l ++ [a]).destutter' (· ≠ ·) b =
      if (b :: l).getLast? = some a then l.destutter' (· ≠ ·) b
      else l.destutter' (· ≠ ·) b ++ [a] := by
  induction l generalizing b with
  | nil =>
    have hlast : [b].getLast? = some a ↔ b = a := by
      rw [List.getLast?_singleton, Option.some.injEq]
    rw [List.nil_append, List.destutter'_singleton]
    by_cases h : b = a
    · rw [if_neg (not_not.mpr h), if_pos (hlast.mpr h)]
      rfl
    · rw [if_pos h, if_neg (mt hlast.mp h)]
      rfl
  | cons c l ih =>
    rw [List.cons_append, List.getLast?_cons_cons]
    by_cases h : b = c
    · subst h
      rw [List.destutter'_cons_neg _ (not_not.mpr rfl), List.destutter'_cons_neg _ (not_not.mpr rfl)]
      exact ih b
    · rw [List.destutter'_cons_pos _ h, List.destutter'_cons_pos _ h, ih c]
      split
      · rfl
      · rfl

/-- One more item, which repeats the last one or does not. -/
theorem destutter_concat (l : List ε) (a : ε) :
    (l ++ [a]).destutter (· ≠ ·) =
      if l.getLast? = some a then l.destutter (· ≠ ·) else l.destutter (· ≠ ·) ++ [a] := by
  cases l with
  | nil => rfl
  | cons b l => exact destutter'_concat l a b

theorem getLast?_destutter (l : List ε) : (l.destutter (· ≠ ·)).getLast? = l.getLast? := by
  induction l using List.reverseRecOn with
  | nil => rfl
  | append_singleton l a ih =>
    rw [destutter_concat, List.getLast?_concat]
    split
    case isTrue h => rw [ih, h]
    case isFalse h => exact List.getLast?_concat

/-- The same item after what is the same up to repetitions. -/
theorem destutter_concat_congr {l' : List ε}
    (h : l.destutter (· ≠ ·) = l'.destutter (· ≠ ·)) (a : ε) :
    (l ++ [a]).destutter (· ≠ ·) = (l' ++ [a]).destutter (· ≠ ·) := by
  have hlast : l.getLast? = l'.getLast? := by
    rw [← getLast?_destutter l, h, getLast?_destutter]
  rw [destutter_concat, destutter_concat, h, hlast]

end Destutter

/-! ### The queue -/

variable {ε : Type*} [DecidableEq ε]

/-- An object: its address and what it compares equal by. -/
structure Item (ε : Type*) where
  address : Nat
  value : ε

/-- `SkipRepeatsQueue`, with the items of its base class. -/
structure SkipRepeatsQueue (ε : Type*) where
  queue : List (Item ε)
  lastItem : Option (Item ε)
  unfinishedTasks : Int

namespace SkipRepeatsQueue

def new : SkipRepeatsQueue ε where
  queue := []
  lastItem := none
  unfinishedTasks := 0

/-- `_put` -/
def rawPut (q : SkipRepeatsQueue ε) (item : Item ε) : SkipRepeatsQueue ε :=
  if q.lastItem.map Item.value ≠ some item.value then
    { q with queue := q.queue ++ [item], lastItem := some item }
  else { q with unfinishedTasks := q.unfinishedTasks - 1 }

/-- `Queue.put`, which counts the item whether it was put or not. -/
def put (q : SkipRepeatsQueue ε) (item : Item ε) : SkipRepeatsQueue ε :=
  let q := q.rawPut item
  { q with unfinishedTasks := q.unfinishedTasks + 1 }

theorem put_of_eq {q : SkipRepeatsQueue ε} {item : Item ε}
    (h : q.lastItem.map Item.value = some item.value) : q.put item = q := by
  rw [put, rawPut, if_neg (not_not.mpr h), Int.sub_add_cancel]

theorem put_of_ne {q : SkipRepeatsQueue ε} {item : Item ε}
    (h : q.lastItem.map Item.value ≠ some item.value) :
    q.put item =
      { queue := q.queue ++ [item]
        lastItem := some item
        unfinishedTasks := q.unfinishedTasks + 1 } := by
  rw [put, rawPut, if_pos h]

/-- `_get`, on a queue that is not empty. -/
def get (q : SkipRepeatsQueue ε) : Option (Item ε × SkipRepeatsQueue ε) :=
  match q.queue with
  | [] => none
  | item :: queue =>
    some (item,
      { q with
        queue := queue
        lastItem :=
          if q.lastItem.map Item.address = some item.address then none else q.lastItem })

/-- `Queue.task_done`, which raises an error when it is called too often. -/
def taskDone (q : SkipRepeatsQueue ε) : Option (SkipRepeatsQueue ε) :=
  if q.unfinishedTasks - 1 < 0 then none
  else some { q with unfinishedTasks := q.unfinishedTasks - 1 }

end SkipRepeatsQueue

/-! ### Emitters and the observer -/

inductive QueueAction (ε : Type*)
  /-- An emitter puts a new object. -/
  | put (value : ε)
  | get
  | taskDone

/-- The queue, the next address, and what has been put, taken and done. -/
structure QueueState (ε : Type*) where
  q : SkipRepeatsQueue ε
  next : Nat
  puts : List ε
  gets : List ε
  dones : Nat

namespace QueueState

def init : QueueState ε where
  q := .new
  next := 0
  puts := []
  gets := []
  dones := 0

/-- What waits to be taken. -/
def waiting (x : QueueState ε) : List ε := x.q.queue.map Item.value

def step (x : QueueState ε) : QueueAction ε → Option (QueueState ε)
  | .put value =>
    some { x with
      q := x.q.put { address := x.next, value := value }
      next := x.next + 1
      puts := x.puts ++ [value] }
  | .get =>
    x.q.get.map fun (item, q) => { x with q := q, gets := x.gets ++ [item.value] }
  | .taskDone => x.q.taskDone.map fun q => { x with q := q, dones := x.dones + 1 }

end QueueState

def queueLts : Lts (QueueState ε) (QueueAction ε) where
  init := .init
  step := QueueState.step

/-- What holds of the queue at any time. -/
structure QueueState.Inv (x : QueueState ε) : Prop where
  last : x.q.lastItem = x.q.queue.getLast?
  nodup : (x.q.queue.map Item.address).Nodup
  fresh : ∀ item ∈ x.q.queue, item.address < x.next
  order : (x.gets ++ x.waiting).Sublist x.puts
  same : (x.gets ++ x.waiting).destutter (· ≠ ·) = x.puts.destutter (· ≠ ·)
  count : x.q.unfinishedTasks = x.waiting.length + (x.gets.length - x.dones)

namespace QueueState

variable {x y : QueueState ε} {item : Item ε} {value : ε}

theorem inv_init : (init : QueueState ε).Inv where
  last := rfl
  nodup := List.nodup_nil
  fresh := fun _ h => absurd h List.not_mem_nil
  order := List.Sublist.refl _
  same := rfl
  count := rfl

/-- The last item ends what has been taken or waits. -/
theorem getLast?_of_lastItem (hx : x.Inv) (hlast : x.q.lastItem.map Item.value = some value) :
    (x.gets ++ x.waiting).getLast? = some value := by
  have hwaiting : x.waiting.getLast? = some value := by
    rw [waiting, List.getLast?_map, ← hx.last, hlast]
  have hne : x.waiting ≠ [] := by
    intro h
    rw [h] at hwaiting
    exact nomatch hwaiting
  rw [List.getLast?_append_of_ne_nil _ hne, hwaiting]

/-- An item equal to the last one changes nothing up to repetitions. -/
theorem same_put_repeated (hx : x.Inv) (hlast : x.q.lastItem.map Item.value = some value) :
    (x.gets ++ x.waiting).destutter (· ≠ ·) = (x.puts ++ [value]).destutter (· ≠ ·) := by
  have hends := getLast?_of_lastItem hx hlast
  rw [← destutter_concat_congr hx.same value, destutter_concat, if_pos hends]

theorem inv_put (hx : x.Inv) (value : ε) (h : x.step (.put value) = some y) : y.Inv := by
  obtain rfl := Option.some.inj h
  have hfresh : ∀ item ∈ x.q.queue, item.address < x.next + 1 :=
    fun item hitem => Nat.lt_succ_of_lt (hx.fresh item hitem)
  by_cases hlast : x.q.lastItem.map Item.value = some value
  · have hput : x.q.put { address := x.next, value := value } = x.q :=
      SkipRepeatsQueue.put_of_eq hlast
    rw [hput]
    exact ⟨hx.last, hx.nodup, hfresh, hx.order.trans (List.sublist_append_left _ _),
      same_put_repeated hx hlast, hx.count⟩
  · rw [SkipRepeatsQueue.put_of_ne hlast]
    have hwaiting : (x.q.queue ++ [(⟨x.next, value⟩ : Item ε)]).map Item.value =
        x.waiting ++ [value] := List.map_append
    refine ⟨List.getLast?_concat.symm, ?_, ?_, ?_, ?_, ?_⟩
    · rw [List.map_append, List.nodup_append]
      refine ⟨hx.nodup, List.nodup_singleton _, ?_⟩
      rintro a ha b hb rfl
      obtain ⟨item, hitem, rfl⟩ := List.mem_map.mp ha
      exact absurd (List.mem_singleton.mp hb) (Nat.ne_of_lt (hx.fresh item hitem))
    · intro item hitem
      rcases List.mem_append.mp hitem with hitem | hitem
      · exact hfresh item hitem
      · rw [List.mem_singleton.mp hitem]
        exact Nat.lt_succ_self _
    · rw [waiting, hwaiting, ← List.append_assoc]
      exact hx.order.append (List.Sublist.refl _)
    · rw [waiting, hwaiting, ← List.append_assoc]
      exact destutter_concat_congr hx.same value
    · have hcount := hx.count
      rw [waiting, hwaiting, List.length_append, List.length_singleton]
      show x.q.unfinishedTasks + 1 =
        ((x.waiting.length + 1 : Nat) : Int) + (x.gets.length - x.dones)
      omega

theorem inv_get (hx : x.Inv) (h : x.step .get = some y) : y.Inv := by
  obtain ⟨⟨item, q⟩, hget, rfl⟩ := Option.map_eq_some_iff.mp h
  rw [SkipRepeatsQueue.get] at hget
  split at hget
  · exact nomatch hget
  case h_2 item' rest hqueue =>
    obtain ⟨rfl, rfl⟩ := Prod.mk.inj (Option.some.inj hget)
    have hwaiting : x.waiting = item'.value :: rest.map Item.value := by
      rw [waiting, hqueue]
      rfl
    have hall : x.gets ++ [item'.value] ++ rest.map Item.value = x.gets ++ x.waiting := by
      rw [hwaiting, List.append_assoc, List.singleton_append]
    have hnodup := hx.nodup
    rw [hqueue, List.map_cons, List.nodup_cons] at hnodup
    refine ⟨?_, hnodup.2, ?_, ?_, ?_, ?_⟩
    · have hlast := hx.last
      rw [hqueue] at hlast
      rcases List.eq_nil_or_concat' rest with rfl | ⟨before, last, rfl⟩
      · -- the only item
        have hsame : x.q.lastItem.map Item.address = some item'.address := by rw [hlast]; rfl
        exact if_pos hsame
      · have hlast' : x.q.lastItem = some last := by
          rw [hlast, ← List.cons_append]
          exact List.getLast?_concat
        have hother : x.q.lastItem.map Item.address ≠ some item'.address := by
          rw [hlast']
          intro heq
          exact hnodup.1 (List.mem_map.mpr ⟨last, by simp, Option.some.inj heq⟩)
        show (if _ then none else x.q.lastItem) = _
        rw [if_neg hother, hlast']
        exact List.getLast?_concat.symm
    · intro item hitem
      exact hx.fresh item (hqueue ▸ List.mem_cons_of_mem _ hitem)
    · exact hall ▸ hx.order
    · exact hall ▸ hx.same
    · have hcount := hx.count
      rw [hwaiting, List.length_cons] at hcount
      show x.q.unfinishedTasks =
        ((rest.map Item.value).length : Int) + ((x.gets ++ [item'.value]).length - x.dones)
      rw [hcount, List.length_append, List.length_singleton]
      omega

theorem inv_step (x : QueueState ε) (a : QueueAction ε) (y : QueueState ε) (hx : x.Inv)
    (h : x.step a = some y) : y.Inv := by
  cases a with
  | put value => exact inv_put hx value h
  | get => exact inv_get hx h
  | taskDone =>
    obtain ⟨q, hdone, rfl⟩ := Option.map_eq_some_iff.mp h
    rw [SkipRepeatsQueue.taskDone] at hdone
    split at hdone
    · exact nomatch hdone
    · obtain rfl := Option.some.inj hdone
      refine ⟨hx.last, hx.nodup, hx.fresh, hx.order, hx.same, ?_⟩
      have hcount := hx.count
      show x.q.unfinishedTasks - 1 =
        (x.waiting.length : Int) + (x.gets.length - ((x.dones + 1 : Nat) : Int))
      omega

/-- **The queue over a run.**  Up to repetitions, what has been taken or waits is what was put, in
its order, and as many tasks are unfinished as wait or are not done. -/
theorem delivered_run {as : List (QueueAction ε)} (h : queueLts.run init as = some x) :
    (x.gets ++ x.waiting).Sublist x.puts ∧
      (x.gets ++ x.waiting).destutter (· ≠ ·) = x.puts.destutter (· ≠ ·) ∧
      x.q.unfinishedTasks = x.waiting.length + (x.gets.length - x.dones) := by
  have hx : x.Inv := Lts.invariant_of_run inv_step inv_init h
  exact ⟨hx.order, hx.same, hx.count⟩

/-- A file that is saved twice before the observer takes the first event, and once after. -/
def savedTwice : List (QueueAction String) :=
  [.put "a.py", .put "a.py", .get, .put "a.py", .taskDone]

theorem delivered_savedTwice :
    ∃ x, queueLts.run init savedTwice = some x ∧
      (x.gets ++ x.waiting).Sublist x.puts ∧
      (x.gets ++ x.waiting).destutter (· ≠ ·) = x.puts.destutter (· ≠ ·) ∧
      x.q.unfinishedTasks = x.waiting.length + (x.gets.length - x.dones) :=
  ⟨_, rfl, @delivered_run String _ _ savedTwice rfl⟩

/-! ### Nothing is lost -/

theorem waiting_put (x : QueueState ε) (value : ε) :
    (x.q.put { address := x.next, value := value }).queue.map Item.value = x.waiting ∨
      (x.q.put { address := x.next, value := value }).queue.map Item.value =
        x.waiting ++ [value] := by
  by_cases hlast : x.q.lastItem.map Item.value = some value
  · have hput : x.q.put { address := x.next, value := value } = x.q :=
      SkipRepeatsQueue.put_of_eq hlast
    rw [hput]
    exact Or.inl rfl
  · rw [SkipRepeatsQueue.put_of_ne hlast]
    exact Or.inr List.map_append

/-- What is put waits, dropped or not. -/
theorem mem_waiting_put (hx : x.Inv) (h : x.step (.put value) = some y) : value ∈ y.waiting := by
  obtain rfl := Option.some.inj h
  by_cases hlast : x.q.lastItem.map Item.value = some value
  · have hput : x.q.put { address := x.next, value := value } = x.q :=
      SkipRepeatsQueue.put_of_eq hlast
    have hends : (x.q.queue.map Item.value).getLast? = some value := by
      rw [List.getLast?_map, ← hx.last, hlast]
    rw [waiting, hput]
    exact List.mem_of_getLast? hends
  · rw [waiting, SkipRepeatsQueue.put_of_ne hlast]
    exact List.mem_map.mpr ⟨⟨x.next, value⟩, List.mem_append_right _ List.mem_cons_self, rfl⟩

/-- What has been taken stays taken, and what waits is taken in its order. -/
def Grows (x y : QueueState ε) : Prop :=
  x.gets <+: y.gets ∧ x.gets ++ x.waiting <+: y.gets ++ y.waiting

theorem grows_step {a : QueueAction ε} (h : x.step a = some y) : Grows x y := by
  cases a with
  | put value =>
    obtain rfl := Option.some.inj h
    refine ⟨List.prefix_rfl, (List.prefix_append_right_inj x.gets).mpr ?_⟩
    show x.waiting <+: (x.q.put { address := x.next, value := value }).queue.map Item.value
    rcases waiting_put x value with hput | hput
    · exact hput ▸ List.prefix_rfl
    · rw [hput]
      exact List.prefix_append x.waiting [value]
  | get =>
    obtain ⟨⟨item, q⟩, hget, rfl⟩ := Option.map_eq_some_iff.mp h
    rw [SkipRepeatsQueue.get] at hget
    split at hget
    · exact nomatch hget
    case h_2 item' rest hqueue =>
      obtain ⟨rfl, rfl⟩ := Prod.mk.inj (Option.some.inj hget)
      have hwaiting : x.waiting = item'.value :: rest.map Item.value := by
        rw [waiting, hqueue]
        rfl
      refine ⟨List.prefix_append x.gets [item'.value], ?_⟩
      rw [hwaiting, List.append_cons]
      exact List.prefix_rfl
  | taskDone =>
    obtain ⟨q, hdone, rfl⟩ := Option.map_eq_some_iff.mp h
    rw [SkipRepeatsQueue.taskDone] at hdone
    split at hdone
    · exact nomatch hdone
    · obtain rfl := Option.some.inj hdone
      exact ⟨List.prefix_rfl, List.prefix_rfl⟩

theorem grows_run {as : List (QueueAction ε)} (h : queueLts.run x as = some y) : Grows x y :=
  Lts.invariant_of_run (fun _ _ _ hs hstep =>
      ⟨hs.1.trans (grows_step hstep).1, hs.2.trans (grows_step hstep).2⟩)
    ⟨List.prefix_rfl, List.prefix_rfl⟩ h

/-- **No event is lost.**  What is put, dropped or not, waits or has been taken afterwards. -/
theorem taken_of_put {before after : List (QueueAction ε)}
    (hbefore : queueLts.run init before = some x)
    (h : queueLts.run x (.put value :: after) = some y) :
    value ∈ y.gets.drop x.gets.length ++ y.waiting := by
  have hx : x.Inv := Lts.invariant_of_run inv_step inv_init hbefore
  obtain ⟨z, hstep, hafter⟩ := Lts.run_cons_eq_some.mp h
  have hgets : z.gets = x.gets := by
    obtain rfl := Option.some.inj hstep
    rfl
  have hgrows := grows_run hafter
  obtain ⟨rest, hrest⟩ := hgrows.2
  have hle := hgrows.1.length_le
  rw [← hgets, ← List.drop_append_of_le_length hle, ← hrest, List.append_assoc, List.drop_left]
  exact List.mem_append_left rest (mem_waiting_put hx hstep)

theorem taken_savedTwice :
    ∃ x y, queueLts.run init [.put "a.py"] = some x ∧
      queueLts.run x [.put "a.py", .get, .put "a.py", .taskDone] = some y ∧
      "a.py" ∈ y.gets.drop x.gets.length ++ y.waiting :=
  ⟨_, _, rfl, rfl, @taken_of_put String _ _ _ "a.py" [.put "a.py"] [.get, .put "a.py", .taskDone] rfl rfl⟩

end QueueState

end Reloadium.Watchdog
