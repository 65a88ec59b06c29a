import Reloadium.Lib.Lts
import Mathlib.Data.List.Basic
import Mathlib.Data.List.Induction

namespace Reloadium.Lib

/-!
# Library — operations that post tasks

The operations of a component run on one thread and leave part of their work to another:
an operation changes the state at once and posts tasks, which the other thread runs later,
one at a time and in the order they were posted, on a screen that only they touch.

* `Posting`, `Posting.settle` — an operation, and its effect once its tasks have run;
* `Component`, `Component.settle_lift` — a part of a larger component, whose tasks touch
  their own piece of the screen;
* `Deferred.machine` — operations and tasks in any interleaving;
* `settled_step`, `settled_run` — whatever the interleaving, the state and the drained
  screen are those of a run whose operations wait for their tasks;
* `history_rule` — induction on the calls of a run.
-/

variable {σ υ τ σ' υ' τ' α : Type*}

/-- An operation: the state after it and the tasks it posts. -/
abbrev Posting (σ τ : Type*) := σ → σ × List τ

namespace Posting

variable {exec : υ → τ → υ}

/-- Nothing happens. -/
def skip : Posting σ τ := fun s => (s, [])

/-- A change of the state that posts nothing. -/
def modify (f : σ → σ) : Posting σ τ := fun s => (f s, [])

/-- A task is posted and nothing else happens. -/
def post (t : τ) : Posting σ τ := fun s => (s, [t])

/-- An operation that depends on the state it finds. -/
def reading (f : σ → Posting σ τ) : Posting σ τ := fun s => f s s

/-- One operation after the other. -/
def andThen (o o' : Posting σ τ) : Posting σ τ := fun s =>
  ((o' (o s).1).1, (o s).2 ++ (o' (o s).1).2)

/-- The operations of a list, one after the other. -/
def sequence : List (Posting σ τ) → Posting σ τ
  | [] => skip
  | o :: os => o.andThen (sequence os)

/-- The effect of an operation on the state and the screen once its tasks have run. -/
def settle (exec : υ → τ → υ) (o : Posting σ τ) (x : σ × υ) : σ × υ :=
  ((o x.1).1, (o x.1).2.foldl exec x.2)

@[simp] theorem settle_skip (x : σ × υ) : (skip : Posting σ τ).settle exec x = x := rfl

@[simp] theorem settle_modify (f : σ → σ) (x : σ × υ) :
    (modify f : Posting σ τ).settle exec x = (f x.1, x.2) := rfl

@[simp] theorem settle_post (t : τ) (x : σ × υ) :
    (post t).settle exec x = (x.1, exec x.2 t) := rfl

@[simp] theorem settle_reading (f : σ → Posting σ τ) (x : σ × υ) :
    (reading f).settle exec x = (f x.1).settle exec x := rfl

@[simp] theorem settle_andThen (o o' : Posting σ τ) (x : σ × υ) :
    (o.andThen o').settle exec x = o'.settle exec (o.settle exec x) := by
  unfold settle andThen
  rw [List.foldl_append]

@[simp] theorem settle_sequence_nil (x : σ × υ) :
    (sequence [] : Posting σ τ).settle exec x = x := rfl

@[simp] theorem settle_sequence_cons (o : Posting σ τ) (os : List (Posting σ τ)) (x : σ × υ) :
    (sequence (o :: os)).settle exec x = (sequence os).settle exec (o.settle exec x) :=
  settle_andThen o (sequence os) x

end Posting

/-! ### Parts -/

/-- A part of a component: a field of the state and a piece of the screen, which the part's
    own tasks touch and nothing else. -/
structure Component (exec : υ → τ → υ) (exec' : υ' → τ' → υ') (σ σ' : Type*) where
  get : σ → σ'
  set : σ → σ' → σ
  view : υ → υ'
  put : υ → υ' → υ
  post : τ' → τ
  view_put : ∀ u v, view (put u v) = v
  put_view : ∀ u, put u (view u) = u
  put_put : ∀ u v w, put (put u v) w = put u w
  exec_post : ∀ u t, exec u (post t) = put u (exec' (view u) t)

namespace Component

variable {exec : υ → τ → υ} {exec' : υ' → τ' → υ'} (p : Component exec exec' σ σ')

/-- An operation of the part as one of the whole. -/
def lift (o : Posting σ' τ') : Posting σ τ := fun s =>
  (p.set s (o (p.get s)).1, (o (p.get s)).2.map p.post)

/-- The part of a settled whole. -/
def of (x : σ × υ) : σ' × υ' := (p.get x.1, p.view x.2)

/-- Tasks of the part on the whole screen. -/
theorem foldl_exec_map_post (ts : List τ') (u : υ) :
    (ts.map p.post).foldl exec u = p.put u (ts.foldl exec' (p.view u)) := by
  induction ts generalizing u with
  | nil => exact (p.put_view u).symm
  | cons t ts ih =>
    rw [List.map_cons, List.foldl_cons, List.foldl_cons, p.exec_post, ih, p.view_put, p.put_put]

/-- An operation of a part changes that part only, as the operation alone would. -/
theorem settle_lift (o : Posting σ' τ') (x : σ × υ) :
    (p.lift o).settle exec x =
      (p.set x.1 (o.settle exec' (p.of x)).1, p.put x.2 (o.settle exec' (p.of x)).2) := by
  show (p.set x.1 (o (p.get x.1)).1, ((o (p.get x.1)).2.map p.post).foldl exec x.2) = _
  rw [p.foldl_exec_map_post]
  rfl

end Component

/-! ### Interleavings -/

/-- The state, the screen, and the tasks that have not run yet. -/
structure Deferred (σ υ τ : Type*) where
  state : σ
  screen : υ
  queue : List τ

/-- A turn: an operation is called, or the oldest task runs. -/
inductive Turn (α : Type*) where
  | call (a : α)
  | task

namespace Deferred

variable {op : α → Posting σ τ} {exec : υ → τ → υ} {x : σ × υ}

/-- Operations and tasks in any interleaving, from a state with nothing posted. -/
def machine (op : α → Posting σ τ) (exec : υ → τ → υ) (x : σ × υ) :
    Lts (Deferred σ υ τ) (Turn α) where
  init := ⟨x.1, x.2, []⟩
  step c
    | .call a => some ⟨(op a c.state).1, c.screen, c.queue ++ (op a c.state).2⟩
    | .task =>
      match c.queue with
      | [] => none
      | t :: rest => some ⟨c.state, exec c.screen t, rest⟩

/-- The state and the screen once the tasks that are left have run. -/
def settled (exec : υ → τ → υ) (c : Deferred σ υ τ) : σ × υ :=
  (c.state, c.queue.foldl exec c.screen)

/-- With no task left, the screen is the one that is there. -/
theorem settled_of_queue_nil {c : Deferred σ υ τ} (h : c.queue = []) :
    c.settled exec = (c.state, c.screen) := by
  rw [settled, h]
  rfl

end Deferred

/-- What a turn does to the settled component: a call takes its full effect, and running a
    task changes nothing. -/
def Turn.settle (op : α → Posting σ τ) (exec : υ → τ → υ) (x : σ × υ) : Turn α → σ × υ
  | .call a => (op a).settle exec x
  | .task => x

namespace Deferred

variable {op : α → Posting σ τ} {exec : υ → τ → υ} {x : σ × υ} {c c' : Deferred σ υ τ}

/-- **Step lemma.** -/
theorem settled_step {t : Turn α} (h : (machine op exec x).step c t = some c') :
    c'.settled exec = t.settle op exec (c.settled exec) := by
  cases t with
  | call a =>
    obtain rfl := Option.some.inj h
    show ((op a c.state).1, (c.queue ++ (op a c.state).2).foldl exec c.screen) = _
    rw [List.foldl_append]
    rfl
  | task =>
    obtain ⟨state, screen, queue⟩ := c
    cases queue with
    | nil => cases h
    | cons t rest =>
      obtain rfl := Option.some.inj h
      rfl

/-- **Run lemma.** The interleaving does not matter for where a run leads to. -/
theorem settled_run {ts : List (Turn α)} (h : (machine op exec x).run c ts = some c') :
    c'.settled exec = ts.foldl (Turn.settle op exec) (c.settled exec) := by
  induction ts generalizing c with
  | nil =>
    obtain rfl := Option.some.inj h
    rfl
  | cons t ts ih =>
    obtain ⟨c₁, hstep, hrest⟩ := Lts.run_cons_eq_some.mp h
    rw [ih hrest, settled_step hstep, List.foldl_cons]

/-- The calls of a run, the oldest first. -/
def history (ts : List (Turn α)) : List α :=
  ts.filterMap fun
    | .call a => some a
    | .task => none

/-- **History rule.** What holds of the initial component and the empty history, and is kept when a
    call is added to the history and takes its full effect on the component, holds in every state
    of a run, whatever the interleaving. -/
theorem history_rule {R : List α → σ × υ → Prop} (hinit : R [] x)
    (hcall : ∀ h y a, R h y → R (h ++ [a]) ((op a).settle exec y)) {ts : List (Turn α)}
    (hrun : (machine op exec x).run (machine op exec x).init ts = some c) :
    R (history ts) (c.settled exec) := by
  rw [settled_run hrun]
  show R _ (ts.foldl (Turn.settle op exec) x)
  clear hrun
  induction ts using List.reverseRecOn with
  | nil => exact hinit
  | append_singleton ts t ih =>
    rw [history, List.filterMap_append, List.foldl_append]
    cases t with
    | call a => exact hcall _ _ a ih
    | task => exact (List.append_nil (history ts)).symm ▸ ih

/-- Running tasks alone does not change where the component settles. -/
theorem foldl_settle_tasks (n : Nat) (x : σ × υ) :
    (List.replicate n Turn.task).foldl (Turn.settle op exec) x = x := by
  induction n with
  | zero => rfl
  | succ n ih => rw [List.replicate_succ, List.foldl_cons, Turn.settle, ih]

end Deferred

end Reloadium.Lib
