import Reloadium.Lib.Lts

namespace Reloadium.Session

open Reloadium.Lib

/-!
# Session — the plugin's end of one engine connection

Model of `rw.session.Client` and of `Session.returnFactory`.  A client owns two shared
fields, `cmdReturn` and `cmdReturnId`; every thread that calls `Client.send` writes them,
and so does the receiving thread, which runs `Client.ingestLine` on every line the engine
writes.  No lock protects them, so each statement that touches a shared field is a step
of its own and the steps interleave freely:

* `Call` — the statement one call of `send` executes next;
* `Receiver` — the statement the receiving thread executes next;
* `clientStep` — one statement of one thread.

Gson is the parameter `fromJson`: it may throw (`error`), return `null` (`ok none`) or
build an object.  `Line.origin` is ghost: it says why the engine wrote the line and no
statement reads it.
-/

/-- `Suggestion`; Gson leaves an absent field `null`. -/
structure Suggestion where
  name : Option String
  pyType : Option String
  typeText : Option String
  tailText : Option String
deriving DecidableEq, Repr

/-- The classes `Session.returns` maps command ids to.  The three context completions
    share the class they inherit from `GetCtxCompletion`. -/
inductive ReturnClass where
  | getCtxCompletion
  | getImportCompletion
  | getFromImportCompletion
deriving DecidableEq, Repr

/-- An object of class `Cmd.Return`: the empty `new Cmd.Return()`, or an instance of one
    of the completion classes with its `suggestions` field. -/
inductive Return where
  | empty
  | completion (returnClass : ReturnClass) (suggestions : Option (List Suggestion))
deriving DecidableEq, Repr

/-- A command: its `getId()` and the JSON text `send` prints for it. -/
structure Cmd where
  id : String
  payload : String
deriving DecidableEq, Repr

/-- Why the engine wrote a line: on its own account, or as the reply to the `call`-th call
    of `send` on this client. -/
inductive Origin where
  | event
  | reply (call : Nat)
deriving DecidableEq, Repr

/-- A line read from the socket, with its ghost origin. -/
structure Line where
  text : String
  origin : Origin
deriving DecidableEq, Repr

/-- A non-null content of the field `cmdReturn`, with the line it was built from (ghost). -/
structure Stored where
  value : Return
  source : Line
deriving DecidableEq, Repr

/-- `Session.returns`. -/
def returns : List (String × ReturnClass) :=
  [("GetLocalCompletion", .getCtxCompletion),
   ("GetFrameCompletion", .getCtxCompletion),
   ("GetGlobalCompletion", .getCtxCompletion),
   ("GetImportCompletion", .getImportCompletion),
   ("GetFromImportCompletion", .getFromImportCompletion)]

/-- What Gson makes of a payload: an exception, `null` or an object. -/
abbrev FromJson := String → ReturnClass → Except String (Option Return)

/-- `Session.returnFactory`.  The immutable map `returns` rejects a `null` key with a
    `NullPointerException`. -/
def returnFactory (fromJson : FromJson) (payload : String) (cmdId : Option String) :
    Except String (Option Return) :=
  match cmdId with
  | none => .error "NullPointerException"
  | some id =>
    match returns.lookup id with
    -- an unknown id: no class, and null returned
    | none => .ok none
    | some returnClass => fromJson payload returnClass

/-! ### The threads -/

/-- The statement a call of `Client.send` executes next. -/
inductive Call where
  | notCalled
  /-- `this.cmdReturn = null` -/
  | clearReturn (cmd : Cmd)
  /-- `this.cmdReturnId = cmd.getId()` -/
  | setId (cmd : Cmd)
  /-- `this.out.println(payload)` -/
  | println (cmd : Cmd)
  /-- `while (this.cmdReturn == null && timeout >= 0)` -/
  | test (cmd : Cmd) (timeout : Int)
  /-- `sleep(100); ProgressManager.checkCanceled(); timeout -= 100` -/
  | sleep (cmd : Cmd) (timeout : Int)
  /-- `this.cmdReturnId = null` -/
  | clearId (cmd : Cmd)
  /-- `return this.cmdReturn` -/
  | readReturn (cmd : Cmd)
  | returned (cmd : Cmd) (ret : Option Stored)
  | thrown (cmd : Cmd)
deriving DecidableEq, Repr

/-- The statement the receiving thread executes next, in `Client.run` and
    `Client.ingestLine`. -/
inductive Receiver where
  /-- `this.in.readLine()`, then `if (this.cmdReturnId != null)` -/
  | readLine
  /-- `this.session.returnFactory(line, this.cmdReturnId)` -/
  | parse (line : Line)
  /-- `this.cmdReturn = ` the object just built -/
  | store (line : Line) (ret : Option Return)
  /-- `if (this.cmdReturn == null)` -/
  | testNull (line : Line)
  /-- `this.cmdReturn = new Cmd.Return()` -/
  | storeEmpty (line : Line)
  /-- `this.session.eventFactory(line)` and `event.handle()` -/
  | handle (line : Line)
deriving DecidableEq, Repr

/-- A client: its two shared fields, the payloads printed so far, and where each thread
    stands. -/
structure Client where
  cmdReturn : Option Stored
  cmdReturnId : Option String
  out : List String
  receiver : Receiver
  calls : Nat → Call

/-- The client its constructor builds, before any call. -/
def Client.new : Client where
  cmdReturn := none
  cmdReturnId := none
  out := []
  receiver := .readLine
  calls := fun _ => .notCalled

/-- Move the `k`-th call to its next statement. -/
def Client.setCall (s : Client) (k : Nat) (call : Call) : Client :=
  { s with calls := Function.update s.calls k call }

/-- What a scheduler chooses. -/
inductive Action where
  /-- some thread calls `send(cmd)`; `k` numbers the call -/
  | call (k : Nat) (cmd : Cmd)
  /-- the `k`-th call executes its next statement -/
  | advance (k : Nat)
  /-- the `k`-th call dies of an exception: `out` is still `null` at `println`, or
      `checkCanceled` throws -/
  | throw (k : Nat)
  /-- the receiving thread reads `line` and tests `cmdReturnId` -/
  | receive (line : Line)
  /-- the receiving thread executes its next statement -/
  | ingest
deriving DecidableEq, Repr

/-- The next statement of the `k`-th call of `Client.send`. -/
def sendStep (s : Client) (k : Nat) : Option Client :=
  match s.calls k with
  | .clearReturn cmd => some ({ s with cmdReturn := none }.setCall k (.setId cmd))
  | .setId cmd => some ({ s with cmdReturnId := some cmd.id }.setCall k (.println cmd))
  -- the reply may arrive from here on
  | .println cmd => some ({ s with out := s.out ++ [cmd.payload] }.setCall k (.test cmd 4000))
  | .test cmd timeout =>
    -- a stored return and a timeout leave the loop alike
    if s.cmdReturn = none ∧ timeout ≥ 0 then some (s.setCall k (.sleep cmd timeout))
    else some (s.setCall k (.clearId cmd))
  | .sleep cmd timeout => some (s.setCall k (.test cmd (timeout - 100)))
  | .clearId cmd => some ({ s with cmdReturnId := none }.setCall k (.readReturn cmd))
  -- whatever the field holds by now
  | .readReturn cmd => some (s.setCall k (.returned cmd s.cmdReturn))
  | .notCalled | .returned _ _ | .thrown _ => none

/-- The next statement of the receiving thread.  A `RuntimeException` of `returnFactory`
    is caught around the whole of `ingestLine`: the line is then neither stored nor
    handled. -/
def ingestStep (fromJson : FromJson) (s : Client) : Option Client :=
  match s.receiver with
  | .readLine => none
  | .parse line =>
    -- the id is read a second time: it may have changed since it was tested
    match returnFactory fromJson line.text s.cmdReturnId with
    | .error _ => some { s with receiver := .readLine }
    | .ok ret => some { s with receiver := .store line ret }
  | .store line ret =>
    some { s with cmdReturn := ret.map fun value => ⟨value, line⟩, receiver := .testNull line }
  | .testNull line =>
    -- a null from the factory, or a new call that has cleared the field meanwhile
    if s.cmdReturn = none then some { s with receiver := .storeEmpty line }
    else some { s with receiver := .handle line }
  | .storeEmpty line =>
    some { s with cmdReturn := some ⟨.empty, line⟩, receiver := .handle line }
  | .handle _ => some { s with receiver := .readLine }

/-- One statement of one thread. -/
def clientStep (fromJson : FromJson) (s : Client) : Action → Option Client
  | .call k cmd =>
    match s.calls k with
    | .notCalled => some (s.setCall k (.clearReturn cmd))
    | _ => none
  | .advance k => sendStep s k
  | .throw k =>
    match s.calls k with
    | .println cmd => some (s.setCall k (.thrown cmd))
    -- `cmdReturnId` stays set: no `finally` clears it
    | .sleep cmd _ => some (s.setCall k (.thrown cmd))
    | _ => none
  | .receive line =>
    match s.receiver with
    | .readLine =>
      if s.cmdReturnId = none then some { s with receiver := .handle line }
      else some { s with receiver := .parse line }
    | _ => none
  | .ingest => ingestStep fromJson s

/-- The client as a transition system. -/
def clientLts (fromJson : FromJson) : Lts Client Action where
  init := .new
  step := clientStep fromJson

end Reloadium.Session
