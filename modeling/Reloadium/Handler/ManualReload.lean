import Mathlib.Data.List.Nodup
import Reloadium.Lib.JString
import Reloadium.Lib.Lts

namespace Reloadium.Handler

open Reloadium.Lib

/-!
# Handler — reloading a file when its document is saved

Model of `ManualReload`, `ReloadOnSave` and what the platform does between them: saving a
modified document tells the listener first, and `invokeLater` puts a task at the end of a queue.
The task saves the document again before it sends the commands.

Each request (a save of a modified document, or a manual reload) has a number, and the tasks and
commands that it causes carry that number.

* `ReloadIde` — the handlers and the documents; `ReloadState`, `ReloadEvent`,
  `ReloadIde.reloads` — the system;
* `ReloadIde.Tracked` — the invariant: every task is for the document of its request;
* `owed` — the commands of a request that are sent, and those that its tasks will send;
* `ReloadIde.oneReload_iff` — when every request causes one command.
-/

/-! ### The system -/

/-- The handlers and the documents: `project` is the project of a document's file in the IDE,
    `getFile` the path of that file. -/
structure ReloadIde (Document Project RunConfHandler : Type*) where
  all : List RunConfHandler
  nodup : all.Nodup
  getProject : RunConfHandler → Project
  isActive : RunConfHandler → Bool
  convertPathToRemote : RunConfHandler → JString → JString
  project : Document → Project
  getFile : Document → Option JString

/-- A `ReloadFile` command that a handler's session sends. -/
structure ReloadFile (RunConfHandler : Type*) where
  handler : RunConfHandler
  file : JString
  content : JString
  request : Nat

/-- A task of `handleSave` in the queue. -/
structure ReloadTask (Document Project : Type*) where
  project : Option Project
  documents : List Document
  request : Nat

/-- The documents, the queue and what has been sent; `requests` has the document of each
    request. -/
structure ReloadState (Document Project RunConfHandler : Type*) where
  text : Document → JString
  modified : Document → Bool
  queue : List (ReloadTask Document Project)
  sent : List (ReloadFile RunConfHandler)
  requests : List Document

inductive ReloadEvent (Document : Type*) where
  | edit (document : Document) (text : JString)
  | save (document : Document)
  | manualReload (document : Document)
  | runTask

section Definitions

variable {Document Project RunConfHandler : Type*} [DecidableEq Document] [DecidableEq Project]
  [DecidableEq RunConfHandler] (ide : ReloadIde Document Project RunConfHandler)

namespace ReloadState

variable (s : ReloadState Document Project RunConfHandler)

/-- `handleSave`. -/
def handleSave (project : Option Project) (documents : List Document) (request : Nat) :
    ReloadState Document Project RunConfHandler :=
  { s with queue := s.queue ++ [⟨project, documents, request⟩] }

/-- `ReloadOnSave.beforeDocumentSaving`. -/
def beforeDocumentSaving (document : Document) (request : Nat) :
    ReloadState Document Project RunConfHandler := s.handleSave none [document] request

/-- `FileDocumentManager.saveDocument`. -/
def saveDocument (document : Document) (request : Nat) :
    ReloadState Document Project RunConfHandler :=
  if s.modified document then
    let s := s.beforeDocumentSaving document request
    { s with modified := Function.update s.modified document false }
  else s

/-- A state with a request more. -/
def addRequest (document : Document) : ReloadState Document Project RunConfHandler :=
  { s with requests := s.requests ++ [document] }

end ReloadState

namespace ReloadIde

/-- `RunConfHandlerManager.getAllActiveHandlers`. -/
def getAllActiveHandlers (project : Option Project) : List RunConfHandler :=
  ide.all.filter fun h =>
    (project = none || project = some (ide.getProject h)) && ide.isActive h

/-- The body of the loop over the documents. -/
def reloadDocument (handlers : List RunConfHandler) (request : Nat)
    (s : ReloadState Document Project RunConfHandler) (document : Document) :
    ReloadState Document Project RunConfHandler :=
  let s := s.saveDocument document request
  match ide.getFile document with
  | none => s
  | some file =>
    { s with sent := s.sent ++ handlers.map fun h =>
        ⟨h, ide.convertPathToRemote h file, s.text document, request⟩ }

/-- The task of `handleSave`. -/
def runTask (task : ReloadTask Document Project)
    (s : ReloadState Document Project RunConfHandler) :
    ReloadState Document Project RunConfHandler :=
  let handlers := ide.getAllActiveHandlers task.project
  if handlers.isEmpty then s
  else task.documents.foldl (ide.reloadDocument handlers task.request) s

/-- One event.  Only documents of files are edited and reloaded. -/
def step (s : ReloadState Document Project RunConfHandler) :
    ReloadEvent Document → Option (ReloadState Document Project RunConfHandler)
  | .edit document text =>
    if (ide.getFile document).isSome then
      some { s with
        text := Function.update s.text document text
        modified := Function.update s.modified document true }
    else none
  | .save document =>
    -- saving a document that is not modified does nothing
    if s.modified document then
      some ((s.addRequest document).saveDocument document s.requests.length)
    else some s
  | .manualReload document =>
    if (ide.getFile document).isSome then
      some (((s.addRequest document).saveDocument document s.requests.length).handleSave
        (some (ide.project document)) [document] s.requests.length)
    else none
  | .runTask =>
    match s.queue with
    | [] => none
    | task :: rest => some (ide.runTask task { s with queue := rest })

/-- The system, from documents that may be modified: only those of files can be. -/
def reloads (text : Document → JString) (modified : Document → Bool) :
    Lts (ReloadState Document Project RunConfHandler) (ReloadEvent Document) where
  init :=
    { text, modified := fun document => modified document && (ide.getFile document).isSome
      queue := [], sent := [], requests := [] }
  step := ide.step

/-! ### The property -/

/-- The active handlers of a document. -/
def handlersOf (document : Document) : List RunConfHandler :=
  ide.getAllActiveHandlers (some (ide.project document))

/-- A command of the request to the handler, for the document. -/
def isReload (request : Nat) (document : Document) (h : RunConfHandler)
    (cmd : ReloadFile RunConfHandler) : Bool :=
  cmd.request = request && cmd.handler = h &&
    some cmd.file = (ide.getFile document).map (ide.convertPathToRemote h)

/-- Every request has caused exactly one command to every active handler of its document. -/
def OneReload (s : ReloadState Document Project RunConfHandler) : Prop :=
  ∀ request document, s.requests[request]? = some document → ∀ h ∈ ide.handlersOf document,
    s.sent.countP (ide.isReload request document h) = 1

/-- No document with an active handler is modified when it is reloaded manually, or when a task
    reloads it. -/
def Unmodified (s : ReloadState Document Project RunConfHandler) : ReloadEvent Document → Prop
  | .manualReload document => ide.handlersOf document ≠ [] → s.modified document = false
  | .runTask => ∀ task ∈ s.queue.head?, ∀ document ∈ task.documents,
    ide.handlersOf document ≠ [] → s.modified document = false
  | _ => True

/-! ### What is owed -/

/-- The commands of the request to the handler: those that are sent, and one for each task. -/
def owed (s : ReloadState Document Project RunConfHandler) (request : Nat) (document : Document)
    (h : RunConfHandler) : Nat :=
  s.sent.countP (ide.isReload request document h) +
    s.queue.countP fun task => task.request = request

/-- Every request owes one command to every active handler of its document. -/
def OwesOne (s : ReloadState Document Project RunConfHandler) : Prop :=
  ∀ request document, s.requests[request]? = some document → ∀ h ∈ ide.handlersOf document,
    ide.owed s request document h = 1

/-- **The invariant.** -/
structure Tracked (s : ReloadState Document Project RunConfHandler) : Prop where
  modified : ∀ document, s.modified document = true → (ide.getFile document).isSome
  tasks : ∀ task ∈ s.queue, ∃ document, task.documents = [document] ∧
    s.requests[task.request]? = some document ∧ (ide.getFile document).isSome ∧
    (task.project = none ∨ task.project = some (ide.project document))
  sent : ∀ cmd ∈ s.sent, cmd.request < s.requests.length

end ReloadIde

end Definitions

namespace ReloadIde

variable {Document Project RunConfHandler : Type*} {ide : ReloadIde Document Project RunConfHandler}
  {s s' : ReloadState Document Project RunConfHandler} {document document' : Document}
  {request request' : Nat} {h : RunConfHandler}

/-! ### Parts of a step -/

/-- A task that is added for a request keeps the invariant. -/
theorem Tracked.handleSave (hs : ide.Tracked s) {project : Option Project}
    (hrequest : s.requests[request]? = some document) (hfile : (ide.getFile document).isSome)
    (hproject : project = none ∨ project = some (ide.project document)) :
    ide.Tracked (s.handleSave project [document] request) where
  modified := hs.modified
  tasks := by
    intro task htask
    rcases List.mem_append.mp htask with htask | htask
    · exact hs.tasks task htask
    · obtain rfl := List.mem_singleton.mp htask
      exact ⟨document, rfl, hrequest, hfile, hproject⟩
  sent := hs.sent

/-- A request more, that nothing has been done for. -/
theorem Tracked.addRequest (hs : ide.Tracked s) (document : Document) :
    ide.Tracked (s.addRequest document) where
  modified := hs.modified
  tasks := by
    intro task htask
    obtain ⟨d, hdocuments, hrequest, hrest⟩ := hs.tasks task htask
    have hlt := (List.getElem?_eq_some_iff.mp hrequest).1
    exact ⟨d, hdocuments, (List.getElem?_append_left hlt).trans hrequest, hrest⟩
  sent := by
    intro cmd hcmd
    have hlt := hs.sent cmd hcmd
    rw [ReloadState.addRequest, List.length_append]
    omega

/-- The tasks behind the first one keep the invariant. -/
theorem Tracked.tail (hs : ide.Tracked s) {task : ReloadTask Document Project}
    {rest : List (ReloadTask Document Project)} (hqueue : s.queue = task :: rest) :
    ide.Tracked { s with queue := rest } where
  modified := hs.modified
  tasks := fun task' htask' => hs.tasks task' (hqueue ▸ List.mem_cons_of_mem _ htask')
  sent := hs.sent

section Save

variable [DecidableEq Document]

@[simp] theorem requests_saveDocument :
    (s.saveDocument document request).requests = s.requests := by
  rw [ReloadState.saveDocument]
  split <;> rfl

theorem Tracked.saveDocument (hs : ide.Tracked s)
    (hrequest : s.requests[request]? = some document) :
    ide.Tracked (s.saveDocument document request) := by
  rw [ReloadState.saveDocument]
  split
  · next hmod =>
    have hsave := hs.handleSave hrequest (hs.modified document hmod) (Or.inl rfl)
    refine ⟨fun d hd => ?_, hsave.tasks, hsave.sent⟩
    change Function.update s.modified document false d = true at hd
    rcases eq_or_ne d document with rfl | hne
    · exact hs.modified d hmod
    · rw [Function.update_of_ne hne] at hd
      exact hs.modified d hd
  · exact hs

end Save

section Owed

variable [DecidableEq RunConfHandler]

theorem owed_handleSave (project : Option Project) (documents : List Document) :
    ide.owed (s.handleSave project documents request) request' document' h =
      ide.owed s request' document' h + if request = request' then 1 else 0 := by
  simp only [owed, ReloadState.handleSave, List.countP_append, List.countP_singleton,
    decide_eq_true_eq, Nat.add_assoc]

theorem owed_saveDocument [DecidableEq Document] :
    ide.owed (s.saveDocument document request) request' document' h =
      ide.owed s request' document' h +
        if s.modified document = true ∧ request = request' then 1 else 0 := by
  rw [ReloadState.saveDocument]
  split
  · next hmod =>
    simp only [hmod, true_and]
    have howed : ide.owed (s.handleSave none [document] request) request' document' h =
        ide.owed s request' document' h + if request = request' then 1 else 0 :=
      owed_handleSave none [document]
    exact howed
  · next hmod => rw [if_neg fun hc => hmod hc.1, Nat.add_zero]

/-- Nothing is owed for the next request. -/
theorem Tracked.owed_length (hs : ide.Tracked s) (document : Document) (h : RunConfHandler) :
    ide.owed s s.requests.length document h = 0 := by
  have hsent : s.sent.countP (ide.isReload s.requests.length document h) = 0 := by
    rw [List.countP_eq_zero]
    intro cmd hcmd hreload
    have hlt := hs.sent cmd hcmd
    simp only [isReload, Bool.and_eq_true, decide_eq_true_eq] at hreload
    omega
  have hqueue : (s.queue.countP fun task => task.request = s.requests.length) = 0 := by
    rw [List.countP_eq_zero]
    intro task htask heq
    obtain ⟨d, -, hrequest, -⟩ := hs.tasks task htask
    have hlt := (List.getElem?_eq_some_iff.mp hrequest).1
    rw [decide_eq_true_eq] at heq
    omega
  rw [owed, hsent, hqueue]

variable [DecidableEq Project]

/-- **A new request** owes as many commands as it has tasks. -/
theorem owesOne_addRequest (hs : ide.Tracked s) (tasks : Nat)
    (hrequests : s'.requests = s.requests ++ [document])
    (howed : ∀ request' document' h, ide.owed s' request' document' h =
      ide.owed s request' document' h + if s.requests.length = request' then tasks else 0) :
    ide.OwesOne s' ↔ ide.OwesOne s ∧ (ide.handlersOf document ≠ [] → tasks = 1) := by
  apply Iff.intro
  · intro hone
    refine ⟨fun r d hr h hh => ?_, fun hne => ?_⟩
    · have hlt := (List.getElem?_eq_some_iff.mp hr).1
      have hold := hone r d (by rw [hrequests, List.getElem?_append_left hlt]; exact hr) h hh
      rw [howed, if_neg (by omega), Nat.add_zero] at hold
      exact hold
    · obtain ⟨h, hh⟩ := List.exists_mem_of_ne_nil _ hne
      have hnew := hone s.requests.length document (by rw [hrequests]; simp) h hh
      rw [howed, if_pos rfl, hs.owed_length, Nat.zero_add] at hnew
      exact hnew
  · rintro ⟨hone, htasks⟩ r d hr h hh
    rw [hrequests] at hr
    rcases Nat.lt_or_ge r s.requests.length with hlt | hge
    · rw [List.getElem?_append_left hlt] at hr
      rw [howed, if_neg (by omega), Nat.add_zero]
      exact hone r d hr h hh
    · have hlen := (List.getElem?_eq_some_iff.mp hr).1
      rw [List.length_append, List.length_singleton] at hlen
      obtain rfl : r = s.requests.length := by omega
      obtain rfl : document = d := by simpa using hr
      rw [howed, if_pos rfl, hs.owed_length, Nat.zero_add]
      exact htasks (List.ne_nil_of_mem hh)

end Owed

/-! ### Tasks -/

section Tasks

variable [DecidableEq Document]

theorem requests_reloadDocument (handlers : List RunConfHandler) :
    (ide.reloadDocument handlers request s document).requests = s.requests := by
  rw [reloadDocument]
  split <;> exact requests_saveDocument

theorem Tracked.reloadDocument (hs : ide.Tracked s) (handlers : List RunConfHandler)
    (hrequest : s.requests[request]? = some document) :
    ide.Tracked (ide.reloadDocument handlers request s document) := by
  have hsaved := hs.saveDocument hrequest
  rw [ReloadIde.reloadDocument]
  split
  · exact hsaved
  · refine ⟨hsaved.modified, hsaved.tasks, fun cmd hcmd => ?_⟩
    rcases List.mem_append.mp hcmd with hcmd | hcmd
    · exact hsaved.sent cmd hcmd
    · obtain ⟨h', -, rfl⟩ := List.mem_map.mp hcmd
      have hlt := (List.getElem?_eq_some_iff.mp hrequest).1
      simpa only [requests_saveDocument] using hlt

variable [DecidableEq RunConfHandler]

/-- A task does not change what the other requests are owed, but for saving the document. -/
theorem owed_reloadDocument_of_ne (handlers : List RunConfHandler) (hne : request ≠ request') :
    ide.owed (ide.reloadDocument handlers request s document) request' document' h =
      ide.owed s request' document' h := by
  have hsaved : ide.owed (s.saveDocument document request) request' document' h =
      ide.owed s request' document' h := by
    rw [owed_saveDocument, if_neg fun hc => hne hc.2, Nat.add_zero]
  rw [reloadDocument]
  split
  · exact hsaved
  · next file _ =>
    have hcount : (handlers.map fun h' => (⟨h', ide.convertPathToRemote h' file,
        (s.saveDocument document request).text document, request⟩ :
          ReloadFile RunConfHandler)).countP (ide.isReload request' document' h) = 0 := by
      rw [List.countP_map, List.countP_eq_zero]
      simp [isReload, hne]
    rw [← hsaved, owed, owed, List.countP_append, hcount, Nat.add_zero]

variable [DecidableEq Project]

omit [DecidableEq Document] [DecidableEq RunConfHandler] in
theorem handlersOf_subset {project : Option Project}
    (hproject : project = none ∨ project = some (ide.project document)) :
    ide.handlersOf document ⊆ ide.getAllActiveHandlers project := by
  intro h hh
  rcases hproject with rfl | rfl
  · simp only [handlersOf, getAllActiveHandlers, List.mem_filter, Bool.and_eq_true] at hh ⊢
    exact ⟨hh.1, by simp, hh.2.2⟩
  · exact hh

/-- The commands that a task sends for its request: one, and one more that it owes when the
    document was modified. -/
theorem owed_reloadDocument {project : Option Project} (hfile : (ide.getFile document).isSome)
    (hh : h ∈ ide.getAllActiveHandlers project) :
    ide.owed (ide.reloadDocument (ide.getAllActiveHandlers project) request s document) request
        document h =
      ide.owed s request document h + 1 + if s.modified document = true then 1 else 0 := by
  obtain ⟨file, hfile⟩ := Option.isSome_iff_exists.mp hfile
  have hsaved : ide.owed (s.saveDocument document request) request document h =
      ide.owed s request document h + if s.modified document = true then 1 else 0 := by
    rw [owed_saveDocument]
    simp only [and_true]
  rw [owed] at hsaved
  -- the handler is one of the list, once
  have hnodup : (ide.getAllActiveHandlers project).Nodup := ide.nodup.filter _
  have hcount : ((ide.getAllActiveHandlers project).map fun h' =>
      (⟨h', ide.convertPathToRemote h' file, (s.saveDocument document request).text document,
        request⟩ : ReloadFile RunConfHandler)).countP (ide.isReload request document h) = 1 := by
    rw [List.countP_map, ← List.count_eq_one_of_mem hnodup hh, List.count]
    refine List.countP_congr fun h' _ => ?_
    simp only [Function.comp_apply, isReload, hfile, Option.map_some, decide_true, Bool.true_and,
      Bool.and_eq_true, decide_eq_true_eq, beq_iff_eq, Option.some.injEq]
    exact ⟨And.left, fun heq => ⟨heq, by rw [heq]⟩⟩
  rw [reloadDocument, hfile, owed]
  simp only [List.countP_append, hcount]
  omega

/-- **What a task changes**: its request is owed one command more when its document is
    modified. -/
theorem Tracked.owed_runTask (hs : ide.Tracked s) {task : ReloadTask Document Project}
    {rest : List (ReloadTask Document Project)} (hqueue : s.queue = task :: rest)
    (hrequest : s.requests[request']? = some document') (hh : h ∈ ide.handlersOf document') :
    ide.owed (ide.runTask task { s with queue := rest }) request' document' h =
      ide.owed s request' document' h +
        if task.request = request' ∧ s.modified document' = true then 1 else 0 := by
  obtain ⟨document, hdocuments, hdocument, hfile, hproject⟩ :=
    hs.tasks task (hqueue ▸ List.mem_cons_self)
  have hhead : ide.owed s request' document' h =
      ide.owed { s with queue := rest } request' document' h +
        if task.request = request' then 1 else 0 := by
    rw [owed, owed, hqueue, List.countP_cons]
    simp only [decide_eq_true_eq, Nat.add_assoc]
  rcases eq_or_ne task.request request' with rfl | hne
  · obtain rfl : document = document' := Option.some.inj (hdocument.symm.trans hrequest)
    have hmem := handlersOf_subset hproject hh
    rw [runTask, if_neg (by simpa using List.ne_nil_of_mem hmem), hdocuments, List.foldl_cons,
      List.foldl_nil, owed_reloadDocument hfile hmem, hhead]
    simp only [true_and, if_true]
  · rw [hhead, if_neg hne, if_neg fun hc => hne hc.1, Nat.add_zero, runTask]
    split
    · rfl
    · rw [hdocuments, List.foldl_cons, List.foldl_nil, owed_reloadDocument_of_ne _ hne]

omit [DecidableEq RunConfHandler] in
/-- A task keeps the invariant, and adds no request. -/
theorem Tracked.runTask (hs : ide.Tracked s) {task : ReloadTask Document Project}
    {rest : List (ReloadTask Document Project)} (hqueue : s.queue = task :: rest) :
    ide.Tracked (ide.runTask task { s with queue := rest }) ∧
      (ide.runTask task { s with queue := rest }).requests = s.requests := by
  obtain ⟨document, hdocuments, hdocument, -, -⟩ := hs.tasks task (hqueue ▸ List.mem_cons_self)
  have htail := hs.tail hqueue
  rw [ReloadIde.runTask]
  split
  · exact ⟨htail, rfl⟩
  · rw [hdocuments]
    exact ⟨htail.reloadDocument _ hdocument, requests_reloadDocument _⟩

/-- **A task** is for a request that is owed a command, and so owes one command too many exactly
    when its document is modified. -/
theorem Tracked.owesOne_runTask (hs : ide.Tracked s) {task : ReloadTask Document Project}
    {rest : List (ReloadTask Document Project)} (hqueue : s.queue = task :: rest) :
    ide.OwesOne (ide.runTask task { s with queue := rest }) ↔
      ide.OwesOne s ∧ ∀ document ∈ task.documents,
        ide.handlersOf document ≠ [] → s.modified document = false := by
  obtain ⟨document, hdocuments, hdocument, -, -⟩ := hs.tasks task (hqueue ▸ List.mem_cons_self)
  have hrequests := (hs.runTask hqueue).2
  apply Iff.intro
  · intro hone
    have howed : ∀ r d, s.requests[r]? = some d → ∀ h ∈ ide.handlersOf d,
        ide.owed s r d h + (if task.request = r ∧ s.modified d = true then 1 else 0) = 1 := by
      intro r d hr h hh
      rw [← hs.owed_runTask hqueue hr hh]
      exact hone r d (by rw [hrequests]; exact hr) h hh
    -- the task itself is owed
    have hpos : ∀ d h, 0 < ide.owed s task.request d h := by
      intro d h
      rw [owed, hqueue, List.countP_cons_of_pos (by simp)]
      omega
    have hunmodified : ide.handlersOf document ≠ [] → s.modified document = false := by
      intro hne
      obtain ⟨h, hh⟩ := List.exists_mem_of_ne_nil _ hne
      have hone' := howed task.request document hdocument h hh
      have hpos' := hpos document h
      rw [← Bool.not_eq_true]
      intro hmod
      rw [if_pos ⟨rfl, hmod⟩] at hone'
      omega
    refine ⟨fun r d hr h hh => ?_, fun d hd => ?_⟩
    · have hone' := howed r d hr h hh
      rw [if_neg, Nat.add_zero] at hone'
      · exact hone'
      · rintro ⟨rfl, hmod⟩
        obtain rfl : document = d := Option.some.inj (hdocument.symm.trans hr)
        rw [hunmodified (List.ne_nil_of_mem hh)] at hmod
        cases hmod
    · obtain rfl := List.mem_singleton.mp (hdocuments ▸ hd)
      exact hunmodified
  · rintro ⟨hone, hunmodified⟩ r d hr h hh
    rw [hrequests] at hr
    rw [hs.owed_runTask hqueue hr hh, hone r d hr h hh, if_neg]
    rintro ⟨rfl, hmod⟩
    obtain rfl : document = d := Option.some.inj (hdocument.symm.trans hr)
    rw [hunmodified document (hdocuments ▸ List.mem_singleton_self document)
      (List.ne_nil_of_mem hh)] at hmod
    cases hmod

end Tasks

/-! ### Steps and runs -/

section Runs

variable [DecidableEq Document] [DecidableEq Project]

/-- What an event does. -/
theorem step_cases {a : ReloadEvent Document} (hstep : ide.step s a = some s') :
    (∃ document text, a = .edit document text ∧ (ide.getFile document).isSome ∧
      s' = { s with
        text := Function.update s.text document text
        modified := Function.update s.modified document true }) ∨
    (∃ document, a = .save document ∧ s.modified document = false ∧ s' = s) ∨
    (∃ document, a = .save document ∧ s.modified document = true ∧
      s' = (s.addRequest document).saveDocument document s.requests.length) ∨
    (∃ document, a = .manualReload document ∧ (ide.getFile document).isSome ∧
      s' = ((s.addRequest document).saveDocument document s.requests.length).handleSave
        (some (ide.project document)) [document] s.requests.length) ∨
    (∃ task rest, a = .runTask ∧ s.queue = task :: rest ∧
      s' = ide.runTask task { s with queue := rest }) := by
  cases a with
  | edit document text =>
    rw [step, Option.ite_none_right_eq_some, Option.some.injEq] at hstep
    exact Or.inl ⟨document, text, rfl, hstep.1, hstep.2.symm⟩
  | save document =>
    rw [step] at hstep
    split at hstep
    · next hmod =>
      exact Or.inr (Or.inr (Or.inl ⟨document, rfl, hmod, (Option.some.inj hstep).symm⟩))
    · next hmod =>
      exact Or.inr (Or.inl ⟨document, rfl, by simpa using hmod, (Option.some.inj hstep).symm⟩)
  | manualReload document =>
    rw [step, Option.ite_none_right_eq_some, Option.some.injEq] at hstep
    exact Or.inr (Or.inr (Or.inr (Or.inl ⟨document, rfl, hstep.1, hstep.2.symm⟩)))
  | runTask =>
    rw [step] at hstep
    split at hstep
    · cases hstep
    · next task rest hqueue =>
      refine Or.inr (Or.inr (Or.inr (Or.inr ⟨task, rest, rfl, hqueue, ?_⟩)))
      exact (Option.some.inj hstep).symm

theorem Tracked.step (hs : ide.Tracked s) {a : ReloadEvent Document}
    (hstep : ide.step s a = some s') : ide.Tracked s' := by
  have hnew : ∀ d, (s.addRequest d).requests[s.requests.length]? = some d := by
    simp [ReloadState.addRequest]
  rcases step_cases hstep with ⟨document, text, -, hfile, rfl⟩ | ⟨document, -, -, rfl⟩ |
    ⟨document, -, -, rfl⟩ | ⟨document, -, hfile, rfl⟩ | ⟨task, rest, -, hqueue, rfl⟩
  · refine ⟨fun d hd => ?_, hs.tasks, hs.sent⟩
    rcases eq_or_ne d document with rfl | hne
    · exact hfile
    · exact hs.modified d ((Function.update_of_ne hne _ _).symm.trans hd)
  · exact hs
  · exact (hs.addRequest document).saveDocument (hnew document)
  · refine ((hs.addRequest document).saveDocument (hnew document)).handleSave ?_ hfile (Or.inr rfl)
    rw [requests_saveDocument]
    exact hnew document
  · exact (hs.runTask hqueue).1

variable [DecidableEq RunConfHandler]

/-- **A step** leads to states where every request owes one command exactly when it meets the
    condition. -/
theorem Tracked.owesOne_step (hs : ide.Tracked s) {a : ReloadEvent Document}
    (hstep : ide.step s a = some s') : ide.OwesOne s' ↔ ide.OwesOne s ∧ ide.Unmodified s a := by
  rcases step_cases hstep with ⟨document, text, rfl, -, rfl⟩ | ⟨document, rfl, -, rfl⟩ |
    ⟨document, rfl, hmod, rfl⟩ | ⟨document, rfl, -, rfl⟩ | ⟨task, rest, rfl, hqueue, rfl⟩
  · exact (and_iff_left trivial).symm
  · exact (and_iff_left trivial).symm
  · rw [owesOne_addRequest hs 1 requests_saveDocument]
    · exact and_congr_right fun _ => iff_of_true (fun _ => rfl) trivial
    · intro r d h
      have hmod' : (s.addRequest document).modified document = true := hmod
      rw [owed_saveDocument]
      simp only [hmod', true_and]
      rfl
  · rw [owesOne_addRequest hs (if s.modified document = true then 2 else 1)
      requests_saveDocument]
    · refine and_congr_right fun _ => forall_congr' fun _ => ?_
      rw [← Bool.not_eq_true]
      split <;> simp_all
    · intro r d h
      have hmod : (s.addRequest document).modified document = s.modified document := rfl
      rw [owed_handleSave, owed_saveDocument, hmod, Nat.add_assoc]
      congr 1
      split_ifs <;> simp_all
  · rw [hs.owesOne_runTask hqueue]
    refine and_congr_right fun _ => ?_
    rw [Unmodified, hqueue, List.head?_cons]
    simp only [Option.mem_def, Option.some.injEq, forall_eq']

omit [DecidableEq Document] in
/-- When the queue is empty, what is owed has been sent. -/
theorem oneReload_iff_owesOne (hqueue : s.queue = []) : ide.OneReload s ↔ ide.OwesOne s := by
  simp only [OneReload, OwesOne, owed, hqueue, List.countP_nil, Nat.add_zero]

/-- **One reload per request.** When the queue has been drained, every save of a modified document
    and every manual reload has caused one command to every active handler of its document,
    exactly when none of these documents was modified when it was reloaded manually or by a
    task. -/
theorem oneReload_iff (text : Document → JString) (modified : Document → Bool)
    {as : List (ReloadEvent Document)} {t : ReloadState Document Project RunConfHandler}
    (hrun : (ide.reloads text modified).run (ide.reloads text modified).init as = some t)
    (hqueue : t.queue = []) :
    ide.OneReload t ↔
      (ide.reloads text modified).Meets ide.Unmodified (ide.reloads text modified).init as := by
  have hinit : ide.Tracked (ide.reloads text modified).init :=
    ⟨fun d hd => (Bool.and_eq_true_iff.mp hd).2, by simp [reloads], by simp [reloads]⟩
  have howes : ide.OwesOne (ide.reloads text modified).init := by simp [OwesOne, reloads]
  rw [oneReload_iff_owesOne hqueue, Lts.iff_meets_of_run (C := ide.Unmodified)
    (fun s a s' hs hstep => Tracked.step hs hstep)
    (fun s a s' hs hstep => Tracked.owesOne_step hs hstep) hinit hrun]
  exact and_iff_right howes

end Runs

/-- A document of the file `a.py` and an active handler. -/
def single : ReloadIde Unit Unit Unit where
  all := [()]
  nodup := List.nodup_singleton ()
  getProject _ := ()
  isActive _ := true
  convertPathToRemote _ file := file
  project _ := ()
  getFile _ := some (.ofString "a.py")

/-- An edited document is saved, and reloaded manually afterwards. -/
theorem oneReload_saved :
    ∃ t, (single.reloads (fun _ => []) fun _ => true).run
        (single.reloads (fun _ => []) fun _ => true).init
        [.save (), .runTask, .manualReload (), .runTask] = some t ∧ t.queue = [] ∧
      (single.OneReload t ↔
        (single.reloads (fun _ => []) fun _ => true).Meets single.Unmodified
          (single.reloads (fun _ => []) fun _ => true).init
          [.save (), .runTask, .manualReload (), .runTask]) :=
  ⟨_, rfl, rfl, oneReload_iff _ _ rfl rfl⟩

/-- An edited document that is reloaded manually is sent twice: saving it tells the listener, which
    adds a task of its own. -/
theorem modified_reloaded_twice :
    ∃ t, (single.reloads (fun _ => []) fun _ => true).run
        (single.reloads (fun _ => []) fun _ => true).init
        [.manualReload (), .runTask, .runTask] = some t ∧ t.queue = [] ∧ t.requests = [()] ∧
      t.sent.length = 2 ∧ ¬ single.OneReload t := by
  refine ⟨_, rfl, rfl, rfl, rfl, fun hone => ?_⟩
  have hcount := hone 0 () rfl () (by decide)
  exact absurd hcount (by decide)

end ReloadIde

end Reloadium.Handler
