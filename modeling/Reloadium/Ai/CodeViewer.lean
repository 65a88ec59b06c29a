import Reloadium.Ai.ContextUtils
import Reloadium.Lib.Lts
import Reloadium.Lib.Replace

namespace Reloadium.Ai

open Reloadium.Lib JString

/-!
# Ai — what a code part shows

Model of `rw.ai.messages.code.CodeViewer` with its view.  Three threads are at work: the thread
of the answer sets the content, the request that predicts the file extension is answered on a
thread of its own, and the editor is touched by tasks of the UI thread only.  The tasks wait in
one order but not in one queue: an AWT event (`SwingUtilities.invokeLater`,
`UIUtil.invokeLaterIfNeeded`) may overtake the tasks of `Application.invokeLater`, while such a
task waits for all AWT events that were posted before it.

* `CodeViewer.machine` — the statements of the three threads in any interleaving;
* `CodeViewer.Due` — where the editor is heading, whatever the order the tasks run in;
* `shows_of_meets` — with nothing left to run, the editor shows the content under the extension;
* `asks_of_run` — when the extension is asked for, and what can change it.
-/

/-- `LANG_TO_EXT`. -/
def LANG_TO_EXT : List (String × String) :=
  [("java", "java"), ("python", "py"), ("kotlin", "kt"), ("javascript", "js"),
    ("typescript", "ts"), ("json", "json"), ("txt", "txt"), ("sql", "sql"), ("xml", "xml"),
    ("yaml", "yaml"), ("html", "html"), ("css", "css"), ("yml", "yaml")]

/-- `LANG_TO_EXT.get`. -/
def extensionOf (language : JString) : Option JString :=
  (LANG_TO_EXT.find? fun entry => ofString entry.1 = language).map fun entry => ofString entry.2

/-- The text that `View.setContent` puts into the document. -/
def cleanContent (content : JString) : JString := stripLineNumbers (strip content)

/-- The extension that the answer to a prediction request stands for.  `String.replace` takes
    the `\.` of the source literally. -/
def predictedExtension (answer : JString) : JString :=
  strip (replace (ofString "\\.") [] (strip answer))

/-- The file and the document of a `CodeViewer.View`: the file's extension, and the document's text.
    The document is null for a file that has none; `create` then throws before it shows an editor. -/
structure Editor where
  extension : JString
  text : Option JString
  deriving DecidableEq

/-- What is posted to the UI thread. -/
inductive ViewTask where
  /-- `setExtension`, by the answer to a prediction request -/
  | setExtension (extension : JString)
  /-- `View.create` -/
  | create (extension : JString)
  /-- `View.setContent`, with the cleaned content -/
  | setText (text : JString)
  deriving DecidableEq

namespace ViewTask

/-- The task is an AWT event; `setText` is a task of `Application.invokeLater`. -/
def isEvent : ViewTask → Bool
  | .setText _ => false
  | _ => true

/-- The first AWT event of a list, and the list without it. -/
def nextEvent : List ViewTask → Option (ViewTask × List ViewTask)
  | [] => none
  | t :: rest =>
    if t.isEvent then some (t, rest)
    else (nextEvent rest).map fun (e, others) => (e, t :: others)

/-- The texts that are still to be set. -/
def texts : List ViewTask → List JString
  | [] => []
  | .setText text :: rest => text :: texts rest
  | _ :: rest => texts rest

/-- The extensions for which an editor is still to be created. -/
def created : List ViewTask → List JString
  | [] => []
  | .create extension :: rest => extension :: created rest
  | _ :: rest => created rest

end ViewTask

/-- A `CodeViewer` with its model, its view, and what its threads have left to do. -/
structure CodeViewer where
  language : Option JString
  extension : JString
  content : JString
  gotExtensionFromLanguage : Bool
  predictedPartial : Bool
  predicted : Bool
  /-- the prediction requests that were made, and those without an answer -/
  asked : Nat
  unanswered : Nat
  editor : Option Editor
  tasks : List ViewTask
  /-- the content, and whether it may be predicted from, between the statements of `setContent` -/
  setting : Option (JString × Bool)
  /-- the UI thread is between the statements of `setExtension` -/
  changing : Bool
  /-- the text that was posted last -/
  posted : JString

/-- A statement of one of the threads. -/
inductive ViewerStep where
  /-- `setContent` up to `model.setContent`, called by `setContentWithExtensionPrediction` or not -/
  | setContent (content : JString) (prediction : Bool)
  /-- the rest of the call, in which making the request may throw -/
  | storeContent (throws : Bool)
  | onFinished (throws : Bool)
  /-- the request's `onComplete` -/
  | onComplete (answer : JString)
  /-- the request's `onError` -/
  | onError
  /-- the UI thread takes the next AWT event -/
  | event
  /-- the UI thread takes the next task of `Application.invokeLater` -/
  | later
  /-- the UI thread sets the content in the new editor -/
  | endSetExtension

namespace CodeViewer

/-- `setExtension` up to `view.create`. -/
def beginSetExtension (v : CodeViewer) (extension : JString) : CodeViewer :=
  { v with extension, tasks := v.tasks ++ [.create extension], changing := true }

/-- `View.setContent`. -/
def post (v : CodeViewer) (content : JString) : CodeViewer :=
  { v with
    tasks := v.tasks ++ [.setText (cleanContent content)]
    posted := cleanContent content }

/-- The rest of `setExtension`. -/
def endSetExtension (v : CodeViewer) : CodeViewer :=
  { v.post v.content with changing := false }

/-- The fields of a viewer before its constructor sets them. -/
def blank (language : Option JString) (gotExtensionFromLanguage : Bool) (content : JString) :
    CodeViewer where
  language := language
  extension := []
  content := content
  gotExtensionFromLanguage := gotExtensionFromLanguage
  predictedPartial := false
  predicted := false
  asked := 0
  unanswered := 0
  editor := none
  tasks := []
  setting := none
  changing := false
  posted := []

/-- `new CodeViewer(project, language)`. -/
def ofLanguage (language : Option JString) : CodeViewer :=
  let extension := extensionOf (language.getD (ofString "unknown"))
  ((blank language extension.isSome []).beginSetExtension
    (extension.getD (ofString "py"))).endSetExtension

/-- `new CodeViewer(project, model)`. -/
def ofModel (language : Option JString) (extension content : JString) : CodeViewer :=
  (((blank language true content).beginSetExtension extension).endSetExtension).post content

/-- `predictExtension`, and whether it returns. -/
def predictExtension (v : CodeViewer) (throws : Bool) : CodeViewer × Bool :=
  if v.gotExtensionFromLanguage then (v, true)
  else if throws then (v, false)
  else ({ v with asked := v.asked + 1, unanswered := v.unanswered + 1 }, true)

/-- The rest of `setContentWithExtensionPrediction` after `model.setContent`. -/
def predictPartial (v : CodeViewer) (throws : Bool) : CodeViewer :=
  if !v.predictedPartial && 200 < v.content.length then
    ({ v with predictedPartial := true }.predictExtension throws).1
  else v

/-- `onFinished`. -/
def onFinished (v : CodeViewer) (throws : Bool) : CodeViewer :=
  if v.predicted then v
  else
    match v.predictExtension throws with
    | (v, true) => { v with predicted := true }
    | (v, false) => v

/-- The listener's `onComplete`. -/
def onComplete (v : CodeViewer) (answer : JString) : CodeViewer :=
  if v.extension = predictedExtension answer then v
  else { v with tasks := v.tasks ++ [.setExtension (predictedExtension answer)] }

/-- A task on the UI thread.  `textual` tells the extensions whose files have a document. -/
def runTask (textual : JString → Bool) (v : CodeViewer) : ViewTask → CodeViewer
  | .setExtension extension => v.beginSetExtension extension
  -- the text of the new file is "py"
  | .create extension =>
    { v with editor := some ⟨extension, if textual extension then some (ofString "py") else none⟩ }
  -- without a document the task ends with an exception
  | .setText text =>
    { v with editor := v.editor.map fun e => { e with text := e.text.map fun _ => text } }

/-- The thread of the statement is there. -/
def ready (v : CodeViewer) : ViewerStep → Bool
  | .setContent _ _ | .onFinished _ => v.setting.isNone
  | .storeContent _ => v.setting.isSome
  | .onComplete _ | .onError => 0 < v.unanswered
  | .event => !v.changing && v.tasks.any ViewTask.isEvent
  -- an AWT event that was posted before is taken first
  | .later => !v.changing && v.tasks.head?.any fun t => !t.isEvent
  | .endSetExtension => v.changing

/-- The rest of `setContent`, from `model.setContent` on. -/
def storeContent (v : CodeViewer) (throws : Bool) : CodeViewer :=
  match v.setting with
  | none => v
  | some (content, true) => { v with content, setting := none }.predictPartial throws
  | some (content, false) => { v with content, setting := none }

/-- The next AWT event. -/
def takeEvent (textual : JString → Bool) (v : CodeViewer) : CodeViewer :=
  match ViewTask.nextEvent v.tasks with
  | none => v
  | some (t, rest) => { v with tasks := rest }.runTask textual t

/-- The oldest task. -/
def takeTask (textual : JString → Bool) (v : CodeViewer) : CodeViewer :=
  match v.tasks with
  | [] => v
  | t :: rest => { v with tasks := rest }.runTask textual t

/-- What the statement does. -/
def perform (textual : JString → Bool) (v : CodeViewer) : ViewerStep → CodeViewer
  | .setContent content prediction => { v.post content with setting := some (content, prediction) }
  | .storeContent throws => v.storeContent throws
  | .onFinished throws => v.onFinished throws
  | .onComplete answer => { v with unanswered := v.unanswered - 1 }.onComplete answer
  | .onError => { v with unanswered := v.unanswered - 1 }
  | .event => v.takeEvent textual
  | .later => v.takeTask textual
  | .endSetExtension => v.endSetExtension

/-- The threads of a viewer in any interleaving. -/
def machine (textual : JString → Bool) (v₀ : CodeViewer) : Lts CodeViewer ViewerStep where
  init := v₀
  step v a := if v.ready a then some (v.perform textual a) else none

end CodeViewer

/-! ### The tasks that wait -/

namespace ViewTask

variable {ts rest : List ViewTask} {t : ViewTask}

theorem texts_append (ts us : List ViewTask) : texts (ts ++ us) = texts ts ++ texts us := by
  induction ts with
  | nil => rfl
  | cons t ts ih => cases t <;> simp [texts, ih]

theorem created_append (ts us : List ViewTask) :
    created (ts ++ us) = created ts ++ created us := by
  induction ts with
  | nil => rfl
  | cons t ts ih => cases t <;> simp [created, ih]

/-- Tasks of `Application.invokeLater` create nothing. -/
theorem created_eq_nil (h : ∀ t ∈ ts, t.isEvent = false) : created ts = [] := by
  induction ts with
  | nil => rfl
  | cons t ts ih =>
    obtain ⟨ht, hts⟩ := List.forall_mem_cons.mp h
    cases t with
    | setText text => exact ih hts
    | create extension => exact Bool.noConfusion ht
    | setExtension extension => exact Bool.noConfusion ht

/-- The next event is taken out from behind tasks that are no events. -/
theorem nextEvent_eq_some (h : nextEvent ts = some (t, rest)) :
    ∃ front back, ts = front ++ t :: back ∧ rest = front ++ back ∧ t.isEvent = true ∧
      ∀ u ∈ front, u.isEvent = false := by
  induction ts generalizing rest with
  | nil => cases h
  | cons u ts ih =>
    rw [nextEvent] at h
    split at h
    · next hu =>
      obtain ⟨rfl, rfl⟩ := Prod.mk.inj (Option.some.inj h)
      exact ⟨[], ts, rfl, rfl, hu, by simp⟩
    · next hu =>
      obtain ⟨⟨e, others⟩, hnext, heq⟩ := Option.map_eq_some_iff.mp h
      obtain ⟨rfl, rfl⟩ := Prod.mk.inj heq
      obtain ⟨front, back, rfl, rfl, he, hfront⟩ := ih hnext
      refine ⟨u :: front, back, rfl, rfl, he, ?_⟩
      rintro w (_ | ⟨_, hw⟩)
      · exact Bool.eq_false_iff.mpr hu
      · exact hfront w hw

/-- After each editor that is still to be created a text is still to be set. -/
def Followed : List ViewTask → Prop
  | [] => True
  | .create _ :: rest => texts rest ≠ [] ∧ Followed rest
  | _ :: rest => Followed rest

/-- A text that is posted last follows everything. -/
theorem followed_append_setText (ts : List ViewTask) (text : JString) :
    Followed (ts ++ [.setText text]) := by
  induction ts with
  | nil => trivial
  | cons t ts ih =>
    cases t with
    | create extension => exact ⟨by simp [texts_append, texts], ih⟩
    | setExtension extension => exact ih
    | setText text => exact ih

theorem Followed.append_setExtension (h : Followed ts) (extension : JString) :
    Followed (ts ++ [.setExtension extension]) := by
  induction ts with
  | nil => trivial
  | cons t ts ih =>
    cases t with
    | create extension' => exact ⟨by simpa [texts_append, texts] using h.1, ih h.2⟩
    | setExtension extension' => exact ih h
    | setText text => exact ih h

theorem Followed.of_append {front : List ViewTask} (h : Followed (front ++ ts)) : Followed ts := by
  induction front with
  | nil => exact h
  | cons t front ih =>
    cases t with
    | create extension => exact ih h.2
    | setExtension extension => exact ih h
    | setText text => exact ih h

/-- Tasks that are no events stand in nobody's way. -/
theorem Followed.prepend {front : List ViewTask} (hfront : ∀ t ∈ front, t.isEvent = false)
    (h : Followed ts) : Followed (front ++ ts) := by
  induction front with
  | nil => exact h
  | cons t front ih =>
    obtain ⟨ht, hrest⟩ := List.forall_mem_cons.mp hfront
    cases t with
    | setText text => exact ih hrest
    | create extension => exact Bool.noConfusion ht
    | setExtension extension => exact Bool.noConfusion ht

end ViewTask

namespace CodeViewer

open ViewTask

variable {textual : JString → Bool} {v v' v₀ : CodeViewer}

/-- Where the editor is heading: to the extension, and to the text that was posted last. -/
structure Due (textual : JString → Bool) (v : CodeViewer) : Prop where
  extension : (created v.tasks).getLast? = some v.extension ∨
    (created v.tasks = [] ∧ ∃ e, v.editor = some e ∧ e.extension = v.extension)
  text : (texts v.tasks).getLast? = some v.posted ∨
    (texts v.tasks = [] ∧ ∀ e ∈ v.editor, ∀ text ∈ e.text, text = v.posted)
  /-- A new editor gets its text, by a task or by the rest of `setExtension`. -/
  followed : v.changing = false → Followed v.tasks
  /-- Until there is an editor, the oldest task is to create one. -/
  first : v.editor = none → ∃ extension rest, v.tasks = .create extension :: rest
  document : ∀ e ∈ v.editor, e.text.isSome = textual e.extension

/-- `setContent` posts the text that is due from then on. -/
theorem Due.post (h : Due textual v) (content : JString) : Due textual (v.post content) where
  extension := by
    rw [CodeViewer.post, created_append]
    simpa [created] using h.extension
  text := Or.inl (by simp [CodeViewer.post, texts_append, texts])
  followed := fun _ => followed_append_setText _ _
  first := fun hnone => by
    obtain ⟨extension, rest, htasks⟩ := h.first hnone
    exact ⟨extension, rest ++ [.setText (cleanContent content)], by
      rw [CodeViewer.post, htasks, List.cons_append]⟩
  document := h.document

theorem Due.endSetExtension (h : Due textual v) : Due textual v.endSetExtension :=
  let hpost := h.post v.content
  ⟨hpost.extension, hpost.text, fun _ => followed_append_setText _ _, hpost.first, hpost.document⟩

theorem Due.beginSetExtension (h : Due textual v) (extension : JString) :
    Due textual (v.beginSetExtension extension) where
  extension := Or.inl (by simp [CodeViewer.beginSetExtension, created_append, created])
  text := by
    rw [CodeViewer.beginSetExtension, texts_append]
    simpa [texts] using h.text
  followed := fun hchanging => Bool.noConfusion hchanging
  first := fun hnone => by
    obtain ⟨extension', rest, htasks⟩ := h.first hnone
    exact ⟨extension', rest ++ [.create extension], by
      rw [CodeViewer.beginSetExtension, htasks, List.cons_append]⟩
  document := h.document

/-- The first editor of a viewer. -/
theorem due_new (textual : JString → Bool) (language : Option JString) (got : Bool)
    (content extension : JString) :
    Due textual ((blank language got content).beginSetExtension extension).endSetExtension where
  extension := Or.inl rfl
  text := Or.inl rfl
  followed := fun _ => ⟨List.cons_ne_nil _ _, trivial⟩
  first := fun _ => ⟨extension, [.setText (cleanContent content)], rfl⟩
  document := fun _ he => by cases he

theorem due_ofLanguage (language : Option JString) : Due textual (ofLanguage language) :=
  due_new textual language _ [] _

theorem due_ofModel (language : Option JString) (extension content : JString) :
    Due textual (ofModel language extension content) :=
  (due_new textual language true content extension).post content

/-- **Step lemma** for the AWT events. -/
theorem Due.event (h : Due textual v) (hchanging : v.changing = false) {t : ViewTask}
    {rest : List ViewTask} (hnext : nextEvent v.tasks = some (t, rest)) :
    Due textual ({ v with tasks := rest }.runTask textual t) := by
  obtain ⟨front, back, htasks, rfl, ht, hfront⟩ := nextEvent_eq_some hnext
  have hfollowed := (h.followed hchanging)
  rw [htasks] at hfollowed
  have hback := hfollowed.of_append
  have hext := h.extension
  have htext := h.text
  rw [htasks, created_append, created_eq_nil hfront, List.nil_append] at hext
  rw [htasks, texts_append] at htext
  cases t with
  | setText text => exact Bool.noConfusion ht
  | setExtension extension =>
    refine Due.beginSetExtension (v := { v with tasks := front ++ back }) ?_ extension
    refine ⟨?_, ?_, fun _ => hback.prepend hfront, fun hnone => ?_, h.document⟩
    · rw [created_append, created_eq_nil hfront]
      exact hext
    · rw [texts_append]
      exact htext
    · -- the oldest task is not this one
      obtain ⟨extension', others, hfirst⟩ := h.first hnone
      cases front with
      | nil => cases htasks.symm.trans hfirst
      | cons u front =>
        obtain ⟨rfl, -⟩ := List.cons.inj (htasks.symm.trans hfirst)
        exact Bool.noConfusion (hfront _ List.mem_cons_self)
  | create extension =>
    obtain ⟨hne, hback⟩ := hback
    refine ⟨?_, Or.inl ?_, fun _ => hback.prepend hfront, fun hnone => (nomatch hnone), ?_⟩
    · show (created (front ++ back)).getLast? = some v.extension ∨ _
      rw [created_append, created_eq_nil hfront, List.nil_append]
      rcases hext with hlast | ⟨hnil, _⟩
      · rw [created] at hlast
        cases hcreated : created back with
        | nil =>
          rw [hcreated] at hlast
          exact Or.inr ⟨by rw [runTask, created_append, created_eq_nil hfront, hcreated]; rfl,
            _, rfl, Option.some.inj hlast⟩
        | cons e es =>
          rw [hcreated, List.getLast?_cons_cons] at hlast
          exact Or.inl hlast
      · cases hnil
    · -- its text is still to come
      show (texts (front ++ back)).getLast? = some v.posted
      rw [texts_append]
      rcases htext with hlast | ⟨hnil, _⟩
      · exact hlast
      · exact absurd (List.append_eq_nil_iff.mp hnil).2 hne
    · rintro e he
      obtain rfl := Option.some.inj he
      show (if textual extension then some (ofString "py") else none).isSome = _
      cases textual extension <;> rfl

/-- **Step lemma** for the other tasks. -/
theorem Due.later (h : Due textual v) {text : JString} {rest : List ViewTask}
    (htasks : v.tasks = .setText text :: rest) :
    Due textual ({ v with tasks := rest }.runTask textual (.setText text)) := by
  have hext := h.extension
  have htext := h.text
  rw [htasks] at hext htext
  -- the oldest task creates no editor, so there is one
  obtain ⟨e, he⟩ : ∃ e, v.editor = some e := by
    cases hv : v.editor with
    | some e => exact ⟨e, rfl⟩
    | none =>
      obtain ⟨extension, others, hfirst⟩ := h.first hv
      cases htasks.symm.trans hfirst
  have heditor : ({ v with tasks := rest }.runTask textual (.setText text)).editor =
      some { e with text := e.text.map fun _ => text } := by
    rw [runTask, he]
    rfl
  refine ⟨?_, ?_, fun hchanging => ?_, fun hnone => ?_, ?_⟩
  · rcases hext with hlast | ⟨hnil, e', he', hext'⟩
    · exact Or.inl hlast
    · rw [he] at he'
      obtain rfl := Option.some.inj he'
      exact Or.inr ⟨hnil, _, heditor, hext'⟩
  · rcases htext with hlast | ⟨hnil, _⟩
    · rw [texts] at hlast
      cases htexts : texts rest with
      | nil =>
        rw [htexts] at hlast
        refine Or.inr ⟨htexts, fun e' he' text' htext' => ?_⟩
        rw [heditor] at he'
        obtain rfl := Option.some.inj he'
        obtain ⟨_, _, rfl⟩ := Option.map_eq_some_iff.mp htext'
        exact Option.some.inj hlast
      | cons u us =>
        rw [htexts, List.getLast?_cons_cons, ← htexts] at hlast
        exact Or.inl hlast
    · cases hnil
  · have hfollowed := h.followed hchanging
    rw [htasks] at hfollowed
    exact hfollowed
  · rw [heditor] at hnone
    cases hnone
  · rintro e' he'
    rw [heditor] at he'
    obtain rfl := Option.some.inj he'
    rw [Option.isSome_map]
    exact h.document e he

/-- The statements that leave the view's tasks alone keep what is due. -/
theorem Due.congr (h : Due textual v) (hextension : v'.extension = v.extension)
    (heditor : v'.editor = v.editor) (htasks : v'.tasks = v.tasks)
    (hchanging : v'.changing = v.changing) (hposted : v'.posted = v.posted) : Due textual v' where
  extension := by rw [htasks, hextension, heditor]; exact h.extension
  text := by rw [htasks, hposted, heditor]; exact h.text
  followed := by rw [htasks, hchanging]; exact h.followed
  first := by rw [htasks, heditor]; exact h.first
  document := by rw [heditor]; exact h.document

theorem due_predictPartial (throws : Bool) (h : Due textual v) :
    Due textual (v.predictPartial throws) := by
  unfold predictPartial predictExtension
  split_ifs <;> first | exact h | exact h.congr rfl rfl rfl rfl rfl

theorem due_onFinished (throws : Bool) (h : Due textual v) : Due textual (v.onFinished throws) := by
  unfold onFinished predictExtension
  split_ifs <;> first | exact h | exact h.congr rfl rfl rfl rfl rfl

theorem due_onComplete (answer : JString) (h : Due textual v) :
    Due textual (v.onComplete answer) := by
  unfold onComplete
  split
  · exact h
  · refine ⟨?_, ?_, fun hchanging => (h.followed hchanging).append_setExtension _, fun hnone => ?_,
      h.document⟩
    · rw [created_append]
      simpa [created] using h.extension
    · rw [texts_append]
      simpa [texts] using h.text
    · obtain ⟨extension, rest, htasks⟩ := h.first hnone
      exact ⟨extension, _, by rw [htasks, List.cons_append]⟩

theorem step_eq_some {a : ViewerStep} :
    (machine textual v₀).step v a = some v' ↔ v.ready a = true ∧ v.perform textual a = v' := by
  simp [machine]

/-- **Step lemma.** -/
theorem due_step (a : ViewerStep) (h : Due textual v)
    (hstep : (machine textual v₀).step v a = some v') : Due textual v' := by
  obtain ⟨hready, rfl⟩ := step_eq_some.mp hstep
  cases a with
  | setContent content prediction => exact (h.post content).congr rfl rfl rfl rfl rfl
  | storeContent throws =>
    show Due textual (v.storeContent throws)
    unfold storeContent
    split
    · exact h
    · exact due_predictPartial throws (h.congr rfl rfl rfl rfl rfl)
    · exact h.congr rfl rfl rfl rfl rfl
  | onFinished throws => exact due_onFinished throws h
  | onComplete answer => exact due_onComplete answer (h.congr rfl rfl rfl rfl rfl)
  | onError => exact h.congr rfl rfl rfl rfl rfl
  | event =>
    simp only [ready, Bool.and_eq_true, Bool.not_eq_true'] at hready
    show Due textual (v.takeEvent textual)
    unfold takeEvent
    split
    · exact h
    · next t rest hnext => exact h.event hready.1 hnext
  | later =>
    simp only [ready, Bool.and_eq_true] at hready
    show Due textual (v.takeTask textual)
    unfold takeTask
    split
    · exact h
    · next t rest htasks =>
      rw [htasks] at hready
      cases t with
      | setText text => exact h.later htasks
      | create extension => exact Bool.noConfusion hready.2
      | setExtension extension => exact Bool.noConfusion hready.2
  | endSetExtension => exact h.endSetExtension

/-! ### What is shown -/

/-- No statement of a call and no task is left. -/
structure AtRest (v : CodeViewer) : Prop where
  tasks : v.tasks = []
  setting : v.setting = none
  changing : v.changing = false

/-- The editor shows the content under the extension. -/
def Shows (textual : JString → Bool) (v : CodeViewer) : Prop :=
  v.editor =
    some ⟨v.extension, if textual v.extension then some (cleanContent v.content) else none⟩

/-- The statement does not read the content while `setContent` has posted another one that is not
    stored yet. -/
def ReadsStored (v : CodeViewer) : ViewerStep → Prop
  | .endSetExtension => v.setting = none
  | _ => True

instance : ∀ v a, Decidable (ReadsStored v a)
  | v, .endSetExtension => inferInstanceAs (Decidable (v.setting = none))
  | _, .setContent _ _ | _, .storeContent _ | _, .onFinished _ | _, .onComplete _ | _, .onError
  | _, .event | _, .later => .isTrue trivial

/-- The text that was posted last is that of the content, or of the one about to be stored. -/
def Current (v : CodeViewer) : Prop :=
  v.posted = cleanContent (v.setting.elim v.content Prod.fst)

/-- At rest, the editor is what was due. -/
theorem Due.editor (h : Due textual v) (hrest : v.tasks = []) :
    v.editor = some ⟨v.extension, if textual v.extension then some v.posted else none⟩ := by
  have hext := h.extension
  have htext := h.text
  rw [hrest] at hext htext
  rcases hext with hlast | ⟨_, ⟨extension, text⟩, he, hextension⟩
  · cases hlast
  rcases htext with hlast | ⟨_, htext⟩
  · cases hlast
  obtain rfl : extension = v.extension := hextension
  have hsome : text.isSome = textual v.extension := h.document _ he
  rw [he, ← hsome]
  cases text with
  | none => rfl
  | some text =>
    rw [htext _ he text rfl]
    rfl

theorem current_predictPartial (throws : Bool) (h : v.setting = none) :
    Current (v.predictPartial throws) ↔ v.posted = cleanContent v.content := by
  unfold predictPartial predictExtension Current
  split_ifs <;> simp [h]

theorem current_onFinished (throws : Bool) : Current (v.onFinished throws) ↔ Current v := by
  unfold onFinished predictExtension Current
  split_ifs <;> rfl

theorem current_onComplete (answer : JString) : Current (v.onComplete answer) ↔ Current v := by
  unfold onComplete Current
  split <;> rfl

theorem current_runTask (t : ViewTask) : Current (v.runTask textual t) ↔ Current v := by
  cases t <;> rfl

/-- **Step lemma.** -/
theorem current_step (a : ViewerStep) (h : Current v) (hreads : ReadsStored v a)
    (hstep : (machine textual v₀).step v a = some v') : Current v' := by
  obtain ⟨_, rfl⟩ := step_eq_some.mp hstep
  cases a with
  | setContent content prediction => exact rfl
  | storeContent throws =>
    show Current (v.storeContent throws)
    unfold Current at h
    unfold storeContent
    split
    · exact h
    · next content hsetting =>
      rw [hsetting] at h
      exact (current_predictPartial throws rfl).mpr h
    · next content hsetting =>
      rw [hsetting] at h
      exact h
  | onFinished throws => exact (current_onFinished throws).mpr h
  | onComplete answer => exact (current_onComplete answer).mpr h
  | onError => exact h
  | event =>
    show Current (v.takeEvent textual)
    unfold takeEvent
    split
    · exact h
    · next t rest _ => exact (current_runTask t).mpr h
  | later =>
    show Current (v.takeTask textual)
    unfold takeTask
    split
    · exact h
    · next t rest _ => exact (current_runTask t).mpr h
  | endSetExtension =>
    have hnone : v.setting = none := hreads
    show cleanContent v.content = cleanContent (v.setting.elim v.content Prod.fst)
    rw [hnone]
    rfl

/-- A viewer that was just made. -/
inductive New : CodeViewer → Prop where
  | ofLanguage (language : Option JString) : New (ofLanguage language)
  | ofModel (language : Option JString) (extension content : JString) :
    New (ofModel language extension content)

/-- A viewer that was just made, or one in any run that has just been handed a content. -/
inductive Handed (textual : JString → Bool) (v₀ : CodeViewer) : CodeViewer → Prop where
  | new : Handed textual v₀ v₀
  | setContent {as : List ViewerStep} {v v' : CodeViewer} {content : JString} {prediction : Bool}
    (hrun : (machine textual v₀).run v₀ as = some v)
    (hstep : (machine textual v₀).step v (.setContent content prediction) = some v') :
    Handed textual v₀ v'

theorem due_of_new (hnew : New v₀) : Due textual v₀ := by
  cases hnew with
  | ofLanguage language => exact due_ofLanguage language
  | ofModel language extension content => exact due_ofModel language extension content

theorem due_of_run {as : List ViewerStep} (hnew : New v₀)
    (hrun : (machine textual v₀).run v₀ as = some v) : Due textual v :=
  Lts.invariant_of_run (fun _ a _ h hstep => due_step a h hstep) (due_of_new hnew) hrun

/-- **The viewer shows its content.** From the constructor on, and again from every content that
    is handed over: if `setExtension` does not read the content in the middle of a `setContent`,
    then with nothing left to run the editor has the model's extension and the cleaned content,
    in whatever order the tasks ran. -/
theorem shows_of_meets (hnew : New v₀) (hhanded : Handed textual v₀ v) {as : List ViewerStep}
    (hmeets : (machine textual v₀).Meets ReadsStored v as)
    (hrun : (machine textual v₀).run v as = some v') (hrest : AtRest v') : Shows textual v' := by
  obtain ⟨hdue, hcurrent⟩ : Due textual v ∧ Current v := by
    cases hhanded with
    | new =>
      refine ⟨due_of_new hnew, ?_⟩
      cases hnew with
      | ofLanguage language => exact rfl
      | ofModel language extension content => exact rfl
    | setContent hbefore hstep =>
      refine ⟨due_step _ (due_of_run hnew hbefore) hstep, ?_⟩
      obtain ⟨_, rfl⟩ := step_eq_some.mp hstep
      exact rfl
  have hdue' : Due textual v' :=
    Lts.invariant_of_run (fun _ a _ h hstep => due_step a h hstep) hdue hrun
  have hcurrent' : Current v' :=
    Lts.invariant_of_meets (fun _ a _ h hreads hstep => current_step a h hreads hstep) hcurrent
      hmeets hrun
  rw [Current, hrest.setting] at hcurrent'
  have hposted : v'.posted = cleanContent v'.content := hcurrent'
  rw [Shows, hdue'.editor hrest.tasks, hposted]

/-- A viewer without a language: the extension is predicted once the part is finished. -/
def predictedRun : List ViewerStep :=
  [.event, .later, .setContent (ofString "1: let x") true, .storeContent false, .later,
    .onFinished false, .onComplete (ofString " js\n"), .event, .endSetExtension, .event, .later]

theorem shows_predictedRun :
    ∃ v, (machine (fun _ => true) (ofLanguage none)).run (ofLanguage none) predictedRun = some v ∧
      v.extension = ofString "js" ∧ Shows (fun _ => true) v := by
  obtain ⟨v, hrun⟩ : ∃ v, (machine (fun _ => true) (ofLanguage none)).run (ofLanguage none)
      predictedRun = some v := ⟨_, rfl⟩
  have hrest : AtRest v ∧ v.extension = ofString "js" := by
    obtain rfl := Option.some.inj hrun
    exact ⟨⟨rfl, rfl, rfl⟩, rfl⟩
  exact ⟨v, hrun, hrest.2, shows_of_meets (.ofLanguage none) .new (by decide) hrun hrest.1⟩

-- a content that is not stored yet when `setExtension` reads it is lost from the editor
example : ((machine (fun _ => true) (ofLanguage none)).run (ofLanguage none)
    [.onFinished false, .onComplete (ofString "js"), .event, .event,
      .setContent (ofString "a") true, .endSetExtension, .storeContent false, .event, .later, .later,
      .later]).map (fun v => (v.content, v.editor)) =
      some (ofString "a", some ⟨ofString "js", some []⟩) := by
  decide

/-! ### When the extension is asked for -/

/-- The requests of a viewer, and where its extension comes from: `source` tells the extensions
    that were predicted. -/
structure Asks (v₀ : CodeViewer) (source : JString → Prop) (v : CodeViewer) : Prop where
  asked : v.asked ≤ v.predictedPartial.toNat + v.predicted.toNat
  unanswered : v.unanswered ≤ v.asked
  known : v.gotExtensionFromLanguage = v₀.gotExtensionFromLanguage
  notAsked : v.gotExtensionFromLanguage = true → v.asked = 0
  extension : v.extension = v₀.extension ∨ (0 < v.asked ∧ source v.extension)
  pending : ∀ extension, .setExtension extension ∈ v.tasks → 0 < v.asked ∧ source extension

variable {source : JString → Prop}

theorem asks_new (hnew : New v₀) : Asks v₀ source v₀ := by
  cases hnew with
  | ofLanguage language =>
    exact ⟨Nat.zero_le _, Nat.zero_le _, rfl, fun _ => rfl, Or.inl rfl, by
      simp [ofLanguage, blank, CodeViewer.beginSetExtension, CodeViewer.endSetExtension,
        CodeViewer.post]⟩
  | ofModel language extension content =>
    exact ⟨Nat.zero_le _, Nat.zero_le _, rfl, fun _ => rfl, Or.inl rfl, by
      simp [ofModel, blank, CodeViewer.beginSetExtension, CodeViewer.endSetExtension,
        CodeViewer.post]⟩

/-- A statement that leaves the requests alone and posts no `setExtension`. -/
theorem Asks.congr (h : Asks v₀ source v) (hpiece : v'.predictedPartial = v.predictedPartial)
    (hpredicted : v'.predicted = v.predicted) (hasked : v'.asked = v.asked)
    (hunanswered : v'.unanswered ≤ v.unanswered)
    (hknown : v'.gotExtensionFromLanguage = v.gotExtensionFromLanguage)
    (hextension : v'.extension = v.extension ∨ .setExtension v'.extension ∈ v.tasks)
    (htasks : ∀ extension, .setExtension extension ∈ v'.tasks → .setExtension extension ∈ v.tasks) :
    Asks v₀ source v' where
  asked := by rw [hasked, hpiece, hpredicted]; exact h.asked
  unanswered := by rw [hasked]; exact hunanswered.trans h.unanswered
  known := hknown.trans h.known
  notAsked := by rw [hknown, hasked]; exact h.notAsked
  extension := by
    rw [hasked]
    rcases hextension with heq | hmem
    · rw [heq]
      exact h.extension
    · exact Or.inr (h.pending _ hmem)
  pending := fun extension hmem => by
    rw [hasked]
    exact h.pending extension (htasks extension hmem)

/-- A request that is made for the first of two reasons, or for the other. -/
theorem Asks.predictExtension (h : Asks v₀ source v) (throws : Bool) {predictedPartial predicted : Bool}
    (hflags : v.predictedPartial.toNat + v.predicted.toNat <
      predictedPartial.toNat + predicted.toNat) :
    Asks v₀ source { (v.predictExtension throws).1 with predictedPartial, predicted } := by
  have hasked := h.asked
  have hunanswered := h.unanswered
  unfold CodeViewer.predictExtension
  split_ifs with hgot hthrows
  · exact ⟨by simp only; omega, h.unanswered, h.known, h.notAsked, h.extension, h.pending⟩
  · exact ⟨by simp only; omega, h.unanswered, h.known, h.notAsked, h.extension, h.pending⟩
  · refine ⟨by simp only; omega, by simp only; omega, h.known, fun hgot' => absurd hgot' hgot,
      h.extension.imp_right fun hsource => ⟨Nat.succ_pos _, hsource.2⟩,
      fun extension hmem => ⟨Nat.succ_pos _, (h.pending extension hmem).2⟩⟩

theorem Asks.predictPartial (h : Asks v₀ source v) (throws : Bool) :
    Asks v₀ source (v.predictPartial throws) := by
  unfold CodeViewer.predictPartial
  split
  · next hlong =>
    have hfirst : v.predictedPartial = false := by
      rw [Bool.and_eq_true, Bool.not_eq_true'] at hlong
      exact hlong.1
    have hasks := @Asks.predictExtension v v₀ source h throws true v.predicted (by simp [hfirst])
    refine hasks.congr ?_ ?_ ?_ (le_of_eq ?_) ?_ (Or.inl ?_) ?_ <;>
      unfold CodeViewer.predictExtension <;> split_ifs <;> first | rfl | exact fun _ hmem => hmem
  · exact h

theorem Asks.onFinished (h : Asks v₀ source v) (throws : Bool) :
    Asks v₀ source (v.onFinished throws) := by
  unfold CodeViewer.onFinished
  split
  · exact h
  · next hpredicted =>
    have hasks := @Asks.predictExtension v v₀ source h throws v.predictedPartial true
      (by simp [hpredicted])
    unfold CodeViewer.predictExtension at hasks ⊢
    split_ifs at hasks ⊢
    · exact hasks
    · -- making the request has thrown
      exact h
    · exact hasks

theorem Asks.onComplete (h : Asks v₀ source v) (hsome : 0 < v.asked) {answer : JString}
    (hanswer : source (predictedExtension answer)) : Asks v₀ source (v.onComplete answer) := by
  unfold CodeViewer.onComplete
  split
  · exact h
  · refine ⟨h.asked, h.unanswered, h.known, h.notAsked, h.extension, fun extension hmem => ?_⟩
    rcases List.mem_append.mp hmem with hmem | hmem
    · exact h.pending extension hmem
    · rw [List.mem_singleton] at hmem
      obtain rfl := ViewTask.setExtension.inj hmem
      exact ⟨hsome, hanswer⟩

theorem Asks.runTask (h : Asks v₀ source v) {t : ViewTask} {rest : List ViewTask}
    (ht : t ∈ v.tasks) (hrest : ∀ u ∈ rest, u ∈ v.tasks) :
    Asks v₀ source ({ v with tasks := rest }.runTask textual t) := by
  cases t with
  | setExtension extension =>
    refine h.congr rfl rfl rfl le_rfl rfl (Or.inr ht) fun extension' hmem => ?_
    rcases List.mem_append.mp hmem with hmem | hmem
    · exact hrest _ hmem
    · cases List.mem_singleton.mp hmem
  | create extension =>
    exact h.congr rfl rfl rfl le_rfl rfl (Or.inl rfl) fun _ hmem => hrest _ hmem
  | setText text =>
    exact h.congr rfl rfl rfl le_rfl rfl (Or.inl rfl) fun _ hmem => hrest _ hmem

theorem Asks.post (h : Asks v₀ source v) (content : JString) : Asks v₀ source (v.post content) :=
  h.congr rfl rfl rfl le_rfl rfl (Or.inl rfl) fun extension hmem => by
    rcases List.mem_append.mp hmem with hmem | hmem
    · exact hmem
    · cases List.mem_singleton.mp hmem

/-- **Step lemma.** -/
theorem asks_step (a : ViewerStep) (h : Asks v₀ source v)
    (hsource : ∀ answer, a = .onComplete answer → source (predictedExtension answer))
    (hstep : (machine textual v₀).step v a = some v') : Asks v₀ source v' := by
  obtain ⟨hready, rfl⟩ := step_eq_some.mp hstep
  have hkept : ∀ {w : CodeViewer}, w.predictedPartial = v.predictedPartial →
      w.predicted = v.predicted → w.asked = v.asked → w.unanswered ≤ v.unanswered →
      w.gotExtensionFromLanguage = v.gotExtensionFromLanguage → w.extension = v.extension →
      w.tasks = v.tasks → Asks v₀ source w :=
    fun h₁ h₂ h₃ h₄ h₅ h₆ h₇ => h.congr h₁ h₂ h₃ h₄ h₅ (Or.inl h₆) fun _ hmem => h₇ ▸ hmem
  cases a with
  | setContent content prediction =>
    exact (h.post content).congr rfl rfl rfl le_rfl rfl (Or.inl rfl) fun _ hmem => hmem
  | storeContent throws =>
    show Asks v₀ source (v.storeContent throws)
    unfold storeContent
    split
    · exact h
    · refine Asks.predictPartial ?_ throws
      exact hkept rfl rfl rfl le_rfl rfl rfl rfl
    · exact hkept rfl rfl rfl le_rfl rfl rfl rfl
  | onFinished throws => exact h.onFinished throws
  | onComplete answer =>
    have hwaiting : 0 < v.unanswered := by simpa [ready] using hready
    have hanswered : Asks v₀ source { v with unanswered := v.unanswered - 1 } :=
      hkept rfl rfl rfl (Nat.sub_le _ _) rfl rfl rfl
    exact hanswered.onComplete (hwaiting.trans_le h.unanswered) (hsource answer rfl)
  | onError => exact hkept rfl rfl rfl (Nat.sub_le _ _) rfl rfl rfl
  | event =>
    show Asks v₀ source (v.takeEvent textual)
    unfold takeEvent
    split
    · exact h
    · next t rest hnext =>
      obtain ⟨front, back, htasks, rfl, -, -⟩ := nextEvent_eq_some hnext
      exact h.runTask (by simp [htasks]) (by rw [htasks]; grind)
  | later =>
    show Asks v₀ source (v.takeTask textual)
    unfold takeTask
    split
    · exact h
    · next t rest htasks => exact h.runTask (by simp [htasks]) fun u hu => by simp [htasks, hu]
  | endSetExtension =>
    exact (h.post v.content).congr rfl rfl rfl le_rfl rfl (Or.inl rfl) fun _ hmem => hmem

/-- **When the extension is asked for.** In every run a viewer makes at most two requests, and
    none if its language tells the extension or the part was loaded.  Its extension is the one
    it was made with, or was predicted by an answer to a request. -/
theorem asks_of_run (hnew : New v₀) {as : List ViewerStep}
    (hrun : (machine textual v₀).run v₀ as = some v) :
    v.asked ≤ 2 ∧ (v.asked = 2 → v.predictedPartial = true ∧ v.predicted = true) ∧
      (v₀.gotExtensionFromLanguage = true → v.asked = 0 ∧ v.extension = v₀.extension) ∧
      (v.extension = v₀.extension ∨
        ∃ answer, .onComplete answer ∈ as ∧ v.extension = predictedExtension answer) := by
  have h : Asks v₀ (fun e => ∃ answer, .onComplete answer ∈ as ∧ e = predictedExtension answer) v :=
    Lts.invariant_of_meets (fun _ a _ h hsource hstep => asks_step a h hsource hstep)
      (asks_new hnew)
      (Lts.meets_of_mem (fun a ha _ answer hanswer => ⟨answer, hanswer ▸ ha, rfl⟩) v₀) hrun
  have hasked := h.asked
  refine ⟨?_, fun htwo => ?_, fun hgot => ?_, h.extension.imp_right And.right⟩
  · have := v.predictedPartial.toNat_le
    have := v.predicted.toNat_le
    omega
  · rw [htwo] at hasked
    revert hasked
    cases v.predictedPartial <;> cases v.predicted <;> decide
  · have hnone := h.notAsked (h.known.trans hgot)
    exact ⟨hnone, h.extension.resolve_right fun hsome => by omega⟩

/-- The run above makes one of the two requests. -/
theorem asks_predictedRun : ∃ v, (machine (fun _ => true) (ofLanguage none)).run (ofLanguage none)
    predictedRun = some v ∧ v.asked = 1 ∧ v.asked ≤ 2 := by
  obtain ⟨v, hrun⟩ : ∃ v, (machine (fun _ => true) (ofLanguage none)).run (ofLanguage none)
      predictedRun = some v := ⟨_, rfl⟩
  have hasked : v.asked = 1 := by
    obtain rfl := Option.some.inj hrun
    rfl
  exact ⟨v, hrun, hasked, (asks_of_run (.ofLanguage none) hrun).1⟩

end CodeViewer

end Reloadium.Ai
