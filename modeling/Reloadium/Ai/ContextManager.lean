import Reloadium.Lib.JString
import Mathlib.Data.List.Induction

namespace Reloadium.Ai

open Reloadium.Lib

/-!
# Ai — the contexts of the chat

Model of `rw.ai.context.ContextManager`, of `ContextFactory` and of the popup menus the
context buttons of the prompts build from the list.  A caret event rebuilds the list from
what stands at the caret, a selection event replaces or appends its last element, and three
operations move the current context only.  Every one of them notifies the prompts, which
rebuild their menus.

What the platform finds at the caret is an input (`Element`, `Debug`); an event on which
`caretPositionChanged` returns early or throws reaches the manager as `none`.  Contexts are
compared by reference in the source, so each carries the number it was built under.

`Inv` is the invariant of the list, the current context and the menus; `contextManager_inv`
says that it holds in every reachable state.
-/

/-- `ContextType`. -/
inductive ContextType where
  | CLASS
  | FUNCTION
  | METHOD
  | FRAME
  | SELECTION
  | FRAME_ERROR
  | NONE
deriving DecidableEq, Repr

/-- The class of a context and what its constructor is given. -/
inductive ContextData where
  | none
  | selection (file : Option String) (code : JString) (firstLine lastLine : Int)
  | klass (file klass : String)
  | function (file function : String)
  | method (file function klass : String)
  | frame (file function : String)
  | frameError (file function : String) (errorMsg : String) (errorLine : Int)
deriving DecidableEq, Repr

/-- A context object; `id` tells it from every other one. -/
structure Context where
  id : Nat
  data : ContextData
deriving DecidableEq, Repr

/-- `Context.getType`. -/
def Context.getType (c : Context) : ContextType :=
  match c.data with
  | .none => .NONE
  | .selection _ _ _ _ => .SELECTION
  | .klass _ _ => .CLASS
  | .function _ _ => .FUNCTION
  | .method _ _ _ => .METHOD
  | .frame _ _ => .FRAME
  | .frameError _ _ _ _ => .FRAME_ERROR

/-- A `PyFunction` and its containing class. -/
structure PyFunction where
  name : String
  containingClass : Option String
deriving DecidableEq, Repr

/-- What `ContextFactory` reads of the element at the caret. -/
structure Element where
  file : String
  hasDocument : Bool
  function : Option PyFunction
  klass : Option String
deriving DecidableEq, Repr

/-- The top frame of the debug session: its function and the file of its source
    position. -/
structure StackFrame where
  name : String
  file : Option String
deriving DecidableEq, Repr

/-- What `ContextFactory` reads of the debug handler: the top frame, if there is a session
    that has one, and the message and line of the active thread's error. -/
structure Debug where
  stackFrame : Option StackFrame
  activeError : Option (String × Int)
deriving DecidableEq, Repr

/-- The contexts of a function. -/
def functionContexts (file : String) (function : PyFunction) (debug : Debug) :
    List ContextData :=
  let context := match function.containingClass with
    | some klass => .method file function.name klass
    | none => .function file function.name
  let frame := match debug.stackFrame with
    | none => []
    | some stackFrame =>
      -- the debugger stands in this very function
      if stackFrame.file = some file ∧ stackFrame.name = function.name then
        match debug.activeError with
        | some (errorMsg, errorLine) =>
          [.frameError file function.name errorMsg errorLine]
        | none => [.frame file function.name]
      else []
  context :: frame

/-- `ContextFactory.createContext`. -/
def createContext (element : Option Element) (debug : Debug) : List ContextData :=
  match element with
  | none => []
  | some element =>
    if element.hasDocument then
      (match element.klass with
        | some klass => [.klass element.file klass]
        | none => []) ++
      (match element.function with
        | some function => functionContexts element.file function debug
        | none => [])
    else []

/-- `ContextManager`, with the popup menu of every registered prompt. -/
structure ContextManager where
  contexts : List Context
  currentContext : Context
  nextId : Nat
  popupMenus : List (List Context)
deriving DecidableEq, Repr

namespace ContextManager

/-- `notifyCurrentContextChanged`: every prompt builds its menu from the list. -/
def notifyCurrentContextChanged (s : ContextManager) : ContextManager :=
  { s with popupMenus := s.popupMenus.map fun _ => s.contexts }

/-- `onContextChanged(Context)`, on a new context. -/
def onContextChanged (s : ContextManager) (data : ContextData) : ContextManager :=
  let context : Context := ⟨s.nextId, data⟩
  notifyCurrentContextChanged
    { s with contexts := [context], currentContext := context, nextId := s.nextId + 1 }

/-- `reset`. -/
def reset (s : ContextManager) : ContextManager := s.onContextChanged .none

/-- The objects built one after the other. -/
def objects (nextId : Nat) : List ContextData → List Context
  | [] => []
  | data :: rest => ⟨nextId, data⟩ :: objects (nextId + 1) rest

/-- `onContextChanged(List<Context>)`. -/
def onContextsChanged (s : ContextManager) (contexts : List ContextData) : ContextManager :=
  -- `reset` notifies the prompts of the list with the none context alone
  let s := s.reset
  let all := s.contexts ++ objects s.nextId contexts
  notifyCurrentContextChanged
    { s with
      contexts := all
      currentContext := all.getLast?.getD s.currentContext
      nextId := s.nextId + contexts.length }

/-- `setSelectionContext`, on a new context. -/
def setSelectionContext (s : ContextManager) (data : ContextData) : ContextManager :=
  let context : Context := ⟨s.nextId, data⟩
  let contexts :=
    if s.contexts.getLast?.map Context.getType = some .SELECTION then
      s.contexts.set (s.contexts.length - 1) context
    else s.contexts ++ [context]
  notifyCurrentContextChanged
    { s with contexts := contexts, currentContext := context, nextId := s.nextId + 1 }

/-- `setCurrentContext`. -/
def setCurrentContext (s : ContextManager) (context : Context) : ContextManager :=
  notifyCurrentContextChanged { s with currentContext := context }

/-- The index `setPreviousContextToCurrent` computes.  `indexOf` gives -1 for an object that
    is not in the list. -/
def previousIndex (s : ContextManager) : Nat :=
  let i := s.contexts.idxOf s.currentContext
  if 0 < i ∧ i < s.contexts.length then i - 1 else s.contexts.length - 1

/-- `setCurrentContext(this.contexts.get(i))`. -/
def setCurrentIndex (s : ContextManager) (i : Nat) : ContextManager :=
  match s.contexts[i]? with
  | none => s
  | some context => s.setCurrentContext context

/-- `setPreviousContextToCurrent`. -/
def setPreviousContextToCurrent (s : ContextManager) : ContextManager :=
  s.setCurrentIndex s.previousIndex

/-- `setCurrentContextToNone`. -/
def setCurrentContextToNone (s : ContextManager) : ContextManager := s.setCurrentIndex 0

/-- The action of the `item`-th item of the menu of the `prompt`-th prompt. -/
def pick (s : ContextManager) (prompt item : Nat) : ContextManager :=
  match s.popupMenus[prompt]?.bind (·[item]?) with
  | none => s
  | some context => s.setCurrentContext context

/-- The manager its constructor builds. -/
def new : ContextManager :=
  reset { contexts := [], currentContext := ⟨0, .none⟩, nextId := 0, popupMenus := [] }

end ContextManager

/-- A caret event: what was found, unless the listener returned early or threw. -/
abbrev CaretEvent := Option (Option Element × Debug)

/-- A selection event.  For an empty range the listener passes a caret event on. -/
inductive SelectionEvent where
  | empty (caret : CaretEvent)
  | range (file : Option String) (code : JString) (firstLine lastLine : Int)
deriving DecidableEq, Repr

/-- What happens to the manager. -/
inductive ContextEvent where
  | caretPositionChanged (event : CaretEvent)
  | selectionChanged (event : SelectionEvent)
  | reset
  | setPreviousContextToCurrent
  | setCurrentContextToNone
  /-- the `item`-th item of the menu of the `prompt`-th prompt is picked -/
  | pick (prompt item : Nat)
  /-- a prompt is built and registers itself -/
  | addPrompt
deriving DecidableEq, Repr

namespace ContextManager

/-- `caretPositionChanged`. -/
def caretPositionChanged (s : ContextManager) : CaretEvent → ContextManager
  | none => s
  | some (element, debug) => s.onContextsChanged (createContext element debug)

/-- `selectionChanged`. -/
def selectionChanged (s : ContextManager) : SelectionEvent → ContextManager
  | .empty caret => s.caretPositionChanged caret
  | .range file code firstLine lastLine =>
    if code.isBlank then s
    else s.setSelectionContext (.selection file code firstLine lastLine)

/-- One event. -/
def step (s : ContextManager) : ContextEvent → ContextManager
  | .caretPositionChanged event => s.caretPositionChanged event
  | .selectionChanged event => s.selectionChanged event
  | .reset => s.reset
  | .setPreviousContextToCurrent => s.setPreviousContextToCurrent
  | .setCurrentContextToNone => s.setCurrentContextToNone
  | .pick prompt item => s.pick prompt item
  | .addPrompt => { s with popupMenus := s.popupMenus ++ [s.contexts] }

/-- The manager after the given events. -/
def run (events : List ContextEvent) : ContextManager := events.foldl step new

/-! ### The invariant -/

/-- The list starts with its only none context, and a selection can only be its last
    element. -/
structure ListOk (contexts : List Context) : Prop where
  head : ∃ c, contexts[0]? = some c ∧ c.getType = .NONE
  none_first : ∀ i c, contexts[i]? = some c → c.getType = .NONE → i = 0
  selection_last : ∀ i c, contexts[i]? = some c → c.getType = .SELECTION →
    i + 1 = contexts.length

/-- The list is as it should be, the current context is one of it, and the menu of every
    prompt lists it. -/
structure Inv (s : ContextManager) : Prop where
  list : ListOk s.contexts
  current_mem : s.currentContext ∈ s.contexts
  menus : ∀ menu ∈ s.popupMenus, menu = s.contexts

/-- After a notification every menu lists the contexts. -/
theorem menus_notify (s : ContextManager) :
    ∀ menu ∈ s.notifyCurrentContextChanged.popupMenus, menu = s.contexts := by
  intro menu hmenu
  obtain ⟨_, _, rfl⟩ := List.mem_map.mp hmenu
  rfl

/-- Moving the current context within the list keeps the invariant. -/
theorem inv_setCurrentContext {s : ContextManager} (h : Inv s) {c : Context}
    (hc : c ∈ s.contexts) : Inv (s.setCurrentContext c) :=
  ⟨h.list, hc, menus_notify _⟩

/-! ### Building and patching the list -/

/-- A none context, and neither a none context nor a selection after it. -/
theorem listOk_cons {c : Context} {rest : List Context} (hc : c.getType = .NONE)
    (hrest : ∀ d ∈ rest, d.getType ≠ .NONE ∧ d.getType ≠ .SELECTION) :
    ListOk (c :: rest) := by
  refine ⟨⟨c, rfl, hc⟩, fun i d hi hd => ?_, fun i d hi hd => ?_⟩
  · cases i with
    | zero => rfl
    | succ i => exact absurd hd (hrest d (List.mem_of_getElem? hi)).1
  · cases i with
    | zero =>
      rw [List.getElem?_cons_zero, Option.some.injEq] at hi
      rw [← hi, hc] at hd
      cases hd
    | succ i => exact absurd hd (hrest d (List.mem_of_getElem? hi)).2

/-- A selection takes the place of the one at the end. -/
theorem listOk_set {contexts : List Context} (h : ListOk contexts) {c : Context}
    (hc : c.getType = .SELECTION)
    (hlast : contexts.getLast?.map Context.getType = some .SELECTION) :
    ListOk (contexts.set (contexts.length - 1) c) := by
  obtain ⟨first, hfirst, hnone⟩ := h.head
  obtain ⟨old, hold, htype⟩ := Option.map_eq_some_iff.mp hlast
  rw [List.getLast?_eq_getElem?] at hold
  -- the none context is not the last element
  have hne : contexts.length - 1 ≠ 0 := by
    intro hzero
    rw [hzero, hfirst, Option.some.injEq] at hold
    rw [hold, htype] at hnone
    cases hnone
  refine ⟨⟨first, by rwa [List.getElem?_set_ne hne], hnone⟩, fun i d hi hd => ?_,
    fun i d hi hd => ?_⟩
  · rw [List.getElem?_set] at hi
    split at hi
    case isTrue =>
      rw [if_pos (by omega), Option.some.injEq] at hi
      rw [← hi, hc] at hd
      cases hd
    case isFalse => exact h.none_first i d hi hd
  · rw [List.length_set]
    rw [List.getElem?_set] at hi
    split at hi
    case isTrue heq => omega
    case isFalse => exact h.selection_last i d hi hd

/-- A selection is appended to a list without one. -/
theorem listOk_append {contexts : List Context} (h : ListOk contexts) {c : Context}
    (hc : c.getType = .SELECTION)
    (hlast : contexts.getLast?.map Context.getType ≠ some .SELECTION) :
    ListOk (contexts ++ [c]) := by
  obtain ⟨first, hfirst, hnone⟩ := h.head
  have hpos : 0 < contexts.length := (List.getElem?_eq_some_iff.mp hfirst).1
  refine ⟨⟨first, by rwa [List.getElem?_append_left hpos], hnone⟩, fun i d hi hd => ?_,
    fun i d hi hd => ?_⟩
  · rw [List.getElem?_append] at hi
    split at hi
    case isTrue => exact h.none_first i d hi hd
    case isFalse =>
      have hmem := List.mem_of_getElem? hi
      rw [List.mem_singleton] at hmem
      rw [hmem, hc] at hd
      cases hd
  · rw [List.length_append, List.length_singleton]
    rw [List.getElem?_append] at hi
    split at hi
    -- an older selection would be the last element, which is none
    case isTrue hlt =>
      have hi' : contexts.length - 1 = i := by
        have hlength := h.selection_last i d hi hd
        omega
      refine absurd ?_ hlast
      rw [List.getLast?_eq_getElem?, hi', hi, Option.map_some, hd]
    case isFalse hlt =>
      have hlt' := (List.getElem?_eq_some_iff.mp hi).1
      rw [List.length_singleton] at hlt'
      omega

/-- `reset` leaves one none context, whatever was there. -/
theorem inv_reset (s : ContextManager) : Inv s.reset :=
  ⟨listOk_cons rfl (by simp), List.mem_singleton_self _, menus_notify _⟩

/-- What the list may hold behind its none context and before a selection. -/
def Plain (data : ContextData) : Prop :=
  ∀ id, (Context.mk id data).getType ≠ .NONE ∧ (Context.mk id data).getType ≠ .SELECTION

theorem plain_functionContexts {file : String} {function : PyFunction} {debug : Debug}
    {data : ContextData} (h : data ∈ functionContexts file function debug) : Plain data := by
  intro id
  rcases List.mem_cons.mp h with rfl | hframe
  · cases function.containingClass <;> simp [Context.getType]
  · cases hstack : debug.stackFrame with
    | none => simp [hstack] at hframe
    | some stackFrame =>
      rw [hstack] at hframe
      simp only at hframe
      split at hframe
      case isFalse => simp at hframe
      case isTrue =>
        cases herror : debug.activeError <;>
          (rw [herror, List.mem_singleton] at hframe; subst hframe; simp [Context.getType])

/-- No context built for a caret is a none context or a selection. -/
theorem plain_createContext {element : Option Element} {debug : Debug} {data : ContextData}
    (h : data ∈ createContext element debug) : Plain data := by
  cases element with
  | none => simp [createContext] at h
  | some element =>
    simp only [createContext] at h
    split at h
    case isFalse => simp at h
    case isTrue =>
      rcases List.mem_append.mp h with hklass | hfunction
      · cases hk : element.klass with
        | none => simp [hk] at hklass
        | some klass =>
          rw [hk, List.mem_singleton] at hklass
          subst hklass
          intro id
          simp [Context.getType]
      · cases hf : element.function with
        | none => simp [hf] at hfunction
        | some function =>
          rw [hf] at hfunction
          exact plain_functionContexts hfunction

theorem data_mem_of_mem_objects {nextId : Nat} {contexts : List ContextData} {c : Context}
    (h : c ∈ objects nextId contexts) : c.data ∈ contexts := by
  induction contexts generalizing nextId with
  | nil => simp [objects] at h
  | cons data rest ih =>
    rcases List.mem_cons.mp h with rfl | hrest
    · exact List.mem_cons_self
    · exact List.mem_cons_of_mem _ (ih hrest)

/-- A rebuilt list: the none context of `reset`, and plain contexts after it. -/
theorem inv_onContextsChanged (s : ContextManager) {contexts : List ContextData}
    (hplain : ∀ data ∈ contexts, Plain data) : Inv (s.onContextsChanged contexts) := by
  have hcontexts : (s.onContextsChanged contexts).contexts =
      ⟨s.nextId, .none⟩ :: objects (s.nextId + 1) contexts := rfl
  have hcurrent : (s.onContextsChanged contexts).currentContext =
      (Context.mk s.nextId .none :: objects (s.nextId + 1) contexts).getLast?.getD
        s.reset.currentContext := rfl
  refine ⟨?_, ?_, menus_notify _⟩
  · rw [hcontexts]
    exact listOk_cons rfl fun d hd => hplain _ (data_mem_of_mem_objects hd) d.id
  -- the last element of the list
  · rw [hcontexts, hcurrent, List.getLast?_eq_some_getLast (List.cons_ne_nil _ _),
      Option.getD_some]
    exact List.getLast_mem _

/-- A selection takes the place of the one there was, or is appended. -/
theorem inv_setSelectionContext {s : ContextManager} (h : Inv s) (file : Option String)
    (code : JString) (firstLine lastLine : Int) :
    Inv (s.setSelectionContext (.selection file code firstLine lastLine)) := by
  have hpos : 0 < s.contexts.length := List.length_pos_of_mem h.current_mem
  let c : Context := ⟨s.nextId, .selection file code firstLine lastLine⟩
  by_cases hlast : s.contexts.getLast?.map Context.getType = some .SELECTION
  · have hcontexts : (s.setSelectionContext c.data).contexts =
        s.contexts.set (s.contexts.length - 1) c := if_pos hlast
    refine ⟨?_, ?_, menus_notify _⟩
    · rw [hcontexts]
      exact listOk_set h.list rfl hlast
    · rw [hcontexts]
      exact List.mem_set (by omega) _
  · have hcontexts : (s.setSelectionContext c.data).contexts = s.contexts ++ [c] :=
      if_neg hlast
    refine ⟨?_, ?_, menus_notify _⟩
    · rw [hcontexts]
      exact listOk_append h.list rfl hlast
    · rw [hcontexts]
      exact List.mem_append_right _ (List.mem_singleton_self c)

theorem inv_caretPositionChanged {s : ContextManager} (h : Inv s) (event : CaretEvent) :
    Inv (s.caretPositionChanged event) := by
  cases event with
  | none => exact h
  | some found => exact inv_onContextsChanged s fun _ => plain_createContext

theorem inv_selectionChanged {s : ContextManager} (h : Inv s) (event : SelectionEvent) :
    Inv (s.selectionChanged event) := by
  cases event with
  | empty caret => exact inv_caretPositionChanged h caret
  | range file code firstLine lastLine =>
    show Inv (if code.isBlank then s else s.setSelectionContext _)
    split
    · exact h
    · exact inv_setSelectionContext h file code firstLine lastLine

theorem inv_setCurrentIndex {s : ContextManager} (h : Inv s) (i : Nat) :
    Inv (s.setCurrentIndex i) := by
  unfold setCurrentIndex
  cases hi : s.contexts[i]? with
  | none => exact h
  | some c => exact inv_setCurrentContext h (List.mem_of_getElem? hi)

/-- A menu lists the contexts, so picking from it stays within the list. -/
theorem inv_pick {s : ContextManager} (h : Inv s) (prompt item : Nat) :
    Inv (s.pick prompt item) := by
  unfold pick
  cases hi : s.popupMenus[prompt]?.bind (·[item]?) with
  | none => exact h
  | some c =>
    obtain ⟨menu, hmenu, hitem⟩ := Option.bind_eq_some_iff.mp hi
    rw [h.menus menu (List.mem_of_getElem? hmenu)] at hitem
    exact inv_setCurrentContext h (List.mem_of_getElem? hitem)

/-- **Step lemma.** Every event keeps the invariant. -/
theorem inv_step {s : ContextManager} (h : Inv s) (event : ContextEvent) :
    Inv (s.step event) := by
  cases event with
  | caretPositionChanged event => exact inv_caretPositionChanged h event
  | selectionChanged event => exact inv_selectionChanged h event
  | reset => exact inv_reset s
  | setPreviousContextToCurrent => exact inv_setCurrentIndex h _
  | setCurrentContextToNone => exact inv_setCurrentIndex h 0
  | pick prompt item => exact inv_pick h prompt item
  | addPrompt =>
    refine ⟨h.list, h.current_mem, fun menu hmenu => ?_⟩
    rcases List.mem_append.mp hmenu with hmenu | hmenu
    · exact h.menus menu hmenu
    · exact List.mem_singleton.mp hmenu

/-- **Contexts.** The invariant holds in every reachable state. -/
theorem contextManager_inv (events : List ContextEvent) : Inv (run events) := by
  induction events using List.reverseRecOn with
  | nil => exact inv_reset _
  | append_singleton events event ih =>
    rw [run, List.foldl_append]
    exact inv_step ih event

end ContextManager

end Reloadium.Ai
