import Reloadium.Ai.ChatMoves
import Reloadium.Ai.Replay

namespace Reloadium.Ai

open Reloadium.Lib

/-!
# Ai — the dialogs of a chat as live dialogs

The chat knows a dialog by its model, its messages and what it shows; `Dialog.ofLive` is
that of a live dialog.  Whatever a live dialog has been through, its chat may find it so
(`mayBecome_ofLive`): the event `used` of the chat covers every use of a dialog.
-/

/-- A live dialog as its chat knows it. -/
def Dialog.ofLive (s : Live) : Dialog where
  model := s.model
  messages := s.messageModels
  output := s.shown
  currentContext := s.currentContext
  loaded := true

/-- **A used dialog.** After every sequence of its own operations a dialog is one that the
    event `used` allows. -/
theorem mayBecome_ofLive {env : LiveEnv} (hparser : env.parser.ReadsBundle) {id : Int32}
    {ops : List DialogOp} {s : Shown}
    (hrun : (shownLts env id).run (shownLts env id).init ops = some s) {d : Dialog}
    (hid : d.model.id = s.live.id) (hname : d.model.name = some s.live.name)
    (hloaded : d.loaded = true) (hmessages : d.model.messages.isSome = true) :
    d.MayBecome (.ofLive s.live) := by
  have hshown := shownFrom_of_run hparser hrun
  obtain ⟨old, hold⟩ := Option.isSome_iff_exists.mp hmessages
  refine ⟨hid.symm, hname.symm, hloaded.symm, ?_⟩
  rw [hold, show (Dialog.ofLive s.live).model.messages = s.live.model.messages from rfl,
    model_messages hshown]
  intro m hm
  obtain ⟨model, hmodel, rfl⟩ := List.mem_map.mp hm
  refine Or.inr ⟨rfl, congrArg some ?_⟩
  -- every message of a live dialog is built once more as it is
  obtain ⟨ref, -, hget⟩ := List.mem_filterMap.mp hmodel
  obtain ⟨message, hmessage, rfl⟩ := Option.map_eq_some_iff.mp hget
  exact (hshown.sound ref message hmessage).rebuilt

/-- A dialog after a first message, which is too long to be its name. -/
def asked (id : Int32) : Dialog :=
  .ofLive ((Live.new id).submit plainEnv (.ofString "How do I read a file line by line?") [] false)

end Reloadium.Ai
