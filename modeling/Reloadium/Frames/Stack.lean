import Reloadium.Lib.PMap
import Mathlib.Data.List.Nodup
import Mathlib.Data.List.Perm.Basic

namespace Reloadium.Frames

open Reloadium.Lib

/-!
# Frames — the frames of the last stack update

Model of `rw.stack.Stack` and `rw.stack.Frame`.  A `StackUpdate` event lists, for every
thread, its frames from the innermost outwards; `onStackUpdateEvent` rebuilds the two maps
`content` and `pathToFrames` from it, but takes the frame objects from `frameIdToFrame`,
which no operation ever purges.  A frame's fields are final, so a frame is a value that
carries its whole chain of callers.
-/

/-- `FrameData` as `StackUpdate.handle` leaves it, with its path mapped to a local one. -/
structure FrameData where
  frameId : Int
  localPath : String
  fullname : String
  reloadable : Bool
deriving DecidableEq, Repr

/-- `StackUpdate.content` in iteration order.  It is parsed from a JSON object, so no
    thread occurs twice, and Python gives the frames it lists different ids. -/
structure StackUpdate where
  content : List (String × List FrameData)
  threads_nodup : (content.map Prod.fst).Nodup
  ids_nodup : ((content.flatMap Prod.snd).map FrameData.frameId).Nodup

/-- `Frame`: four final fields and the frame of the caller. -/
inductive Frame where
  | mk (id : Int) (path : String) (fullname : String) (reloadable : Bool)
      (back : Option Frame)

namespace Frame

/-- `getId`. -/
def id : Frame → Int | mk id _ _ _ _ => id

/-- `getPath`. -/
def path : Frame → String | mk _ path _ _ _ => path

/-- `getFullname`. -/
def fullname : Frame → String | mk _ _ fullname _ _ => fullname

/-- `isReloadable`. -/
def reloadable : Frame → Bool | mk _ _ _ reloadable _ => reloadable

/-- `getBack`. -/
def back : Frame → Option Frame | mk _ _ _ _ back => back

end Frame

/-- `Stack`. -/
structure Stack where
  /-- thread id to frames -/
  content : PMap String (List Frame)
  frameIdToFrame : PMap Int Frame
  pathToFrames : PMap String (List Frame)

/-- The stack its constructor builds. -/
def Stack.new : Stack := ⟨.empty, .empty, .empty⟩

/-- The locals of the inner loop of `onStackUpdateEvent`, and the stack it updates. -/
structure ThreadLoop where
  stack : Stack
  frames : List Frame
  backFrame : Option Frame

/-- The body of the inner loop: one frame of a thread, after its caller. -/
def addFrame (l : ThreadLoop) (f : FrameData) : ThreadLoop :=
  -- an id that is known keeps the frame it was first given
  let frame := l.stack.frameIdToFrame.getOrDefault f.frameId
    (.mk f.frameId f.localPath f.fullname f.reloadable l.backFrame)
  -- the frame is filed under the path of this event, which may be another than its own
  let pathToFrames := l.stack.pathToFrames.putIfAbsent f.localPath []
  { stack := { l.stack with
      pathToFrames :=
        pathToFrames.put f.localPath (pathToFrames.getOrDefault f.localPath [] ++ [frame])
      frameIdToFrame := l.stack.frameIdToFrame.putIfAbsent f.frameId frame }
    frames := frame :: l.frames
    backFrame := some frame }

/-- The body of the outer loop: the frames of one thread, from the outermost inwards. -/
def addThread (s : Stack) (entry : String × List FrameData) : Stack :=
  -- the outermost frame first: it has no caller
  let l := entry.2.reverse.foldl addFrame ⟨s, [], none⟩
  { l.stack with content := l.stack.content.put entry.1 l.frames }

/-- `Stack.onStackUpdateEvent`. -/
def onStackUpdateEvent (s : Stack) (event : StackUpdate) : Stack :=
  -- `frameIdToFrame` is not cleared with the other two
  event.content.foldl addThread { s with content := .empty, pathToFrames := .empty }

/-- `Stack.getForPath`. -/
def Stack.getForPath (s : Stack) (file : String) : Option (List Frame) := s.pathToFrames file

/-- `Stack.getFrameById`. -/
def Stack.getFrameById (s : Stack) (id : Int) : Option Frame := s.frameIdToFrame id

/-- The stack after a sequence of events. -/
def afterEvents (events : List StackUpdate) : Stack := events.foldl onStackUpdateEvent .new

/-! ### What the events say -/

/-- The frames of one thread, each with its caller, in the order they are processed. -/
def threadRecords : List FrameData → List (FrameData × Option FrameData)
  | [] => []
  | f :: callers => threadRecords callers ++ [(f, callers.head?)]

/-- The frames of an event, each with its caller, in the order they are processed. -/
def StackUpdate.records (e : StackUpdate) : List (FrameData × Option FrameData) :=
  e.content.flatMap fun entry => threadRecords entry.2

/-- The first record of an id in a list of records: the frame data and caller it was first
    received with. -/
def firstSeen (records : List (FrameData × Option FrameData)) (id : Int) :
    Option (FrameData × Option FrameData) :=
  records.find? fun r => r.1.frameId = id

end Reloadium.Frames
