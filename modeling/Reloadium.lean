import Reloadium.Lib.Lts
import Reloadium.Lib.Deferred
import Reloadium.Lib.Refs
import Reloadium.Lib.Since
import Reloadium.Lib.Sections
import Reloadium.Lib.Assoc
import Reloadium.Lib.Records
import Reloadium.Lib.PMap
import Reloadium.Lib.JString
import Reloadium.Lib.Lines
import Reloadium.Lib.Spread
import Reloadium.Editor.Document
import Reloadium.Profile.FileValues
import Reloadium.Profile.MinMax
import Reloadium.Profile.CumulateMaps
import Reloadium.Lib.Halving
import Reloadium.Profile.Mean
import Reloadium.Profile.LineProfiler
import Reloadium.Session.Client
import Reloadium.Session.Replies
import Reloadium.Session.Clients
import Reloadium.Frames.Stack
import Reloadium.Frames.LastUpdate
import Reloadium.Frames.DropFrame
import Reloadium.Frames.ThreadErrors
import Reloadium.Frames.OrphanErrors
import Reloadium.Frames.ShownError
import Reloadium.Highlights.Highlighter
import Reloadium.Highlights.ErrorHighlightManager
import Reloadium.Highlights.SolutionHighlightManager
import Reloadium.Frames.ThreadHighlights
import Reloadium.Profile.FrameProgressRenderer
import Reloadium.Highlights.RepeatedShow
import Reloadium.Profile.ProfilePreviewRenderer
import Reloadium.Profile.CurrentLine
import Reloadium.Profile.FoldedValues
import Reloadium.Profile.LineColor
import Reloadium.Highlights.ClearAll
import Reloadium.Highlights.Blinker
import Reloadium.Highlights.SolutionRenderer
import Reloadium.Profile.LiveGutters
import Reloadium.Debugger.FastDebug
import Reloadium.Ai.Message
import Reloadium.Ai.Streaming
import Reloadium.Lib.Spaced
import Reloadium.Ai.BlockText
import Reloadium.Ai.ContextManager
import Reloadium.Lib.Utf8
import Reloadium.Ai.Dialog
import Reloadium.Ai.LiveDialog
import Reloadium.Ai.FailedPass
import Reloadium.Ai.LiveStreams
import Reloadium.Ai.SubmitLock
import Reloadium.Ai.CancelAnswer
import Reloadium.Ai.StreamEnd
import Reloadium.Ai.DialogName
import Reloadium.Ai.SavedParts
import Reloadium.Ai.PartsInStep
import Reloadium.Ai.ShownMessages
import Reloadium.Ai.Replay
import Reloadium.Ai.Chat
import Reloadium.Ai.RejectedFile
import Reloadium.Ai.ChatEvents
import Reloadium.Ai.LoadedDialog
import Reloadium.Ai.DialogKeys
import Reloadium.Ai.ChatMoves
import Reloadium.Ai.UsedDialog
import Reloadium.Ai.Identity
import Reloadium.Ai.DialogStates
import Reloadium.Ai.SidePanel
import Reloadium.Ai.PanelMirror
import Reloadium.Ai.DeletedDialog
import Reloadium.Ai.SavedText
import Reloadium.Ai.RoundTrip
import Reloadium.Lib.FileTree
import Reloadium.Pkg.Wheel
import Reloadium.Pkg.FileSystem
import Reloadium.Pkg.PackageManager
import Reloadium.Pkg.Launcher
import Reloadium.Pkg.CrashConsistency
import Reloadium.Pkg.NativeInstall
import Reloadium.Pkg.RemoteInstall
import Reloadium.Pkg.RemoteStore
import Reloadium.Handler.BeforeRun
import Reloadium.Handler.RunConfHandler
import Reloadium.Handler.InactiveHandler
import Reloadium.Handler.Reactivation
import Reloadium.Lib.Longest
import Reloadium.Lib.Ring
import Reloadium.Lib.Infixes
import Reloadium.Lib.JavaText
import Reloadium.Lib.Replace
import Reloadium.Lib.JsonString
import Reloadium.Ai.History
import Reloadium.Ai.ContextCycle
import Reloadium.Ai.ContextUtils
import Reloadium.Ai.PsiContext
import Reloadium.Pkg.WheelName
import Reloadium.Pkg.WheelDirs
import Reloadium.Highlights.ErrorRenderer
import Reloadium.Completion.CtxCompletion
import Reloadium.Handler.ManualReload
import Reloadium.Chat.YouChatClient
import Reloadium.Chat.Agreement
import Reloadium.Completion.ImportCompletion
import Reloadium.Lib.Configurable
import Reloadium.Lib.AddNew
import Reloadium.Settings.PreferencesForm
import Reloadium.Settings.ProjectSettingsForm
import Reloadium.Ai.CodeViewer
import Reloadium.Lib.Family
import Reloadium.Handler.RunConfHandlerManager
import Reloadium.Lib.Simulation
import Reloadium.Pkg.Service
import Reloadium.Lib.Regex
import Reloadium.Lib.RegexText
import Reloadium.Lib.Redact
import Reloadium.Glob.PathUtils
import Reloadium.Glob.Translation
import Reloadium.Glob.GlobMatch
import Reloadium.Telemetry.AnonymizeUtils
import Reloadium.Watchdog.SkipRepeatsQueue
import Reloadium.Watchdog.InotifyBuffer
import Reloadium.Watchdog.DirSnapshot
import Reloadium.Watchdog.Polling
import Reloadium.Watchdog.BaseObserver
import Reloadium.Watchdog.Observed
import Reloadium.Handler.QuickConfig
import Reloadium.Lib.Decimal
import Reloadium.Lib.TupleOrder
import Reloadium.SemVer.Version
import Reloadium.SemVer.Precedence
import Reloadium.Lib.Fallible
import Reloadium.Lib.Wire
import Reloadium.WebSocket.Handler
import Reloadium.WebSocket.Sending
