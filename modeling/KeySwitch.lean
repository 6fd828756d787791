import KeySwitch.Config.AutoBlockers
import KeySwitch.Config.Combos
import KeySwitch.Executor.FiringOrder
import KeySwitch.Executor.EpochSafety
import KeySwitch.Engine.KeyUps
import KeySwitch.Engine.MenuMask
import KeySwitch.Engine.PressSymmetry
import KeySwitch.Engine.Lateness
import KeySwitch.Engine.Tokens
import KeySwitch.Engine.Outcome
import KeySwitch.Engine.TimerCoverage
import KeySwitch.Engine.OnlyWinner
import KeySwitch.Engine.ChordRuns
import KeySwitch.Engine.SequenceRuns
import KeySwitch.Engine.Starters
import KeySwitch.Hook.AntiLoop
import KeySwitch.Hook.LiveHook
import KeySwitch.Hook.DeadHook
import KeySwitch.Hook.WakeCoverage
import KeySwitch.Engine.ElectionReference
import KeySwitch.Engine.Duplicates
import KeySwitch.Engine.SwallowedModifiers
import KeySwitch.Engine.ResyncRuns
import KeySwitch.Hook.InputSignals
import KeySwitch.Engine.CompletionMarks
import KeySwitch.Executor.RestoreTiming
import KeySwitch.Executor.PasteEnds
import KeySwitch.Data.ClipboardText
import KeySwitch.Hook.RawKeys
import KeySwitch.Engine.TimerOrder
import KeySwitch.Logging.Dates
import KeySwitch.Logging.LogFiles
import KeySwitch.Executor.Custody
import KeySwitch.Executor.Saves
import KeySwitch.Executor.CustodyRuns
import KeySwitch.Executor.MacroWalk
import KeySwitch.Executor.Ports
import KeySwitch.Config.Refused
import KeySwitch.Config.Repeats
import KeySwitch.Hook.LiveList
import KeySwitch.Hook.Heed
import KeySwitch.Hook.Install
import KeySwitch.Hook.ConfigWatcher
import KeySwitch.Logging.LogOrder
