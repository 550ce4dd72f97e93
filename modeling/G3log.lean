import G3log.ActiveQueue
import G3log.ActiveReturns
import G3log.Completion
import G3log.CrashHandler
import G3log.CrashingHooks
import G3log.CustomSink
import G3log.DebugMacros
import G3log.DefaultLogger
import G3log.Draining
import G3log.Durability
import G3log.FailedChange
import G3log.FatalHook
import G3log.FileNames
import G3log.FileStream
import G3log.Futures
import G3log.LevelQueries
import G3log.LogDirectory
import G3log.LogHeaders
import G3log.LogLink
import G3log.LoggerInstance
import G3log.MessageOwner
import G3log.Mutexes
import G3log.Rotation
import G3log.Routing
import G3log.Sampling
import G3log.StackDump
import G3log.StreamedText
import G3log.StuckFatal
import G3log.Time
import G3log.TornArguments
