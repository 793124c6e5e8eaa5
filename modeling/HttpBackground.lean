import HttpBackground.OrderedMap
import HttpBackground.OrderedMultimap
import HttpBackground.Transition
import HttpBackground.Scanning
import HttpBackground.ParsingExpression
import HttpBackground.Effects
import HttpBackground.TextEncoding
import HttpBackground.StdString
import HttpBackground.OmnisValue
import HttpBackground.ParamConversion
import HttpBackground.BinaryField
import HttpBackground.IsoDate
import HttpBackground.ConstantLine
import HttpBackground.ConstantCache
import HttpBackground.CppNetlibDelegate
import HttpBackground.FixedStrings
import HttpBackground.Atomicity
import HttpBackground.RequestHeaders
import HttpBackground.ResultList
import HttpBackground.Worker
import HttpBackground.WorkerThreads
import HttpBackground.Exclusion
import HttpBackground.Executions
import HttpBackground.Subscribers
import HttpBackground.NVObjHTTPWorker
import HttpBackground.ComponentSteps
import HttpBackground.Ownership
import HttpBackground.Lifetime
import HttpBackground.ObjectCopy
import HttpBackground.TimerLife
import HttpBackground.Dispatch
import HttpBackground.DispatchRuns
import HttpBackground.TimerStop
import HttpBackground.TimerLoop
import HttpBackground.Tick
import HttpBackground.Subscription
import HttpBackground.Notification
import HttpBackground.LatestStart
import HttpBackground.Cancellation
import HttpBackground.SynchronousRun
import HttpBackground.BackgroundRun
import HttpBackground.DueObject
import HttpBackground.TerminalCallbacks
import HttpBackground.Generations
import HttpBackground.DeliveredRow
import HttpBackground.RowAsReturned
import HttpBackground.ParamPickup
import HttpBackground.RunningFlag
import HttpBackground.ResponseParser
import HttpBackground.ResponseHead
import HttpBackground.ChunkedBody
import HttpBackground.ResponseHeaders
import HttpBackground.AsyncConnection
import HttpBackground.ConnectionPieces
import HttpBackground.ResponseReading
import HttpBackground.ConnectionPromises
import HttpBackground.ConnectionAttempts
import HttpBackground.ResponseDelivery
import HttpBackground.RequestWriting
import HttpBackground.RequestParser
import HttpBackground.UriGrammar
import HttpBackground.UriRules
import HttpBackground.UriParsing
import HttpBackground.UriRequest
