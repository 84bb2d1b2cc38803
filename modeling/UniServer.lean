import UniServer.Foundation.Bytes
import UniServer.Foundation.Numeral
import UniServer.Foundation.Search
import UniServer.Foundation.Assoc
import UniServer.Foundation.Registry
import UniServer.Foundation.Trie
import UniServer.Foundation.Loop
import UniServer.Foundation.Machine
import UniServer.Foundation.Sequence
import UniServer.Foundation.Forks
import UniServer.Foundation.Ledger
import UniServer.Foundation.Register
import UniServer.Foundation.Traced
import UniServer.Foundation.Fmt
import UniServer.Foundation.Cxx
import UniServer.Common.Status
import UniServer.Common.Uuid
import UniServer.Common.UuidLayout
import UniServer.Http.Json
import UniServer.Http.JsonText
import UniServer.Http.Message
import UniServer.Http.CodecParse
import UniServer.Http.ParseReference
import UniServer.Http.HeaderScan
import UniServer.Http.RequestHead
import UniServer.Http.ParseBounds
import UniServer.Http.RequestLine
import UniServer.Http.HeaderValues
import UniServer.Http.RequestRoundTrip
import UniServer.Http.Serialize
import UniServer.Http.Echo
import UniServer.Http.FieldNames
import UniServer.Http.BodyOrder
import UniServer.Routing.Tree
import UniServer.Routing.Registrations
import UniServer.Routing.Runs
import UniServer.Routing.Manager
import UniServer.Routing.SipHash
import UniServer.Http.Process
import UniServer.Http.Receive
import UniServer.Http.ReceiveRuns
import UniServer.Http.ReceiveAgreement
import UniServer.Http.ReceiveExact
import UniServer.Http.Send
import UniServer.Http.TlsSend
import UniServer.Http.Interrupts
import UniServer.Http.Intake
import UniServer.Http.Listener
import UniServer.Http.ListenerSockets
import UniServer.Http.AddressList
import UniServer.Logging.Manager
import UniServer.Logging.Reload
import UniServer.Logging.Invalid
import UniServer.Logging.System
import UniServer.Logging.FailedCalls
import UniServer.Logging.Disabled
import UniServer.Logging.Joinable
import UniServer.Logging.WatcherQueue
import UniServer.Logging.WatcherDescriptors
import UniServer.Logging.Format
import UniServer.Logging.Syslog
import UniServer.Http.ParseLog
import UniServer.Logging.ConsoleLines
import UniServer.Logging.JsonRecords
import UniServer.Http.Session
import UniServer.Http.Exchange
import UniServer.Http.SessionAgreement
import UniServer.Http.Serving
import UniServer.Http.ServerLife
import UniServer.Logging.Stream
import UniServer.Logging.Journal
import UniServer.Logging.History
import UniServer.Http.ServerLog
import UniServer.Main
