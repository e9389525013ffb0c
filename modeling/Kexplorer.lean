import Kexplorer.Json.Denotation
import Kexplorer.Json.Grammar
import Kexplorer.Json.Reader
import Kexplorer.Json.RoundTrip
import Kexplorer.Json.Value
import Kexplorer.Json.Writer
import Kexplorer.Kesctl.Agreement
import Kexplorer.Kesctl.Client
import Kexplorer.Kesctl.Commands
import Kexplorer.Kesctl.Network
import Kexplorer.Kesctl.Survival
import Kexplorer.Lib.Bracket
import Kexplorer.Lib.Bytes
import Kexplorer.Lib.Crc
import Kexplorer.Lib.Custody
import Kexplorer.Lib.Framer
import Kexplorer.Lib.Iterator
import Kexplorer.Lib.Positioned
import Kexplorer.Lib.Queue
import Kexplorer.Lib.Related
import Kexplorer.Lib.Reporting
import Kexplorer.Lib.Run
import Kexplorer.Lib.ThreeWay
import Kexplorer.Process.ListProcesses
import Kexplorer.Process.Listing
import Kexplorer.Process.ProcFiles
import Kexplorer.Process.ProcFs
import Kexplorer.Process.ProcessManager
import Kexplorer.Process.ProcessProps
import Kexplorer.Process.ReadStat
import Kexplorer.Process.Responses
import Kexplorer.Process.Scanner
import Kexplorer.Process.Serialized
import Kexplorer.Process.Snapshot
import Kexplorer.Process.StatRecord
import Kexplorer.Process.Upsert
import Kexplorer.Props.Castable
import Kexplorer.Props.Codec
import Kexplorer.Props.Decode
import Kexplorer.Props.Encode
import Kexplorer.Props.Exact
import Kexplorer.Props.PropertyBag
import Kexplorer.Props.Pruned
import Kexplorer.Props.Redecode
import Kexplorer.Props.Reencode
import Kexplorer.Props.Registrations
import Kexplorer.Props.Registry
import Kexplorer.Props.Shape
import Kexplorer.Props.Tolerant
import Kexplorer.Server.Accept
import Kexplorer.Server.Daemon
import Kexplorer.Server.Dispatch
import Kexplorer.Server.Fatal
import Kexplorer.Server.Framing
import Kexplorer.Server.GlobalCmdHandler
import Kexplorer.Server.Lifetimes
import Kexplorer.Server.Logger
import Kexplorer.Server.Ownership
import Kexplorer.Server.Reading
import Kexplorer.Server.ReplyId
import Kexplorer.Server.RequestProcessor
import Kexplorer.Server.ResponseStream
import Kexplorer.Server.SessionHandler
import Kexplorer.Server.SessionIds
import Kexplorer.Server.Sessions
import Kexplorer.Server.TcpServer
import Kexplorer.Server.TcpSteps
import Kexplorer.Server.Teardown
import Kexplorer.Util.Built
import Kexplorer.Util.ByteQueue
import Kexplorer.Util.Condition
import Kexplorer.Util.ContinuousBuffer
import Kexplorer.Util.Crc32
import Kexplorer.Util.ExceptionUtil
import Kexplorer.Util.FixedString
import Kexplorer.Util.NetUtil
import Kexplorer.Util.Owners
import Kexplorer.Util.Receive
import Kexplorer.Util.RequestUtil
import Kexplorer.Util.Strtol
