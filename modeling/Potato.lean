import Potato.Ledger
import Potato.BufferFifo
import Potato.IOWatcher
import Potato.TcpConnection
import Potato.ConnectionMoves
import Potato.Session
import Potato.SessionInvariant
import Potato.ConnectionFaults
import Potato.OutgoingStream
import Potato.IncomingStream
import Potato.Reentrancy
import Potato.LoopThreads
import Potato.SharedConnection
import Potato.PostedFunctors
import Potato.IdealConnection
import Potato.SessionIsolation
import Potato.EdgeTrigger
import Potato.Dispatch
import Potato.EventLoop
import Potato.RunInLoop
import Potato.ConnectionPool
import Potato.CallbackProtocol
import Potato.Registration
import Potato.IntegerCodec
import Potato.LoopLife
import Potato.Borders
import Potato.StringSlice
import Potato.EventLoopPool
import Potato.WorkerShutdown
import Potato.ServerTeardown
import Potato.Custody
import Potato.Descriptors
import Potato.RetrieveOverloads
import Potato.RawSlice
import Potato.AcceptLoop
import Potato.IpAddress
import Potato.WriteComplete
import Potato.Gregorian
import Potato.Timestamp
import Potato.LocalTime
import Potato.Date
import Potato.DateFields
import Potato.Decimal
import Potato.TimestampText
import Potato.CalendarHelpers
import Potato.DateShifts
import Potato.Trimming
import Potato.SliceTrim
import Potato.SliceChains
import Potato.FailureTable
import Potato.BufferStorage
import Potato.ReadStorage
import Potato.EchoServer
import Potato.Producers
import Potato.TestAndSet
import Potato.SpinPool
import Potato.Multiplexing
import Potato.Draining
import Potato.EchoLoop
import Potato.TextOrder
import Potato.AddressText
import Potato.ValidDates
import Potato.Durations
import Potato.SearchCost
import Potato.EventVector
import Potato.SocketPairs
