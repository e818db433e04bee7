import CoapThread.Library.Bytes
import CoapThread.Library.Machine
import CoapThread.Library.Linked
import CoapThread.Library.DeltaOption
import CoapThread.Library.Fifo
import CoapThread.Library.Mutex
import CoapThread.Library.Hex
import CoapThread.Library.Custody
import CoapThread.Library.StableSort
import CoapThread.Library.Simulation
import CoapThread.Library.Environment
import CoapThread.Library.Timers
import CoapThread.Core.Config
import CoapThread.Core.OptionFilter
import CoapThread.Core.Pdu
import CoapThread.Core.PendingList
import CoapThread.Core.State
import CoapThread.Core.Receive
import CoapThread.Core.Senders
import CoapThread.Core.Handler
import CoapThread.Core.Helpers
import CoapThread.Core.Accesses
import CoapThread.Core.Thread
import CoapThread.Core.Loop
import CoapThread.Core.Registry
import CoapThread.Core.Poll
import CoapThread.Core.TableAccess
import CoapThread.Theory.OwnRequest
import CoapThread.Theory.Measurement
import CoapThread.Theory.RequestPdus
import CoapThread.Theory.RequestPath
import CoapThread.Theory.LookupKey
import CoapThread.Theory.PollHost
import CoapThread.Theory.OptionOrder
import CoapThread.Theory.Tokens
import CoapThread.Theory.RequestCleanup
import CoapThread.Theory.Departures
import CoapThread.Theory.OptionFilter
import CoapThread.Theory.BlockOption
import CoapThread.Theory.BlockDownload
import CoapThread.Theory.BlockRun
import CoapThread.Theory.NextBlock
import CoapThread.Theory.DeviceTable
import CoapThread.Theory.PostProcess
import CoapThread.Theory.Queue
import CoapThread.Theory.Wakeup
import CoapThread.Theory.Mutex
import CoapThread.Theory.ListCalls
import CoapThread.Theory.SweepReads
import CoapThread.Theory.Requesters
import CoapThread.Theory.Decoding
import CoapThread.Theory.HexName
import CoapThread.Theory.BranchTest
import CoapThread.Theory.HandlerSafety
import CoapThread.Theory.PathStorage
import CoapThread.Theory.MessageType
import CoapThread.Theory.TableAlone
import CoapThread.Theory.TableLifetime
import CoapThread.Theory.Deadline
import CoapThread.System.Others
import CoapThread.System.Accounts
import CoapThread.System.Wire
import CoapThread.System.Buffers
import CoapThread.System.Turns
import CoapThread.System.Timeouts
import CoapThread.System.Whole
import CoapThread.System.Views
import CoapThread.System.Messages
import CoapThread.System.Polls
import CoapThread.System.Rounds
import CoapThread.System.Standstill
