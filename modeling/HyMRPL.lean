import HyMRPL.Adaptive.ChangeBuffer
import HyMRPL.Adaptive.Healthier
import HyMRPL.Adaptive.Hysteresis
import HyMRPL.Adaptive.Normalised
import HyMRPL.Adaptive.Recommendations
import HyMRPL.Cmd.Delivery
import HyMRPL.Cmd.RoundTrip
import HyMRPL.Daemon.DeliverySamples
import HyMRPL.Daemon.EmptySwitches
import HyMRPL.Daemon.FailClosed
import HyMRPL.Daemon.FirstFailure
import HyMRPL.Daemon.Legacy
import HyMRPL.Daemon.Lifetimes
import HyMRPL.Daemon.LocalRoutes
import HyMRPL.Daemon.Members
import HyMRPL.Daemon.Packets
import HyMRPL.Daemon.Quota
import HyMRPL.Daemon.Steady
import HyMRPL.Daemon.Switches
import HyMRPL.Dao.Groups
import HyMRPL.Dao.Padding
import HyMRPL.Dao.Reads
import HyMRPL.Dao.Rejected
import HyMRPL.Fifo.CommandFraming
import HyMRPL.Fifo.Grammar
import HyMRPL.Fifo.Rejections
import HyMRPL.Foundation.CString
import HyMRPL.Foundation.Framing
import HyMRPL.Foundation.HexDigits
import HyMRPL.Foundation.Machine
import HyMRPL.Foundation.Pointer
import HyMRPL.Foundation.Pointwise
import HyMRPL.Foundation.Recent
import HyMRPL.Foundation.Streak
import HyMRPL.Foundation.Tlv
import HyMRPL.Foundation.TlvOffsets
import HyMRPL.Foundation.Window
import HyMRPL.Monitor.Agreement
import HyMRPL.Monitor.Hysteresis
import HyMRPL.Network.Daemons
import HyMRPL.Network.Forwarding
import HyMRPL.Network.LoopFreedom
import HyMRPL.Network.RootRank
import HyMRPL.Network.Solicitation
import HyMRPL.Network.SourceTree
import HyMRPL.Node.ParentRank
import HyMRPL.Node.ParentSwitches
import HyMRPL.Node.RootVisibility
import HyMRPL.Node.Silence
import HyMRPL.Node.StaleRoute
import HyMRPL.Process.DaoWalk
import HyMRPL.Process.DioMessage
import HyMRPL.Root.Aggregation
