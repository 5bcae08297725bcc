import MasterScheduler.Host.Validity
import MasterScheduler.Host.Links
import MasterScheduler.Host.SubPaths
import MasterScheduler.Mote.Accounting
import MasterScheduler.Mote.Capacity
import MasterScheduler.Mote.Data
import MasterScheduler.Mote.Chunking
import MasterScheduler.Mote.Install
import MasterScheduler.Mote.ElementBytes
import MasterScheduler.Mote.ElementRuns
import MasterScheduler.Mote.Frame802154
import MasterScheduler.Mote.Hopping
import MasterScheduler.Mote.Metric
import MasterScheduler.Mote.Beacon
import MasterScheduler.Mote.Polls
import MasterScheduler.Mote.Serial
import MasterScheduler.Mote.Unicast
import MasterScheduler.Network.Agreement
import MasterScheduler.Network.Retransmit
import MasterScheduler.Network.TimeSource
import MasterScheduler.Mote.Sixtop
import MasterScheduler.Mote.SixpTrans
import MasterScheduler.Mote.IphcRoundTrip
import MasterScheduler.Mote.Window
import MasterScheduler.Mote.NextLink
import MasterScheduler.Mote.TxCount
import MasterScheduler.Mote.SendGate
import MasterScheduler.Mote.SendOutcome
import MasterScheduler.Mote.MetricRetry
import MasterScheduler.Mote.SentCallback
import MasterScheduler.Mote.TxSlot
import MasterScheduler.Host.TimeSources
import MasterScheduler.Host.Routes
import MasterScheduler.Mote.ElementWriters
import MasterScheduler.Mote.NeighborPoll
import MasterScheduler.Mote.Fallback
import MasterScheduler.Mote.Eack
import MasterScheduler.Mote.MacSequence
import MasterScheduler.Mote.Timesync
import MasterScheduler.Mote.Trickle
import MasterScheduler.Mote.ProcessLoops
import MasterScheduler.Mote.NbrTable
import MasterScheduler.Mote.HeapmemRuns
import MasterScheduler.Mote.CcmStar
import MasterScheduler.Mote.Security
import MasterScheduler.Mote.BeaconEtx
import MasterScheduler.Mote.CoapRoundTrip
import MasterScheduler.Mote.Ctimer
import MasterScheduler.Mote.RplNs
import MasterScheduler.Mote.Reassembly
import MasterScheduler.Mote.ExtHeader
import MasterScheduler.Mote.Fragments
import MasterScheduler.Mote.SicslowpanDrop
import MasterScheduler.Mote.AsnArithmetic
import MasterScheduler.Mote.MissingPacket
import MasterScheduler.Mote.RingIndex
import MasterScheduler.Mote.LogSearch
import MasterScheduler.Mote.CoapBlock1
import MasterScheduler.Mote.Observers
import MasterScheduler.Mote.Csma
import MasterScheduler.Mote.CsmaMemory
import MasterScheduler.Mote.CsmaAccounting
import MasterScheduler.Mote.CsmaQueues
import MasterScheduler.Mote.RouteAdd
import MasterScheduler.Mote.RouteInvariant
import MasterScheduler.Mote.RouteTable
import MasterScheduler.Mote.SourceRoute
