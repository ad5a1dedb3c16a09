import RustRaknet.Lib.Endian
import RustRaknet.Lib.Keyed
import RustRaknet.Lib.Result
import RustRaknet.Lib.Serial
import RustRaknet.Lib.Runs
import RustRaknet.Lib.Machine
import RustRaknet.Lib.Forget
import RustRaknet.Error
import RustRaknet.Sequence
import RustRaknet.Frame
import RustRaknet.Datatype
import RustRaknet.Codec
import RustRaknet.Packet
import RustRaknet.Indexes
import RustRaknet.Reassembly
import RustRaknet.Recv.Queue
import RustRaknet.Recv.Limits
import RustRaknet.Recv.Whole
import RustRaknet.Recv.Order
import RustRaknet.Recv.InOrder
import RustRaknet.Recv.Unordered
import RustRaknet.Recv.Assembly
import RustRaknet.Send.Queue
import RustRaknet.Send.Feedback
import RustRaknet.Send.Flush
import RustRaknet.Send.Run
import RustRaknet.Send.Ledger
import RustRaknet.Send.Refine
import RustRaknet.Send.RefineFeedback
import RustRaknet.Send.RefineFlush
import RustRaknet.Send.RefineProbe
import RustRaknet.Send.Refinement
import RustRaknet.Send.Numbers
import RustRaknet.Send.Acknowledge
import RustRaknet.Send.Held
import RustRaknet.Send.Budget
import RustRaknet.Send.Conserve
import RustRaknet.Send.Stuck
import RustRaknet.Send.Given
import RustRaknet.Send.Calls
import RustRaknet.Send.Cached
import RustRaknet.Send.CachedFlush
import RustRaknet.Send.FlushBudget
import RustRaknet.Send.Reserve
import RustRaknet.Socket.Transmit
import RustRaknet.Socket.Worker
import RustRaknet.Link.Catalogue
import RustRaknet.Link.Carry
import RustRaknet.Link.Receive
import RustRaknet.Link.Deliver
import RustRaknet.Link.Sender
import RustRaknet.Link.System
import RustRaknet.Link.Invariant
import RustRaknet.Link.Delivery
import RustRaknet.Link.Turn
import RustRaknet.Link.Reject
import RustRaknet.Link.Jam
import RustRaknet.Link.Honest
import RustRaknet.Link.Residue
import RustRaknet.Link.Once
import RustRaknet.Address
import RustRaknet.Offline
import RustRaknet.Server.Dispatch
import RustRaknet.Server.Routing
import RustRaknet.Server.Handshake
import RustRaknet.Lib.Ranges
import RustRaknet.Acks
import RustRaknet.Control
import RustRaknet.Send.Batch
import RustRaknet.Send.Fifo
import RustRaknet.Send.Scheduled
import RustRaknet.Link.Datagrams
import RustRaknet.Window
import RustRaknet.Encode
import RustRaknet.Owned
import RustRaknet.Messages
import RustRaknet.AddressList
import RustRaknet.Send.Sharing
import RustRaknet.Recv.Reorder
import RustRaknet.Socket.ReceiveLoop
import RustRaknet.Send.Samples
import RustRaknet.Send.Trips
import RustRaknet.Send.Karn
import RustRaknet.Send.Coalesce
import RustRaknet.Send.Rotation
import RustRaknet.Send.Whole
import RustRaknet.Link.Closed
import RustRaknet.Send.Timers
import RustRaknet.Send.Moments
import RustRaknet.Send.Plain
import RustRaknet.Send.Probe
import RustRaknet.Send.Progress
import RustRaknet.Lib.Notify
import RustRaknet.Lib.Visit
import RustRaknet.Socket.Reply
import RustRaknet.Socket.Maintenance
import RustRaknet.Socket.Reached
import RustRaknet.Socket.Wakeups
import RustRaknet.Socket.Idle
import RustRaknet.Socket.Deadline
