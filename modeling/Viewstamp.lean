import Viewstamp.Aggregate.Progress
import Viewstamp.Aggregate.Sizes
import Viewstamp.Blocks.Lane
import Viewstamp.Blocks.SessionCodec
import Viewstamp.Blocks.Sync
import Viewstamp.Canonical
import Viewstamp.Carriage
import Viewstamp.Codec.Root
import Viewstamp.Crossing
import Viewstamp.Deferral
import Viewstamp.Driver.Budget
import Viewstamp.Driver.Session
import Viewstamp.Fence
import Viewstamp.FrameBudget
import Viewstamp.Ingress
import Viewstamp.Ledger.Answers
import Viewstamp.Pruning
import Viewstamp.Reconfigure.Delta
import Viewstamp.Reconfigure.Executor
import Viewstamp.Reconfigure.Job
import Viewstamp.Reconfigure.Rekey
import Viewstamp.Reconfigure.Trajectory
import Viewstamp.Retransmit
import Viewstamp.Timeline
import Viewstamp.Transport.Conn
import Viewstamp.Transport.Coordinator
import Viewstamp.Transport.FrameSession
import Viewstamp.Transport.Handshake
import Viewstamp.Transport.QuicRouting
import Viewstamp.Transport.Router
import Viewstamp.Transport.Seats
import Viewstamp.Transport.StreamRouting
