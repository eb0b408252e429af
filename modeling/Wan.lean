import Wan.Proj1.Isolation
import Wan.Proj1.SelectiveRepeat
import Wan.Proj1.Durability
import Wan.Proj1.Progress
import Wan.Proj1.Admission
import Wan.Proj1.Gaps
import Wan.Proj1.Chunking
import Wan.Proj1.TcpSizes
import Wan.Proj1.Senders
import Wan.Proj1.Header
import Wan.Proj1.Traffic
import Wan.Proj1.Bounded
import Wan.Proj1.Sizes
import Wan.Proj1.LabelMap
import Wan.Proj1.TServer
import Wan.Proj1.Served
import Wan.Proj1.Lossy
import Wan.Proj1.Window
import Wan.Proj2.Exclusive
import Wan.Proj2.NoDiscard
import Wan.Proj2.Genuine
import Wan.Proj2.Ordered
import Wan.Proj2.SendTime
import Wan.Proj2.Calibration
import Wan.Proj2.Requests
import Wan.Proj2.FirstMissing
import Wan.Proj2.Stranded
import Wan.Proj2.Rejection
import Wan.Proj2.Datagram
import Wan.Proj2.LossCount
import Wan.Proj2.DelayStats
import Wan.Proj2.Retransmissions
import Wan.Proj2.Recovery
import Wan.Proj2.Awaited
import Wan.Proj2.Lossy
import Wan.Proj2.Stream
import Wan.Proj2.Deadline
import Wan.Proj2.Receivers
import Wan.Usage
