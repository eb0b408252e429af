import Wan.Posix

/-!
# Packets (udp_stream_common.h)

`net_pkt` carries one datagram of the application from `rt_srv` to `rt_rcv`, and
also the server's answers to a connection request, which set only part of it.
`ack_pkt` carries requests, acknowledgments and NACKs back. Times are readings of
a steady clock in nanoseconds. `long long unsigned` counters are natural numbers.
-/

namespace Wan.Proj2

open Posix

abbrev dataLen : ℕ := 1380
abbrev wSize : ℕ := 80
abbrev latency : ℤ := 1000
/-- What the server puts in `seq` to refuse a client. -/
abbrev blockedSeq : ℕ := 0xffffffff

structure NetPkt where
  senderTS : ℤ
  seq : ℕ
  dtSize : ℤ
  data : CharArray dataLen
  deriving DecidableEq

structure AckPkt where
  seq : ℕ
  isNack : Bool
  deriving DecidableEq, Repr

/-- The `dt_size` bytes of data. What a larger count reads behind the packet is
not part of it. -/
def NetPkt.payload (p : NetPkt) : Bytes := p.data.toList.take p.dtSize.toNat

/-- `duration_cast<milliseconds>`, which rounds toward zero. -/
def toMS (nanoseconds : ℤ) : ℤ := nanoseconds.tdiv 1000000

def zeroPkt : NetPkt := ⟨0, 0, 0, .replicate _ 0⟩

@[simp] theorem zeroPkt_seq : zeroPkt.seq = 0 := rfl

end Wan.Proj2
