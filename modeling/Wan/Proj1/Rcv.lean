import Wan.Proj1.Packet
import Wan.Lib.Run

/-!
# The receiver (rcv.cpp)

One step of `rcv` is one pass of its event loop. What it does to the outside is
a list of effects: datagrams given to `sendto_dbg` and operations on the output
file `pd`. Opening the file truncates it, or fails, which the program does not look
at; writing to a stream that is not open has no effect. `rcvStep` is a pass in which
a file can be opened.

The window holds pointers. Every entry is the address of the one receive buffer
`mess_buf`, so all of them read as the packet received last; the lemmas on
`handleReceive` say what that leaves of the buffering.

Fields of an `ack_pkt` that are not assigned before sending hold what was on the
stack, which an event supplies as `junk`.
-/

namespace Wan.Proj1

open Posix

abbrev Fname := Bytes

/-- An address of a `net_pkt` in the receiver: there is only one. -/
inductive PktPtr
  | messBuf
  deriving DecidableEq, Repr

structure RcvState where
  senderQ : List SockaddrIn
  /-- The file `pd` is attached to while it is open. -/
  pd : Option Fname
  window : List PktPtr
  cumSeq : ℤ
  done : Bool
  rcvStart : Bool
  messBuf : NetPkt
  totalTrans : ℤ
  successTrans : ℤ
  lastRecordBytes : ℤ

def RcvState.init (messBuf : NetPkt) : RcvState where
  senderQ := []
  pd := none
  window := []
  cumSeq := 0
  done := false
  rcvStart := false
  messBuf := messBuf
  totalTrans := 0
  successTrans := 0
  lastRecordBytes := 0

inductive RcvEffect
  | sendto (dst : SockaddrIn) (p : AckPkt)
  | openFile (f : Fname)
  | write (f : Fname) (bytes : Bytes)
  | close (f : Fname)
  deriving DecidableEq

def RcvState.deref (s : RcvState) : PktPtr → NetPkt
  | .messBuf => s.messBuf

def RcvState.pdWrite (s : RcvState) (pkt : NetPkt) : List RcvEffect :=
  match s.pd with
  | some f => [.write f pkt.payload]
  | none => []

-- ---------------------------------------------------------------------------
-- HANDLE RECEIVE
-- ---------------------------------------------------------------------------

/-- The dequeue loop: entry after entry leaves the window while the front one
reads as the next packet. -/
def dequeueBuffer (pkt : NetPkt) (p : AckPkt) (fromAddr : SockaddrIn) :
    List PktPtr → RcvState → RcvState × List RcvEffect
  | [], s => ({ s with window := [] }, [])
  | q :: qs, s =>
    if (s.deref q).seq = s.cumSeq + 1 then
      let p := { p with cumSeq := pkt.seq, isNack := false }
      let s := { s with cumSeq := pkt.seq, successTrans := s.successTrans + pkt.dtSize }
      let (s', out) := dequeueBuffer pkt p fromAddr qs s
      (s', .sendto fromAddr p :: s.pdWrite pkt ++ out)
    else ({ s with window := q :: qs }, [])

def sequentialPkt (s : RcvState) (pkt : NetPkt) (fromAddr : SockaddrIn) :
    RcvState × List RcvEffect :=
  let p : AckPkt := { cumSeq := pkt.seq, dataSize := pkt.dtSize, isNack := false }
  let s := { s with
    cumSeq := pkt.seq
    done := if pkt.isEnd then true else s.done
    successTrans := s.successTrans + pkt.dtSize }
  let (s', out) := dequeueBuffer pkt p fromAddr s.window s
  (s', .sendto fromAddr p :: s.pdWrite pkt ++ out)

/-- `for (long i = lo + 1; i < hi; i++)`: one NACK for each number between. -/
def nacks (wSize : ℤ) (fromAddr : SockaddrIn) (lo hi : ℤ) : List RcvEffect :=
  (List.range (hi - (lo + 1)).toNat).map fun (i : ℕ) =>
    .sendto fromAddr { cumSeq := lo + 1 + i, dataSize := wSize.bmod (2 ^ 32), isNack := true }

/-- The gapped NACKs: the gaps below each window entry in turn, from `lo` on. -/
def gappedNacks (s : RcvState) (wSize : ℤ) (fromAddr : SockaddrIn) :
    ℤ → List PktPtr → List RcvEffect
  | _, [] => []
  | lo, q :: qs => nacks wSize fromAddr lo (s.deref q).seq ++
      gappedNacks s wSize fromAddr (s.deref q).seq qs

/-- FUTURE PKT: the last component says the loop went on with `continue`. -/
def futurePkt (s : RcvState) (pkt : NetPkt) (fromAddr : SockaddrIn) :
    RcvState × List RcvEffect × Bool :=
  -- check seq is already in the window
  if s.window.any fun q => (s.deref q).seq = pkt.seq then (s, [], true)
  else
    let s := { s with window :=
      (s.window ++ [PktPtr.messBuf]).insertionSort fun a b => (s.deref a).seq ≤ (s.deref b).seq }
    (s, gappedNacks s pkt.wSize fromAddr s.cumSeq s.window, false)

def handleReceive (s : RcvState) (pkt : NetPkt) (fromAddr : SockaddrIn) (junk : AckPkt) :
    RcvState × List RcvEffect × Bool :=
  if pkt.seq ≤ s.cumSeq then
    -- re-send the cum_ack
    (s, [.sendto fromAddr { junk with cumSeq := s.cumSeq, isNack := false }], false)
  else if pkt.seq = s.cumSeq + 1 then
    let (s, out) := sequentialPkt s pkt fromAddr
    (s, out, false)
  else if s.window.length < pkt.wSize then futurePkt s pkt fromAddr
  else (s, [], false)

-- ---------------------------------------------------------------------------
-- One pass of the loop
-- ---------------------------------------------------------------------------

def handlePrint (s : RcvState) : RcvState × List RcvEffect :=
  if s.done then
    match s.pd with
    | some f => -- SENDER's COMPLETED
      ({ s with lastRecordBytes := 0, totalTrans := 0, successTrans := 0, pd := none }, [.close f])
    | none => (s, [])
  else if s.totalTrans - s.lastRecordBytes ≥ 10 * megabytes then
    ({ s with lastRecordBytes := s.totalTrans }, [])
  else (s, [])

def receiveAndPrint (s : RcvState) (pkt : NetPkt) (fromAddr : SockaddrIn) (junk : AckPkt) :
    RcvState × List RcvEffect :=
  let (s, out, continued) := handleReceive s pkt fromAddr junk
  if continued then (s, out)
  else
    let (s, out') := handlePrint s
    (s, out ++ out')

def RcvState.received (s : RcvState) (pkt : NetPkt) : RcvState :=
  { s with messBuf := pkt, totalTrans := s.totalTrans + sizeofNetPkt }

def RcvState.enqueue (s : RcvState) (src : SockaddrIn) : RcvState :=
  if src ∈ s.senderQ then s else { s with senderQ := s.senderQ ++ [src] }

/-- `pd.open(f)`: the stream is attached to the file if that can be opened. -/
def RcvState.openPd (s : RcvState) (opens : Bool) (f : Fname) : RcvState :=
  { s with pd := if opens then some f else none, rcvStart := true }

/-- A full-size datagram from `src` was received; `opens` says whether the file it
names can be opened. -/
def rcvRecvWith (opens : Bool) (s : RcvState) (src : SockaddrIn) (pkt : NetPkt)
    (junk : AckPkt) : RcvState × List RcvEffect :=
  let s := s.received pkt
  -- HANDLE SENDER REQUEST
  if src ∈ s.senderQ ∧ s.senderQ.head? ≠ some src then
    (s, [.sendto src { junk with cumSeq := -1 }])
  else
    let s := s.enqueue src
    let fromAddr := s.senderQ.headD src
    if s.rcvStart then receiveAndPrint s pkt fromAddr junk
    else if s.pd.isSome then (s, []) -- guard for re-open
    else
      let r := receiveAndPrint (s.openPd opens pkt.name) pkt fromAddr junk
      (r.1, (if opens then [.openFile pkt.name] else []) ++ r.2)

abbrev rcvRecv := rcvRecvWith true

def rcvTimeout (s : RcvState) (junk : AckPkt) : RcvState × List RcvEffect :=
  let s := if s.done then
      { s with senderQ := s.senderQ.tail, done := false, rcvStart := false, cumSeq := 0 }
    else s
  -- call the next sender if present
  match s.senderQ with
  | [] => (s, [])
  | head :: _ => (s, [.sendto head { junk with cumSeq := s.cumSeq }])

inductive RcvEvent
  | datagram (src : SockaddrIn) (pkt : NetPkt) (junk : AckPkt)
  /-- A datagram without bytes: only the clearing of the data buffer is seen. -/
  | empty
  | timeout (junk : AckPkt)

def rcvStepWith (opens : Bool) (s : RcvState) : RcvEvent → RcvState × List RcvEffect
  | .datagram src pkt junk => rcvRecvWith opens s src pkt junk
  | .empty => ({ s with messBuf := { s.messBuf with data := .replicate _ 0 } }, [])
  | .timeout junk => rcvTimeout s junk

abbrev rcvStep := rcvStepWith true

end Wan.Proj1
