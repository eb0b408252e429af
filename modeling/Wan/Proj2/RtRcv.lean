import Wan.Proj2.Packet
import Wan.Lib.OrdMap
import Wan.Lib.Run
import Mathlib.Data.Rat.Defs

/-!
# The receiver (rt_rcv.cpp)

One step of `rt_rcv` is one pass of its event loop. The clock is read anew at
each place that reads it: an event carries the readings of its pass, number 0 for
the delay of a packet, number 1 for `delta`, and from number 2 on one for each
time the delivery loop looks at the first entry of `timetable`.

The delays are kept as rational numbers. Printing is left out.
-/

namespace Wan.Proj2

open Posix Lib

structure RtRcvState where
  delta : ℤ
  timetable : OrdMap ℤ ℕ
  window : OrdMap ℕ NetPkt
  avgDelay : ℚ
  minDelay : ℚ
  maxDelay : ℚ
  maxSeq : ℕ
  cumSeq : ℕ
  appCumSeq : ℕ
  totalPkts : ℕ
  lostPkts : ℕ
  /-- The program has left through the branch of a blocked client. -/
  exited : Bool

def RtRcvState.init : RtRcvState where
  delta := 0xffff
  timetable := .empty
  window := .empty
  avgDelay := 0
  minDelay := 2 ^ 63 - 1
  maxDelay := -2 ^ 63
  maxSeq := 0
  cumSeq := 0
  appCumSeq := 0
  totalPkts := 0
  lostPkts := 0
  exited := false

inductive RtRcvEffect
  /-- To the server. -/
  | sendto (p : AckPkt)
  /-- To the application. -/
  | deliver (p : NetPkt)
  deriving DecidableEq

-- ---------------------------------------------------------------------------
-- Phase II
-- ---------------------------------------------------------------------------

/-- The loop that acknowledges all sequential packets, with the steps left, the
number it looks at and the number acknowledged so far. -/
def ackScan (window : OrdMap ℕ NetPkt) : ℕ → ℕ → ℕ → ℕ × ℕ
  | 0, i, seq => (i, seq)
  | m + 1, i, seq =>
    match window.find? i with
    | none => (i, seq)
    | some _ => ackScan window m (i + 1) i

def sequential (s : RtRcvState) : RtRcvState × List RtRcvEffect :=
  let (i, seq) := ackScan s.window wSize (s.cumSeq + 1) s.cumSeq
  ({ s with cumSeq := i }, [.sendto ⟨seq, false⟩])

def cachePkt (s : RtRcvState) (pkt : NetPkt) (oneDelay : ℚ) : RtRcvState :=
  { s with
    timetable := s.timetable.insert pkt.senderTS pkt.seq
    window := s.window.insert pkt.seq pkt
    lostPkts := s.lostPkts + if pkt.seq + 1 > s.cumSeq then pkt.seq + 1 - s.cumSeq else 0
    maxSeq := if s.maxSeq > pkt.seq then s.maxSeq else pkt.seq
    avgDelay := s.avgDelay / s.totalPkts * (s.totalPkts - 1) + oneDelay / s.totalPkts
    minDelay := if s.minDelay > oneDelay then oneDelay else s.minDelay
    maxDelay := if s.maxDelay < oneDelay then oneDelay else s.maxDelay }

def phaseII (s : RtRcvState) (pkt : NetPkt) (oneDelay : ℚ) : RtRcvState × List RtRcvEffect :=
  let (s, out) := if pkt.seq = s.cumSeq then sequential s else (s, [])
  (cachePkt s pkt oneDelay, out)

-- ---------------------------------------------------------------------------
-- Delivery
-- ---------------------------------------------------------------------------

/-- `delta + LATENCY`, which is an `int`. -/
def deadline (delta : ℤ) : ℤ := toInt (delta + latency)

def expired (delta now senderTS : ℤ) : Bool := toMS (now - senderTS) > deadline delta

def popExpired (s : RtRcvState) (clock : ℕ → ℤ) : List (ℤ × ℕ) × OrdMap ℤ ℕ :=
  s.timetable.popWhile fun i e => expired s.delta (clock (i + 2)) e.1

def topDeliverSeq (s : RtRcvState) (clock : ℕ → ℤ) : ℕ :=
  (popExpired s clock).1.foldl (fun top e => if e.2 > top then e.2 else top) s.appCumSeq

def popDue (s : RtRcvState) (top : ℕ) : List (ℕ × NetPkt) × OrdMap ℕ NetPkt :=
  s.window.popWhile fun _ e => e.1 ≤ top

def deliver (s : RtRcvState) (clock : ℕ → ℤ) : RtRcvState × List RtRcvEffect :=
  let top := topDeliverSeq s clock
  ({ s with
      timetable := (popExpired s clock).2
      window := (popDue s top).2
      -- in case gapped packets are too tardy
      cumSeq := if s.cumSeq > 0 ∧ top ≥ s.cumSeq then top + 1 else s.cumSeq },
    (popDue s top).1.map fun e => .deliver e.2)

-- ---------------------------------------------------------------------------
-- One pass of the loop
-- ---------------------------------------------------------------------------

/-- A packet was received: the delivery step is only reached in phase II. -/
def rtRcvRecv (s : RtRcvState) (pkt : NetPkt) (clock : ℕ → ℤ) : RtRcvState × List RtRcvEffect :=
  let oneDelay := toMS (clock 0 - pkt.senderTS)
  let s := { s with totalPkts := s.totalPkts + 1 }
  if pkt.seq = blockedSeq then ({ s with exited := true }, [])
  else if s.cumSeq = 0 ∧ s.delta = 0xffff then
    ({ s with delta := toInt (toMS (clock 1 - pkt.senderTS)), cumSeq := 1 }, [])
  else
    let (s, acks) := phaseII s pkt oneDelay
    let (s, delivered) := deliver s clock
    (s, acks ++ delivered)

def sendNacks (s : RtRcvState) : List RtRcvEffect :=
  ((List.range' s.cumSeq wSize).filter fun i => (s.window.find? i).isNone).map fun i =>
    .sendto ⟨i, true⟩

def rtRcvTimeout (s : RtRcvState) (clock : ℕ → ℤ) : RtRcvState × List RtRcvEffect :=
  let (s', delivered) := deliver s clock
  (s', sendNacks s ++ delivered)

inductive RtRcvEvent
  | recv (pkt : NetPkt) (clock : ℕ → ℤ)
  /-- `recvfrom` gave nothing. -/
  | failed
  | timeout (clock : ℕ → ℤ)

def rtRcvStep (s : RtRcvState) (e : RtRcvEvent) : RtRcvState × List RtRcvEffect :=
  if s.exited then (s, [])
  else match e with
    | .recv pkt clock => rtRcvRecv s pkt clock
    | .failed => (s, [])
    | .timeout clock => rtRcvTimeout s clock

end Wan.Proj2
