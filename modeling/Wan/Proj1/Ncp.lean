import Wan.Proj1.Packet
import Wan.Lib.OrdMap

/-!
# The sender (ncp.cpp)

One step of `ncp` is one pass of its event loop: `select` either times out or
hands over one `ack_pkt`. A step returns the new state and the packets given to
`sendto_dbg`, which may still drop them; loss is left to the network.

Printing and the clock readings behind it are left out. The counters that are
printed are kept, as exact integers.
-/

namespace Wan.Proj1

open Posix Lib

/-- Labels for packets: unacked `'u'`, sent `'s'`. A sequence number without an
entry reads as the character 0, which is neither. -/
inductive Label
  | u
  | s
  deriving DecidableEq, Repr

inductive NcpStatus
  | running
  /-- `return 0` was reached. -/
  | returned
  /-- `find_if` gave `window.end()`, and the program dereferenced it and called
  `sendto_dbg` with what it read there. What it does from there on is not defined. -/
  | faulted
  deriving DecidableEq, Repr

/-- The command line, the source file, the address the sender's datagrams come
from, and what uninitialised memory holds: `malloc k` is the block the `k`-th
packet is built in, `blocked0` the first value of the local `blocked`. -/
structure NcpEnv where
  isLAN : Bool
  src : Bytes
  dFname : CString
  pid : ℤ
  addr : SockaddrIn
  malloc : ℕ → NetPkt
  blocked0 : Bool

def NcpEnv.wSize (env : NcpEnv) : ℤ := if env.isLAN then lWSize else wWSize

/-- The destination name fits `d_fname` with its terminator. -/
def NcpEnv.NameFits (env : NcpEnv) : Prop := env.dFname.1.length < 20

instance (env : NcpEnv) : Decidable env.NameFits :=
  inferInstanceAs (Decidable (env.dFname.1.length < 20))

structure NcpState where
  window : List NetPkt
  umap : OrdMap ℤ Label
  lastPkt : ℤ
  pktCnt : ℤ
  pd : FileStream
  pdEnd : FileStream
  blocked : Bool
  startTrans : Bool
  totalTrans : ℤ
  successTrans : ℤ
  lastRecordBytes : ℤ
  status : NcpStatus

def NcpState.init (env : NcpEnv) : NcpState where
  window := []
  umap := .empty
  lastPkt := -1
  pktCnt := 1
  pd := ⟨env.src, some 0⟩
  pdEnd := ⟨env.src, some env.src.length⟩
  blocked := env.blocked0
  startTrans := false
  totalTrans := 0
  successTrans := 0
  lastRecordBytes := 0
  status := .running

-- ---------------------------------------------------------------------------
-- Filling the window
-- ---------------------------------------------------------------------------

def nextPkt (env : NcpEnv) (s : NcpState) : FileStream × FileStream × NetPkt :=
  let (pd, pdEnd, pkt) := fetchNext env.wSize s.pd s.pdEnd (env.malloc s.pktCnt.toNat)
  (pd, pdEnd, { pkt with seq := s.pktCnt, pid := env.pid }.strcpy env.dFname)

def fillWinLoop (env : NcpEnv) : ℕ → NcpState → NcpState
  | 0, s => s
  | newAmt + 1, s =>
    let (pd, pdEnd, pkt) := nextPkt env s
    let s := { s with
      window := s.window ++ [pkt]
      pd := pd
      pdEnd := pdEnd
      pktCnt := s.pktCnt + 1 }
    if pd.ftell = -1 then s -- guard for end packet
    else fillWinLoop env newAmt { s with umap := s.umap.insert pkt.seq .u }

def fillWin (env : NcpEnv) (s : NcpState) : NcpState :=
  if s.window.length < env.wSize ∧ s.lastPkt = -1 then
    fillWinLoop env (env.wSize - s.window.length).toNat s
  else s

-- ---------------------------------------------------------------------------
-- One pass of the loop
-- ---------------------------------------------------------------------------

/-- The timeout pass over the packets still to visit: a packet labelled `'u'` is
sent, any other is labelled `'u'` and waits for the next pass. -/
def timeoutPass : List NetPkt → NcpState → NcpState × List NetPkt
  | [], s => (s, [])
  | p :: ps, s =>
    let sent := s.umap.find? p.seq = some .u
    let s := { s with
      totalTrans := s.totalTrans + sizeofNetPkt
      umap := if sent then s.umap else s.umap.insert p.seq .u
      lastPkt := if p.isEnd then p.seq else s.lastPkt }
    let (s, out) := timeoutPass ps s
    (s, if sent then p :: out else out)

/-- `while (window.size() != 0 && window[0]->seq <= ack_p->cum_seq)`. -/
def dequeueAcked (ack : AckPkt) : List NetPkt → NcpState → NcpState
  | [], s => { s with window := [] }
  | p :: ps, s =>
    if p.seq ≤ ack.cumSeq then
      dequeueAcked ack ps { s with
        successTrans := s.successTrans + ack.dataSize
        umap := s.umap.erase ack.cumSeq }
    else { s with window := p :: ps }

def NcpState.report (s : NcpState) : NcpState :=
  if s.totalTrans - s.lastRecordBytes ≥ 10 * megabytes then
    { s with lastRecordBytes := s.totalTrans }
  else s

def ncpRecv (s : NcpState) (ack : AckPkt) : NcpState × List NetPkt :=
  let s := { s with blocked :=
    if ack.cumSeq < 0 then true else if s.blocked then false else s.blocked }
  if !ack.isNack then
    let s := dequeueAcked ack s.window s
    if s.lastPkt ≠ -1 ∧ ack.cumSeq ≥ s.lastPkt then
      ({ s with status := .returned }, []) -- job is done
    else (s.report, [])
  else
    let labelled := { s with umap := s.umap.insert ack.cumSeq .s }
    match s.window.find? (fun p => p.seq = ack.cumSeq) with
    | none => ({ labelled with status := .faulted }, [])
    | some pkt => (labelled.report, [pkt])

def ncpTimeout (env : NcpEnv) (s : NcpState) : NcpState × List NetPkt :=
  if s.blocked then (s, [])
  else
    -- send un-acked packets
    let s := fillWin env { s with startTrans := true }
    let (s, out) := timeoutPass s.window s
    (s.report, out)

inductive NcpEvent
  | timeout
  | ack (p : AckPkt)
  deriving DecidableEq

def ncpStep (env : NcpEnv) (s : NcpState) (e : NcpEvent) : NcpState × List NetPkt :=
  match s.status with
  | .running =>
    match e with
    | .timeout => ncpTimeout env s
    | .ack p => ncpRecv s p
  | _ => (s, [])

end Wan.Proj1
