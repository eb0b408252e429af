import Wan.Proj1.Net

/-!
# Integrity of a transfer and agreement of the two windows

Read off the link between the two programs: the receiver's file is a prefix of
the source, complete before it is closed and before the sender returns, and the
two ends are never further apart than one window.
-/

namespace Wan.Proj1

open Posix Lib

variable {env : NcpEnv} {s : Net} {b n k : ℕ}

theorem Linked.pd (h : Linked env s b n k) (hs : s.rcv.rcvStart = true) :
    s.rcv.pd = none ↔ k = lastChunk env.src := by
  rcases h.transfer with ⟨hw, -⟩ | hr
  · have hidle : s.rcv.rcvStart = false := hw.idle
    simp [hidle] at hs
  · have hpd : s.rcv.pd = _ := hr.pd
    rw [hpd]
    split_ifs with hk <;> simp [hk]

theorem Linked.complete (h : Linked env s b n k) (hr : s.ncp.status = .returned) :
    s.rcv.rcvStart = true ∧ s.rcv.pd = none ∧
      ∀ disk, fileAfter env.dFname disk s.log = some env.src := by
  have hk := h.returned hr
  have hs : s.rcv.rcvStart = true := by
    by_contra hs
    have hidle : s.rcv.rcvStart = false := by simpa using hs
    have hzero : k = 0 := h.transfer.eq_zero hidle
    have hone : 1 ≤ lastChunk env.src := one_le_blockCount
    omega
  refine ⟨hs, (h.pd hs).mpr hk, fun disk => ?_⟩
  rw [h.file hs disk, hk, chunks_lastChunk]

/-- For every file and every run of the network, whatever was on the disk before:
the receiver has written chunks `1..cum_seq` to `pd` and to nothing else, the
file is closed only when they are the whole source, and the sender returns only
when the file is closed and equal to the source. -/
theorem transfer_integrity (env : NcpEnv) (hname : env.NameFits) (buf : NetPkt)
    (disk : Option Bytes) (es : List NetEvent)
    (hrun : Along (netStep env) BeforeSwitch (.init env buf) es) :
    let s := es.foldl (netStep env) (.init env buf)
    let f : Fname := env.dFname
    (∃ k : ℕ, s.rcv.cumSeq = k ∧ written f s.log = chunks env.src k ∧
        written f s.log <+: env.src ∧
        (.openFile f ∈ s.log → fileAfter f disk s.log = some (chunks env.src k))) ∧
      (∀ e ∈ s.log, e.file? = none ∨ e.file? = some f) ∧
      (.openFile f ∈ s.log → s.rcv.pd = none → written f s.log = env.src) ∧
      (s.ncp.status = .returned →
        .openFile f ∈ s.log ∧ s.rcv.pd = none ∧ fileAfter f disk s.log = some env.src) := by
  intro s f
  obtain ⟨b, n, k, h⟩ := linked_run hname buf hrun
  have hprefix : written f s.log <+: env.src := by
    rw [h.written]
    exact firstBlocks_prefix k
  refine ⟨⟨k, h.transfer.cumSeq, h.written, hprefix, fun ho => h.file (h.opened.mp ho) disk⟩,
    h.only, fun ho hp => ?_, fun hr => ?_⟩
  · have hk := (h.pd (h.opened.mp ho)).mp hp
    rw [h.written, hk, chunks_lastChunk]
  · obtain ⟨hs, hp, hf⟩ := h.complete hr
    exact ⟨h.opened.mpr hs, hp, hf disk⟩

/-- A file of two packets over a file that was there. The second packet overtakes the
first, which is then sent on its NACK, and the buffered one again at a timeout. -/
theorem transfer_integrity_reordered :
    let env : NcpEnv := ⟨true, .replicate (pktDtSize + 1) 7, ⟨[97], by decide⟩, 1, ⟨1, 5⟩,
      fun _ => fullPkt [] 0 0 false, false⟩
    let junk : AckPkt := ⟨0, 0, true⟩
    let es : List NetEvent := [.ncpTimeout, .loseRcv 0, .ncpTimeout, .deliverRcv 1 junk,
      .loseRcv 0, .deliverNcp 0, .deliverRcv 0 junk, .deliverNcp 0, .ncpTimeout,
      .deliverRcv 0 junk, .deliverNcp 0]
    let s := es.foldl (netStep env) (.init env (fullPkt [] 0 0 false))
    s.ncp.status = .returned ∧
      fileAfter [97] (some [1, 2]) s.log = some (.replicate (pktDtSize + 1) 7) := by
  intro env junk es
  have hrun : Along (netStep env) BeforeSwitch (.init env (fullPkt [] 0 0 false)) es := by
    simp only [es, Along, BeforeSwitch, and_self]
  obtain ⟨-, -, -, hdone⟩ :=
    transfer_integrity env (by decide) (fullPkt [] 0 0 false) (some [1, 2]) es hrun
  have hret : (es.foldl (netStep env) (.init env (fullPkt [] 0 0 false))).ncp.status =
      .returned := by
    decide +kernel
  dsimp only
  exact ⟨hret, (hdone hret).2.2⟩

-- ---------------------------------------------------------------------------
-- The two windows
-- ---------------------------------------------------------------------------

def NcpState.front (s : NcpState) : ℤ :=
  match s.window with
  | [] => s.pktCnt
  | p :: _ => p.seq

def nackCount (out : List RcvEffect) : ℕ :=
  out.countP fun
    | .sendto _ q => q.isNack
    | _ => false

theorem nackCount_nacks {wSize lo hi : ℤ} {a : SockaddrIn} :
    nackCount (nacks wSize a lo hi) = (hi - (lo + 1)).toNat := by
  simp [nackCount, nacks, List.countP_map, Function.comp_def]

theorem nackCount_coreReceive (c : RcvCore) (p : NetPkt) (a : SockaddrIn) (junk : AckPkt) :
    nackCount (coreReceive c p a junk).2 ≤ (p.seq - (c.cumSeq + 1)).toNat := by
  refine coreReceive_cases
    (motive := fun r => nackCount r.2 ≤ (p.seq - (c.cumSeq + 1)).toNat) ?_ ?_ ?_ ?_ ?_ ?_
  · exact fun _ => Nat.zero_le _
  · exact fun _ _ => Nat.zero_le _
  · exact fun _ _ _ _ => Nat.zero_le _
  · exact fun _ _ _ _ => Nat.zero_le _
  · exact fun _ _ _ => nackCount_nacks.le
  · exact fun _ _ => Nat.zero_le _

theorem Filled.front {s : NcpState} (h : Filled env s b n) (hname : env.NameFits) :
    s.front = b := by
  have hle := h.le
  unfold NcpState.front
  rw [h.window]
  rcases hle.lt_or_eq with hlt | rfl
  · rw [pkts_eq_cons hlt]
    exact ncpPkt_seq hname b
  · rw [pkts_self le_rfl]
    exact h.pktCnt

/-- The sender's window starts at the packet after the receiver's count or
before it, acknowledgments in flight are no news to the receiver, and no packet
in flight is further ahead than a window. -/
theorem windows_agree (env : NcpEnv) (hname : env.NameFits) (buf : NetPkt) (es : List NetEvent)
    (hrun : Along (netStep env) BeforeSwitch (.init env buf) es) :
    let s := es.foldl (netStep env) (.init env buf)
    let b := s.ncp.front
    (b - 1 ≤ s.rcv.cumSeq ∧ s.rcv.cumSeq ≤ s.ncp.pktCnt - 1) ∧
      s.ncp.pktCnt - b ≤ env.wSize ∧
      (∀ q ∈ s.toNcp, q.isNack = false → q.cumSeq ≤ s.rcv.cumSeq) ∧
      (∀ p ∈ s.toRcv, p.seq < s.ncp.pktCnt ∧ p.seq ≤ s.rcv.cumSeq + env.wSize) ∧
      ∀ p ∈ s.toRcv, ∀ junk,
        nackCount (rcvStep s.rcv (.datagram env.addr p junk)).2 < env.wSize := by
  intro s b'
  obtain ⟨b, n, k, h⟩ := linked_run hname buf hrun
  have hfront : b' = b := h.sending.toFilled.front hname
  have hcum : s.rcv.cumSeq = k := h.transfer.cumSeq
  have hcnt : s.ncp.pktCnt = n := h.sending.pktCnt
  have hw := env.wSize_eq
  have hlo := h.lo
  have hhi := h.hi
  have hwidth := h.sending.width
  have hle := h.sending.le
  rw [hfront, hcum, hcnt, hw]
  refine ⟨by omega, by omega, fun q hq hn => (h.acks q hq).2 hn, fun p hp => ?_,
    fun p hp junk => ?_⟩
  · obtain ⟨j, -, hj, rfl⟩ := h.data p hp
    rw [ncpPkt_seq hname]
    omega
  · obtain ⟨j, h1, hj, rfl⟩ := h.data p hp
    obtain ⟨d, hd, -, heq⟩ := h.transfer.coreRecv_eq (carries_of_lt h h1 hj) junk
    have hout : (rcvStep s.rcv (.datagram env.addr (ncpPkt env j) junk)).2 =
        (coreRecv s.rcv.core env.addr (ncpPkt env j) junk).2 := out_core h.ok _
    have hone := nackCount_coreReceive d (ncpPkt env j) env.addr junk
    have hopen : nackCount (if s.rcv.core.rcvStart then [] else [.openFile env.dFname.1]) = 0 := by
      split_ifs <;> rfl
    have hseq := ncpPkt_seq hname j
    have hpos := env.width_pos
    rw [hseq, hd.cumSeq] at hone
    rw [hout, heq, nackCount, List.countP_append, ← nackCount, ← nackCount, hopen]
    omega

/-- Two packets are in flight after the first timeout of a sender of three. -/
theorem windows_agree_in_flight :
    let env : NcpEnv := ⟨true, .replicate (3 * pktDtSize) 7, ⟨[97], by decide⟩, 1, ⟨1, 5⟩,
      fun _ => fullPkt [] 0 0 false, false⟩
    let s := ([.ncpTimeout] : List NetEvent).foldl (netStep env) (.init env (fullPkt [] 0 0 false))
    s.toRcv.map (·.seq) = [1, 2] ∧
      ∀ p ∈ s.toRcv, p.seq < s.ncp.pktCnt ∧ p.seq ≤ s.rcv.cumSeq + env.wSize := by
  intro env
  have h := windows_agree env (by decide) (fullPkt [] 0 0 false) [.ncpTimeout] ⟨trivial, trivial⟩
  dsimp only at h ⊢
  exact ⟨by decide +kernel, h.2.2.2.1⟩

end Wan.Proj1
