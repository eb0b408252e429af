import Wan.Proj1.Net
import Mathlib.Data.List.TakeWhile

/-!
# The sizes that are reported

Both programs report `success_trans` when they are done. The receiver adds the
length of each chunk it takes, and reports the length of the file in every run.
The sender adds the `data_size` of an acknowledgment once for each packet it
dequeues with it: that is right only if the size is that of all of them, and it is
not when an acknowledgment got lost before that of the short last chunk, or when
the acknowledgment is one of those whose `data_size` was never set.
-/

namespace Wan.Proj1

open Posix Lib

-- ---------------------------------------------------------------------------
-- The report of the receiver
-- ---------------------------------------------------------------------------

/-- What a pass hands to `print_statistics_finish` as `success_trans`, if it closes
the file. -/
def finishReport (s : RcvState) (src : SockaddrIn) (pkt : NetPkt) (junk : AckPkt) : Option ℤ :=
  if src ∈ s.senderQ ∧ s.senderQ.head? ≠ some src then none
  else if s.rcvStart = false ∧ s.pd.isSome then none -- guard for re-open
  else
    let s := s.settled true src pkt
    let (s, _, continued) := handleReceive s pkt (s.senderQ.headD src) junk
    if !continued && s.done && s.pd.isSome then some s.successTrans else none

variable {s t : RcvState} {src : SockaddrIn} {pkt : NetPkt} {junk : AckPkt}

theorem handlePrint_success (t : RcvState) :
    (handlePrint t).1.successTrans = (if t.done = true ∧ t.pd ≠ none then 0 else t.successTrans) ∧
      ((∃ f, .close f ∈ (handlePrint t).2) ↔ t.done = true ∧ t.pd ≠ none) := by
  unfold handlePrint
  cases hd : t.done with
  | true => cases hp : t.pd <;> simp
  | false =>
    simp only [Bool.false_eq_true, false_and, if_false]
    split_ifs <;> simp

theorem receiveAndPrint_success {fromAddr : SockaddrIn} {t' : RcvState} {out : List RcvEffect}
    (h : handleReceive t pkt fromAddr junk = (t', out, false)) (hout : ∀ f, .close f ∉ out) :
    (receiveAndPrint t pkt fromAddr junk).1.successTrans =
        (if t'.done = true ∧ t'.pd ≠ none then 0 else t'.successTrans) ∧
      ((∃ f, .close f ∈ (receiveAndPrint t pkt fromAddr junk).2) ↔
        t'.done = true ∧ t'.pd ≠ none) := by
  obtain ⟨hsucc, hclose⟩ := handlePrint_success t'
  have heq : receiveAndPrint t pkt fromAddr junk =
      ((handlePrint t').1, out ++ (handlePrint t').2) := by
    rw [receiveAndPrint, h]
    rfl
  rw [heq]
  refine ⟨hsucc, ?_⟩
  rw [← hclose]
  simp only [List.mem_append, hout, false_or]

theorem rcvRecv_next (hok : s.core.Ok)
    (hadm : ¬ (src ∈ s.senderQ ∧ s.senderQ.head? ≠ some src)) (hseq : pkt.seq = s.cumSeq + 1)
    (hd : s.done = false) (junk : AckPkt) :
    (rcvRecv s src pkt junk).1.successTrans =
        (if pkt.isEnd then 0 else s.successTrans + pkt.dtSize) ∧
      ((∃ f, .close f ∈ (rcvRecv s src pkt junk).2) →
        pkt.isEnd = true ∧ finishReport s src pkt junk = some (s.successTrans + pkt.dtSize)) := by
  obtain ⟨hbuf, hcum, hdone, -, hsucc, -⟩ := settled_frame s true src pkt
  have hopen : (s.settled true src pkt).pd ≠ none := by
    rw [Ne, settled_closed hok, hdone, hd]
    exact Bool.false_ne_true
  have hrecv := handleReceive_next hbuf (by rw [hcum]; exact hseq)
    ((s.settled true src pkt).senderQ.headD src) junk
  rw [hdone, hsucc, hd] at hrecv
  have hout : ∀ f, .close f ∉ (.sendto ((s.settled true src pkt).senderQ.headD src)
      ⟨pkt.seq, pkt.dtSize, false⟩ :: (s.settled true src pkt).pdWrite pkt : List RcvEffect) := by
    intro f
    unfold RcvState.pdWrite
    cases (s.settled true src pkt).pd <;> simp
  have hguard : ¬ (s.rcvStart = false ∧ s.pd.isSome) := by
    rintro ⟨hs, hp⟩
    rw [show s.pd = none from (hok.idle hs).1] at hp
    cases hp
  obtain ⟨hsum, hclose⟩ := receiveAndPrint_success hrecv hout
  dsimp only at hsum hclose
  rw [rcvRecv_settled hok hadm, finishReport, if_neg hadm, if_neg hguard]
  dsimp only
  refine ⟨?_, ?_⟩
  · rw [hsum]
    cases pkt.isEnd <;> simp [hopen]
  · simp only [List.mem_append, close_not_mem_openFile, false_or]
    rw [hclose, hrecv]
    rintro ⟨hend, hp⟩
    have hend' : pkt.isEnd = true := by
      by_contra he
      rw [if_neg he] at hend
      cases hend
    refine ⟨hend', ?_⟩
    simp [hend', Option.isSome_iff_ne_none.mpr hp]

theorem rcvRecv_other (hok : s.core.Ok)
    (hadm : ¬ (src ∈ s.senderQ ∧ s.senderQ.head? ≠ some src)) (hseq : pkt.seq ≠ s.cumSeq + 1)
    (junk : AckPkt) :
    (rcvRecv s src pkt junk).1.successTrans = s.successTrans ∧
      ∀ f, .close f ∉ (rcvRecv s src pkt junk).2 := by
  obtain ⟨hbuf, hcum, -, -, hsucc, -⟩ := settled_frame s true src pkt
  have hopen := settled_closed hok src pkt
  obtain ⟨t, out, continued, hrecv, hpd, hdone', -, hsucc', -, -, hout⟩ := handleReceive_other hbuf
    (by rw [hcum]; exact hseq) ((s.settled true src pkt).senderQ.headD src) junk
  have hnot : ¬ (t.done = true ∧ t.pd ≠ none) := by
    rintro ⟨hd, hp⟩
    rw [hdone', ← hopen, ← hpd] at hd
    exact hp hd
  rw [rcvRecv_settled hok hadm]
  simp only [List.mem_append, close_not_mem_openFile, false_or]
  cases continued with
  | true =>
    rw [receiveAndPrint, hrecv]
    exact ⟨hsucc'.trans hsucc, hout⟩
  | false =>
    obtain ⟨hsum, hclose⟩ := receiveAndPrint_success hrecv hout
    rw [if_neg hnot] at hsum
    refine ⟨hsum.trans (hsucc'.trans hsucc), fun f hf => hnot ?_⟩
    exact hclose.mp ⟨f, hf⟩

-- ---------------------------------------------------------------------------
-- One transfer at the receiver
-- ---------------------------------------------------------------------------

variable {env : NcpEnv} {k j : ℕ}

structure Sized (env : NcpEnv) (s : RcvState) (k : ℕ) : Prop where
  transfer : InTransfer env.addr env.src env.dFname s.core k
  ok : s.core.Ok
  only : ∀ a ∈ s.senderQ, a = env.addr
  success : s.successTrans = if s.done then 0 else ((chunks env.src k).length : ℤ)

theorem length_chunks_succ (data : Bytes) (k : ℕ) :
    (chunks data (k + 1)).length = (chunks data k).length + (chunk data (k + 1)).length := by
  rw [chunks, firstBlocks_succ, List.length_append]

theorem sized_init (env : NcpEnv) (buf : NetPkt) : Sized env (.init buf) 0 where
  transfer := .inl ⟨⟨.inl rfl, rfl, RcvCore.ok_init buf⟩, rfl⟩
  ok := RcvCore.ok_init buf
  only := by simp [RcvState.init]
  success := rfl

/-- The next packet adds its chunk, any other nothing; and when the file is closed
the length of the whole source is reported. -/
theorem Sized.recv_success (h : Sized env s k) (hname : env.NameFits) (hj : j ≤ lastChunk env.src)
    (junk : AckPkt) :
    (rcvRecv s env.addr (ncpPkt env j) junk).1.successTrans =
        (if advance k j = lastChunk env.src then 0
          else ((chunks env.src (advance k j)).length : ℤ)) ∧
      ((∃ f, .close f ∈ (rcvRecv s env.addr (ncpPkt env j) junk).2) →
        finishReport s env.addr (ncpPkt env j) junk = some (env.src.length : ℤ)) := by
  have hdone : s.done = decide (k = lastChunk env.src) := h.transfer.done
  have hadm : ¬ (env.addr ∈ s.senderQ ∧ s.senderQ.head? ≠ some env.addr) :=
    fun hturned => hturned.2 (h.transfer.admitted hturned.1)
  have hcum : s.cumSeq = k := h.transfer.cumSeq
  have hsucc := h.success
  by_cases hnext : j = k + 1
  · subst hnext
    have hseq : (ncpPkt env (k + 1)).seq = s.cumSeq + 1 := by
      rw [hcum, ncpPkt_seq hname]
      exact Int.natCast_succ k
    have hd : s.done = false := by rw [hdone, decide_eq_false (by omega)]
    have hadd : s.successTrans + (ncpPkt env (k + 1)).dtSize = (chunks env.src (k + 1)).length := by
      rw [hsucc, hd, length_chunks_succ, ncpPkt_of_fits hname]
      exact (Int.natCast_add _ _).symm
    obtain ⟨hsum, hclose⟩ := rcvRecv_next h.ok hadm hseq hd junk
    rw [hadd] at hsum hclose
    rw [advance, if_pos rfl]
    refine ⟨hsum.trans ?_, fun hf => ?_⟩
    · simp [ncpPkt_isEnd hname]
    · obtain ⟨hend, hreport⟩ := hclose hf
      rw [ncpPkt_isEnd hname] at hend
      have hlast : k + 1 = lastChunk env.src := of_decide_eq_true hend
      rw [hreport, hlast, chunks_lastChunk]
  · have hseq : (ncpPkt env j).seq ≠ s.cumSeq + 1 := by
      rw [hcum, ncpPkt_seq hname]
      exact_mod_cast hnext
    obtain ⟨hsum, hclose⟩ := rcvRecv_other h.ok hadm hseq junk
    rw [advance, if_neg hnext]
    refine ⟨?_, ?_⟩
    · rw [hsum, hsucc, hdone]
      simp
    · rintro ⟨f, hf⟩
      exact absurd hf (hclose f)

theorem Sized.recv (h : Sized env s k) (hname : env.NameFits) (h1 : 1 ≤ j)
    (hj : j ≤ lastChunk env.src) (junk : AckPkt) :
    Sized env (rcvStep s (.datagram env.addr (ncpPkt env j) junk)).1 (advance k j) := by
  have hcore : (rcvStep s (.datagram env.addr (ncpPkt env j) junk)).1.core =
      (coreRecv s.core env.addr (ncpPkt env j) junk).1 := next_core h.ok _
  have htransfer : InTransfer env.addr env.src env.dFname
      (rcvStep s (.datagram env.addr (ncpPkt env j) junk)).1.core (advance k j) := by
    rw [hcore]
    exact .inr (h.transfer.recv (carries_ncpPkt hname h1 hj) junk).1
  have hdone : (rcvStep s (.datagram env.addr (ncpPkt env j) junk)).1.done =
      decide (advance k j = lastChunk env.src) := htransfer.done
  refine ⟨htransfer, next_ok h.ok _, fun a ha => ?_, ?_⟩
  · rw [show (rcvStep s _).1.senderQ = _ from congrArg RcvCore.senderQ hcore, coreRecv_senderQ,
      mem_joined] at ha
    exact ha.elim (h.only a) id
  · rw [hdone]
    refine Eq.trans (h.recv_success hname hj junk).1 ?_
    simp

theorem Sized.timeout (h : Sized env s k) (junk : AckPkt) :
    ∃ k', Sized env (rcvStep s (.timeout junk)).1 k' := by
  cases hd : s.done with
  | false =>
    have hsame : (rcvStep s (.timeout junk)).1 = s := by
      simp only [rcvStepWith, rcvTimeout, hd, Bool.false_eq_true, ↓reduceIte]
      split <;> rfl
    rw [hsame]
    exact ⟨k, h⟩
  | true =>
    -- SWITCH SENDER: the queue held this sender alone
    have hok : (rcvStep s (.timeout junk)).1.core.Ok := next_ok h.ok (.timeout junk)
    have heq : (rcvStep s (.timeout junk)).1 =
        { s with senderQ := s.senderQ.tail, done := false, rcvStart := false, cumSeq := 0 } := by
      simp only [rcvStepWith, rcvTimeout, hd, ↓reduceIte]
      split <;> rfl
    have htail : s.senderQ.tail = [] := by
      have hrep := List.eq_replicate_of_mem h.only
      have hone : s.senderQ.length ≤ 1 := by
        have hnodup : s.senderQ.Nodup := h.ok.nodup
        rwa [hrep, List.nodup_replicate] at hnodup
      rw [← List.length_eq_zero_iff, List.length_tail, Nat.sub_eq_zero_of_le hone]
    rw [heq] at hok ⊢
    refine ⟨0, .inl ⟨⟨.inl htail, rfl, hok⟩, rfl⟩, hok, ?_, ?_⟩
    · intro a ha
      exact h.only a (List.mem_of_mem_tail ha)
    · exact h.success.trans (by rw [hd]; rfl)

-- ---------------------------------------------------------------------------
-- The report of the sender
-- ---------------------------------------------------------------------------

variable {c : NcpState} {b n : ℕ} {ack : AckPkt}

theorem pkts_append {m : ℕ} (h : b ≤ m) (h' : m ≤ n) :
    pkts env b m ++ pkts env m n = pkts env b n := by
  induction n, h' using Nat.le_induction with
  | base => rw [pkts_self le_rfl, List.append_nil]
  | succ n hn ih => rw [pkts_succ hn, pkts_succ (h.trans hn), ← List.append_assoc, ih]

theorem acked_le (h : b ≤ n) (cumSeq : ℤ) : b ≤ acked b n cumSeq ∧ acked b n cumSeq ≤ n :=
  ⟨le_max_left _ _, max_le h (min_le_left _ _)⟩

theorem pkts_takeWhile (hname : env.NameFits) (h : b ≤ n) (cumSeq : ℤ) :
    (pkts env b n).takeWhile (fun p => p.seq ≤ cumSeq) = pkts env b (acked b n cumSeq) := by
  obtain ⟨hlo, hhi⟩ := acked_le h cumSeq
  rw [← List.append_left_inj (pkts env (acked b n cumSeq) n), pkts_append hlo hhi,
    ← pkts_dropWhile hname, List.takeWhile_append_dropWhile]

theorem length_chunks_pkts {m : ℕ} {size : ℤ} (hname : env.NameFits) (hb : 1 ≤ b) (hm : b ≤ m)
    (h : ∀ p ∈ pkts env b m, p.dtSize = size) :
    ((chunks env.src (b - 1)).length : ℤ) + (pkts env b m).length * size =
      (chunks env.src (m - 1)).length := by
  induction m, hm using Nat.le_induction with
  | base => simp [pkts_self le_rfl]
  | succ m hm ih =>
    rw [pkts_succ hm] at h
    have hsize : ((chunk env.src m).length : ℤ) = size := by
      rw [← h (ncpPkt env m) (by simp), ncpPkt_of_fits hname]
    have hprev := ih fun p hp => h p (List.mem_append_left _ hp)
    have hchunks := length_chunks_succ env.src (m - 1)
    rw [Nat.sub_add_cancel (hb.trans hm)] at hchunks
    rw [Nat.add_sub_cancel, hchunks, pkts_succ hm, List.length_append, List.length_singleton]
    push_cast
    rw [← hprev, hsize]
    ring

def Sizes (c : NcpState) (ack : AckPkt) : Prop :=
  c.status = .running → ack.isNack = false →
    ∀ p ∈ c.window, p.seq ≤ ack.cumSeq → p.dtSize = ack.dataSize

instance (c : NcpState) (ack : AckPkt) : Decidable (Sizes c ack) := by
  unfold Sizes
  infer_instance

structure Summed (env : NcpEnv) (c : NcpState) (b n : ℕ) : Prop extends Sending env c b n where
  success : c.successTrans = (chunks env.src (b - 1)).length
  returned : c.status = .returned → b = lastChunk env.src + 1

theorem summed_init (hname : env.NameFits) : Summed env (.init env) 1 1 where
  toSending := sending_init hname
  success := rfl
  returned := by rintro ⟨⟩

theorem Summed.recvAck (h : Summed env c b n) (hr : c.status = .running)
    (hack : ack.isNack = false) (hsize : Sizes c ack) :
    Summed env (ncpRecv c ack).1 (acked b n ack.cumSeq) n := by
  obtain ⟨hsending, -, hstatus⟩ := h.toSending.recvAck hr hack
  obtain ⟨hlo, hhi⟩ := acked_le h.le ack.cumSeq
  have htake : (pkts env b n).takeWhile (fun p => p.seq ≤ ack.cumSeq) = _ :=
    pkts_takeWhile h.fits h.le ack.cumSeq
  refine ⟨hsending, ?_, fun hret => ?_⟩
  · have hone : ∀ p ∈ pkts env b (acked b n ack.cumSeq), p.dtSize = ack.dataSize := by
      intro p hp
      have hmem : p ∈ c.window := by
        rw [h.window, ← pkts_append hlo hhi]
        exact List.mem_append_left _ hp
      rw [← htake] at hp
      exact hsize hr hack p hmem (by simpa using List.mem_takeWhile_imp hp)
    obtain ⟨u, rec, heq, -⟩ := ncpRecv_ack c hack
    rw [heq]
    dsimp only
    rw [h.window, htake, h.success, length_chunks_pkts h.fits h.pos hlo hone]
  · rw [hstatus] at hret
    split_ifs at hret with hend
    rw [acked]
    have := h.le
    omega

theorem ncpRecv_nack_success (hack : ack.isNack = true) :
    (ncpRecv c ack).1.successTrans = c.successTrans := by
  cases hf : c.window.find? (fun p => p.seq = ack.cumSeq) with
  | none => rw [ncpRecv_missed hack hf]
  | some pkt =>
    obtain ⟨rec, heq⟩ := ncpRecv_found hack hf
    rw [heq]

theorem Summed.step (h : Summed env c b n) {e : NcpEvent} (he : ∀ q, e = .ack q → Sizes c q) :
    ∃ b' n', Summed env (ncpStep env c e).1 b' n' := by
  by_cases hr : c.status = .running
  swap
  · rw [ncpStep_stopped hr]
    exact ⟨b, n, h⟩
  cases e with
  | timeout =>
    obtain ⟨-, hstatus, hsucc⟩ := ncpTimeout_keeps env c
    simp only [ncpStep, hr]
    cases hb : c.blocked with
    | true =>
      have hidle : ncpTimeout env c = (c, []) := by simp [ncpTimeout, hb]
      rw [hidle]
      exact ⟨b, n, h⟩
    | false =>
      refine ⟨b, env.limit b, (h.toSending.timeout hr hb).1, hsucc.trans h.success, fun hret => ?_⟩
      rw [hstatus, hr] at hret
      cases hret
  | ack q =>
    simp only [ncpStep, hr]
    cases hq : q.isNack with
    | true =>
      obtain ⟨hsending, -, hret⟩ := h.toSending.recvNack hr hq
      exact ⟨b, n, hsending, (ncpRecv_nack_success hq).trans h.success, fun hr' => absurd hr' hret⟩
    | false => exact ⟨_, n, h.recvAck hr hq (he q rfl)⟩

-- ---------------------------------------------------------------------------
-- Whole runs
-- ---------------------------------------------------------------------------

/-- The sender handles only acknowledgments with the size of what they dequeue. -/
def AckSized (s : Net) : NetEvent → Prop
  | .deliverNcp i => ∀ q ∈ s.toNcp[i]?, Sizes s.ncp q
  | _ => True

instance (s : Net) (e : NetEvent) : Decidable (AckSized s e) := by
  unfold AckSized
  split <;> infer_instance

def ReportsLength (env : NcpEnv) (s : Net) : NetEvent → Prop
  | .deliverRcv i junk => ∀ p ∈ s.toRcv[i]?,
    (∃ f, .close f ∈ (rcvStep s.rcv (.datagram env.addr p junk)).2) →
      finishReport s.rcv env.addr p junk = some (env.src.length : ℤ)
  | _ => True

/-- What every run keeps, also past the timeout that ends the transfer. -/
structure Consistent (env : NcpEnv) (s : Net) : Prop where
  ncp : ∃ b n, Sending env s.ncp b n
  rcv : ∃ k, Sized env s.rcv k
  data : ∀ p ∈ s.toRcv, ∃ j, 1 ≤ j ∧ j ≤ lastChunk env.src ∧ p = ncpPkt env j

theorem consistent_init (hname : env.NameFits) (buf : NetPkt) : Consistent env (.init env buf) where
  ncp := ⟨1, 1, sending_init hname⟩
  rcv := ⟨0, sized_init env buf⟩
  data := by simp [Net.init]

variable {net : Net}

theorem Consistent.channels (h : Consistent env net) (toRcv : List NetPkt) (toNcp : List AckPkt)
    (hr : ∀ p ∈ toRcv, p ∈ net.toRcv) :
    Consistent env { net with toRcv := toRcv, toNcp := toNcp } where
  ncp := h.ncp
  rcv := h.rcv
  data := fun p hp => h.data p (hr p hp)

theorem Consistent.ncpDo (h : Consistent env net) (e : NcpEvent) :
    Consistent env (net.ncpDo env e) := by
  obtain ⟨b, n, hs⟩ := h.ncp
  obtain ⟨b', n', hs', -, hout, -⟩ := hs.step e
  refine ⟨⟨b', n', hs'⟩, h.rcv, fun p hp => ?_⟩
  rcases List.mem_append.mp hp with hp | hp
  · exact h.data p hp
  · obtain ⟨j, h1, hj, rfl⟩ := hout p hp
    have := hs'.last
    exact ⟨j, h1, by omega, rfl⟩

theorem Consistent.rcvDo (h : Consistent env net) {e : RcvEvent}
    (he : ∃ k, Sized env (rcvStep net.rcv e).1 k) : Consistent env (net.rcvDo env e) :=
  ⟨h.ncp, he, h.data⟩

theorem Consistent.step (h : Consistent env net) (e : NetEvent) :
    Consistent env (netStep env net e) := by
  obtain ⟨k, hk⟩ := h.rcv
  obtain ⟨_, _, hs⟩ := h.ncp
  cases e with
  | ncpTimeout => exact h.ncpDo .timeout
  | rcvTimeout junk => exact h.rcvDo (hk.timeout junk)
  | deliverRcv i junk =>
    cases hp : net.toRcv[i]? with
    | none =>
      simp only [netStep, hp]
      exact h
    | some p =>
      simp only [netStep, hp]
      obtain ⟨j, h1, hj, rfl⟩ := h.data p (List.mem_of_getElem? hp)
      have h' := h.channels (Channel.lose net.toRcv i) net.toNcp fun p => Channel.mem_of_mem_lose
      exact h'.rcvDo ⟨_, hk.recv hs.fits h1 hj junk⟩
  | deliverNcp i =>
    cases hq : net.toNcp[i]? with
    | none =>
      simp only [netStep, hq]
      exact h
    | some q =>
      simp only [netStep, hq]
      have h' := h.channels net.toRcv (Channel.lose net.toNcp i) fun p hp => hp
      exact h'.ncpDo (.ack q)
  | loseRcv i => exact h.channels _ _ fun p => Channel.mem_of_mem_lose
  | loseNcp i => exact h.channels _ _ fun p hp => hp
  | duplicateRcv i => exact h.channels _ _ fun p => Channel.mem_of_mem_duplicate
  | duplicateNcp i => exact h.channels _ _ fun p hp => hp

theorem Consistent.reports (h : Consistent env net) (e : NetEvent) : ReportsLength env net e := by
  obtain ⟨k, hk⟩ := h.rcv
  obtain ⟨_, _, hs⟩ := h.ncp
  cases e with
  | deliverRcv i junk =>
    intro p hp
    obtain ⟨j, -, hj, rfl⟩ := h.data p (List.mem_of_getElem? hp)
    exact (hk.recv_success hs.fits hj junk).2
  | _ => trivial

theorem summed_step (h : ∃ b n, Summed env net.ncp b n) {e : NetEvent} (he : AckSized net e) :
    ∃ b n, Summed env (netStep env net e).ncp b n := by
  obtain ⟨b, n, hs⟩ := h
  cases e with
  | ncpTimeout =>
    refine hs.step ?_
    rintro q ⟨⟩
  | deliverNcp i =>
    cases hq : net.toNcp[i]? with
    | none =>
      simp only [netStep, hq]
      exact ⟨b, n, hs⟩
    | some q =>
      simp only [netStep, hq]
      refine hs.step ?_
      rintro q' ⟨⟩
      exact he q hq
  | deliverRcv i junk =>
    refine ⟨b, n, ?_⟩
    cases hp : net.toRcv[i]? with
    | none =>
      simp only [netStep, hp]
      exact hs
    | some p =>
      simp only [netStep, hp]
      exact hs
  | _ => exact ⟨b, n, hs⟩

/-- In every run of one receiver and one sender whose destination name fits, the receiver
reports the length of the source whenever it closes the file; and a sender that only
handled acknowledgments with the size of the packets they dequeue has the same sum when
it returns. -/
theorem reported_sizes (env : NcpEnv) (hname : env.NameFits) (buf : NetPkt) (es : List NetEvent) :
    Along (netStep env) (ReportsLength env) (.init env buf) es ∧
      (Along (netStep env) AckSized (.init env buf) es →
        (es.foldl (netStep env) (.init env buf)).ncp.status = .returned →
        (es.foldl (netStep env) (.init env buf)).ncp.successTrans = env.src.length) := by
  constructor
  · exact along_trivial.strengthen (I := Consistent env) (consistent_init hname buf)
      (fun _ e h _ => h.step e) fun _ e h _ => h.reports e
  · intro hrun hret
    obtain ⟨b, n, hs⟩ := hrun.inv (I := fun s => ∃ b n, Summed env s.ncp b n)
      ⟨1, 1, summed_init hname⟩ fun _ _ h he => summed_step h he
    rw [hs.success, hs.returned hret, Nat.add_sub_cancel, chunks_lastChunk]

/-- The one byte of a short file, acknowledged once. -/
theorem reported_sizes_byte :
    let env : NcpEnv :=
      ⟨true, [7], ⟨[97], by decide⟩, 1, ⟨1, 5⟩, fun _ => fullPkt [] 0 0 false, false⟩
    let es : List NetEvent := [.ncpTimeout, .ncpTimeout, .deliverRcv 0 ⟨0, 0, false⟩, .deliverNcp 0]
    let s := es.foldl (netStep env) (.init env (fullPkt [] 0 0 false))
    .close [97] ∈ s.log ∧ s.ncp.status = .returned ∧ s.ncp.successTrans = 1 := by
  intro env es
  have hclose : .close [97] ∈ (es.foldl (netStep env) (.init env (fullPkt [] 0 0 false))).log := by
    decide +kernel
  have hret : (es.foldl (netStep env) (.init env (fullPkt [] 0 0 false))).ncp.status =
      .returned := by
    decide +kernel
  have hsized : Along (netStep env) AckSized (.init env (fullPkt [] 0 0 false)) es := by
    decide +kernel
  have hsum := (reported_sizes env (by decide) (fullPkt [] 0 0 false) es).2 hsized hret
  dsimp only
  exact ⟨hclose, hret, hsum⟩

/-- The acknowledgment of the first of two packets is lost. That of the second, which
carries the one byte left over, takes both off the window and counts as two bytes. -/
theorem reported_size_short :
    let env : NcpEnv := ⟨true, .replicate (pktDtSize + 1) 7, ⟨[97], by decide⟩, 1, ⟨1, 5⟩,
      fun _ => fullPkt [] 0 0 false, false⟩
    let es : List NetEvent := [.ncpTimeout, .ncpTimeout, .deliverRcv 0 ⟨0, 0, false⟩,
      .deliverRcv 1 ⟨0, 0, false⟩, .loseNcp 0, .deliverNcp 0]
    let s := es.foldl (netStep env) (.init env (fullPkt [] 0 0 false))
    .close [97] ∈ s.log ∧ s.ncp.status = .returned ∧ s.ncp.successTrans = 2 ∧
      env.src.length = 1356 := by
  decide +kernel

end Wan.Proj1
