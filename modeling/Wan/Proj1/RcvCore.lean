import Wan.Proj1.Rcv

/-!
# What the receiver amounts to

All entries of the window point to the packet just received, so the dequeue loop
never runs and at most one entry is ever buffered, which then only silences
further NACKs. What is left is a receiver that takes packets in order and drops
the rest. `coreStep` is that receiver, without the buffer, the statistics and
the sorting; `rcvStep_core` says the program refines it from every state its
loop can be in, `Ok`, which every pass keeps.
-/

namespace Wan.Proj1

open Posix

structure RcvCore where
  senderQ : List SockaddrIn
  pd : Option Fname
  window : List PktPtr
  cumSeq : ℤ
  done : Bool
  rcvStart : Bool
  deriving DecidableEq

def RcvState.core (s : RcvState) : RcvCore where
  senderQ := s.senderQ
  pd := s.pd
  window := s.window
  cumSeq := s.cumSeq
  done := s.done
  rcvStart := s.rcvStart

/-- The states the loop is in: `pd` is open exactly while a transfer that has
started is not done. -/
structure RcvCore.Ok (c : RcvCore) : Prop where
  nodup : c.senderQ.Nodup
  idle : c.rcvStart = false → c.pd = none ∧ c.done = false ∧ c.cumSeq = 0
  queued : c.rcvStart = true → c.senderQ ≠ []
  closed : c.rcvStart = true → (c.pd = none ↔ c.done = true)

-- ---------------------------------------------------------------------------
-- The in-order receiver
-- ---------------------------------------------------------------------------

def coreReceive (c : RcvCore) (pkt : NetPkt) (fromAddr : SockaddrIn) (junk : AckPkt) :
    RcvCore × List RcvEffect :=
  if pkt.seq ≤ c.cumSeq then
    (c, [.sendto fromAddr { junk with cumSeq := c.cumSeq, isNack := false }])
  else if pkt.seq = c.cumSeq + 1 then
    let ack : RcvEffect := .sendto fromAddr ⟨pkt.seq, pkt.dtSize, false⟩
    match c.pd with
    | none => ({ c with cumSeq := pkt.seq }, [ack])
    | some f =>
      if pkt.isEnd then
        ({ c with cumSeq := pkt.seq, done := true, pd := none },
          [ack, .write f pkt.payload, .close f])
      else ({ c with cumSeq := pkt.seq }, [ack, .write f pkt.payload])
  else if c.window = [] ∧ 0 < pkt.wSize then
    ({ c with window := [.messBuf] }, nacks pkt.wSize fromAddr c.cumSeq pkt.seq)
  else (c, [])

def joined (q : List SockaddrIn) (src : SockaddrIn) : List SockaddrIn :=
  if src ∈ q then q else q ++ [src]

def coreRecv (c : RcvCore) (src : SockaddrIn) (pkt : NetPkt) (junk : AckPkt) :
    RcvCore × List RcvEffect :=
  if src ∈ c.senderQ ∧ c.senderQ.head? ≠ some src then
    (c, [.sendto src { junk with cumSeq := -1 }])
  else
    let q := joined c.senderQ src
    if c.rcvStart then coreReceive { c with senderQ := q } pkt (q.headD src) junk
    else
      let f := pkt.name
      let r := coreReceive { c with senderQ := q, pd := some f, rcvStart := true } pkt
        (q.headD src) junk
      (r.1, .openFile f :: r.2)

def coreTimeout (c : RcvCore) (junk : AckPkt) : RcvCore × List RcvEffect :=
  let c := if c.done then
      { c with senderQ := c.senderQ.tail, done := false, rcvStart := false, cumSeq := 0 }
    else c
  (c, c.senderQ.head?.toList.map fun head => .sendto head { junk with cumSeq := c.cumSeq })

def coreStep (c : RcvCore) : RcvEvent → RcvCore × List RcvEffect
  | .datagram src pkt junk => coreRecv c src pkt junk
  | .empty => (c, [])
  | .timeout junk => coreTimeout c junk

-- The six things that can happen to a packet once its sender is settled.
section
variable {c : RcvCore} {pkt : NetPkt} {fromAddr : SockaddrIn} {junk : AckPkt} {f : Fname}

theorem coreReceive_old (h : pkt.seq ≤ c.cumSeq) : coreReceive c pkt fromAddr junk =
    (c, [.sendto fromAddr { junk with cumSeq := c.cumSeq, isNack := false }]) := if_pos h

theorem coreReceive_closed (h : pkt.seq = c.cumSeq + 1) (hp : c.pd = none) :
    coreReceive c pkt fromAddr junk =
      ({ c with cumSeq := pkt.seq }, [.sendto fromAddr ⟨pkt.seq, pkt.dtSize, false⟩]) := by
  rw [coreReceive, if_neg (by omega), if_pos h, hp]

theorem coreReceive_next (h : pkt.seq = c.cumSeq + 1) (hp : c.pd = some f)
    (he : pkt.isEnd = false) : coreReceive c pkt fromAddr junk =
      ({ c with cumSeq := pkt.seq },
        [.sendto fromAddr ⟨pkt.seq, pkt.dtSize, false⟩, .write f pkt.payload]) := by
  rw [coreReceive, if_neg (by omega), if_pos h, hp]
  simp [he]

theorem coreReceive_last (h : pkt.seq = c.cumSeq + 1) (hp : c.pd = some f)
    (he : pkt.isEnd = true) : coreReceive c pkt fromAddr junk =
      ({ c with cumSeq := pkt.seq, done := true, pd := none },
        [.sendto fromAddr ⟨pkt.seq, pkt.dtSize, false⟩, .write f pkt.payload, .close f]) := by
  rw [coreReceive, if_neg (by omega), if_pos h, hp]
  simp [he]

theorem coreReceive_buffer (h : c.cumSeq + 1 < pkt.seq) (hw : c.window = [])
    (hpos : 0 < pkt.wSize) : coreReceive c pkt fromAddr junk =
      ({ c with window := [.messBuf] }, nacks pkt.wSize fromAddr c.cumSeq pkt.seq) := by
  rw [coreReceive, if_neg (by omega), if_neg (by omega), if_pos ⟨hw, hpos⟩]

theorem coreReceive_drop (h : c.cumSeq + 1 < pkt.seq) (hw : c.window ≠ [] ∨ pkt.wSize ≤ 0) :
    coreReceive c pkt fromAddr junk = (c, []) := by
  rw [coreReceive, if_neg (by omega), if_neg (by omega), if_neg]
  rintro ⟨hnil, hpos⟩
  rcases hw with hw | hw
  · exact hw hnil
  · omega

theorem coreReceive_cases {motive : RcvCore × List RcvEffect → Prop}
    (old : pkt.seq ≤ c.cumSeq →
      motive (c, [.sendto fromAddr { junk with cumSeq := c.cumSeq, isNack := false }]))
    (closed : pkt.seq = c.cumSeq + 1 → c.pd = none → motive ({ c with cumSeq := pkt.seq },
      [.sendto fromAddr ⟨pkt.seq, pkt.dtSize, false⟩]))
    (next : ∀ f, pkt.seq = c.cumSeq + 1 → c.pd = some f → pkt.isEnd = false →
      motive ({ c with cumSeq := pkt.seq },
        [.sendto fromAddr ⟨pkt.seq, pkt.dtSize, false⟩, .write f pkt.payload]))
    (last : ∀ f, pkt.seq = c.cumSeq + 1 → c.pd = some f → pkt.isEnd = true →
      motive ({ c with cumSeq := pkt.seq, done := true, pd := none },
        [.sendto fromAddr ⟨pkt.seq, pkt.dtSize, false⟩, .write f pkt.payload, .close f]))
    (buffer : c.cumSeq + 1 < pkt.seq → c.window = [] → 0 < pkt.wSize →
      motive ({ c with window := [.messBuf] }, nacks pkt.wSize fromAddr c.cumSeq pkt.seq))
    (drop : c.cumSeq + 1 < pkt.seq → c.window ≠ [] ∨ pkt.wSize ≤ 0 → motive (c, [])) :
    motive (coreReceive c pkt fromAddr junk) := by
  rcases lt_trichotomy pkt.seq (c.cumSeq + 1) with h | h | h
  · rw [coreReceive_old (by omega)]
    exact old (by omega)
  · cases hp : c.pd with
    | none => rw [coreReceive_closed h hp]; exact closed h hp
    | some f =>
      cases he : pkt.isEnd with
      | false => rw [coreReceive_next h hp he]; exact next f h hp he
      | true => rw [coreReceive_last h hp he]; exact last f h hp he
  · by_cases hw : c.window = [] ∧ 0 < pkt.wSize
    · rw [coreReceive_buffer h hw.1 hw.2]
      exact buffer h hw.1 hw.2
    · have hw' : c.window ≠ [] ∨ pkt.wSize ≤ 0 := by
        by_cases hnil : c.window = []
        · exact .inr (by simpa [hnil] using hw)
        · exact .inl hnil
      rw [coreReceive_drop h hw']
      exact drop h hw'

end

-- ---------------------------------------------------------------------------
-- The window under aliasing
-- ---------------------------------------------------------------------------

variable {s : RcvState} {pkt : NetPkt} {fromAddr src : SockaddrIn} {junk : AckPkt}

theorem deref_eq (h : s.messBuf = pkt) (q : PktPtr) : s.deref q = pkt := by
  cases q
  exact h

/-- The front entry reads as the packet whose number `cum_seq` just became, so
it is never the next one. -/
theorem dequeueBuffer_idle (h : s.messBuf = pkt) (hc : s.cumSeq = pkt.seq) (p : AckPkt)
    (w : List PktPtr) : dequeueBuffer pkt p fromAddr w s = ({ s with window := w }, []) := by
  cases w with
  | nil => rfl
  | cons q qs =>
    have hne : (s.deref q).seq ≠ s.cumSeq + 1 := by
      rw [deref_eq h, hc]
      omega
    simp only [dequeueBuffer, if_neg hne]

theorem sequentialPkt_eq (h : s.messBuf = pkt) : sequentialPkt s pkt fromAddr =
    ({ s with
        cumSeq := pkt.seq
        done := if pkt.isEnd then true else s.done
        successTrans := s.successTrans + pkt.dtSize },
      .sendto fromAddr ⟨pkt.seq, pkt.dtSize, false⟩ :: s.pdWrite pkt) := by
  simp only [sequentialPkt]
  rw [dequeueBuffer_idle (by exact h) rfl]
  simp [RcvState.pdWrite]

theorem futurePkt_empty (h : s.messBuf = pkt) (hw : s.window = []) : futurePkt s pkt fromAddr =
    ({ s with window := [.messBuf] }, nacks pkt.wSize fromAddr s.cumSeq pkt.seq, false) := by
  simp [futurePkt, hw, gappedNacks, RcvState.deref, h]

theorem futurePkt_buffered (h : s.messBuf = pkt) (hw : s.window ≠ []) :
    futurePkt s pkt fromAddr = (s, [], true) := by
  obtain ⟨q, qs, hq⟩ := List.exists_cons_of_ne_nil hw
  simp [futurePkt, hq, deref_eq h q]

theorem handleReceive_next (h : s.messBuf = pkt) (hseq : pkt.seq = s.cumSeq + 1)
    (fromAddr : SockaddrIn) (junk : AckPkt) :
    handleReceive s pkt fromAddr junk = ({ s with
        cumSeq := pkt.seq
        done := if pkt.isEnd then true else s.done
        successTrans := s.successTrans + pkt.dtSize },
      .sendto fromAddr ⟨pkt.seq, pkt.dtSize, false⟩ :: s.pdWrite pkt, false) := by
  rw [handleReceive, if_neg (by omega), if_pos hseq, sequentialPkt_eq h]

theorem handleReceive_other (h : s.messBuf = pkt) (hseq : pkt.seq ≠ s.cumSeq + 1)
    (fromAddr : SockaddrIn) (junk : AckPkt) :
    ∃ s' out continued, handleReceive s pkt fromAddr junk = (s', out, continued) ∧ s'.pd = s.pd ∧
      s'.done = s.done ∧ s'.totalTrans = s.totalTrans ∧ s'.successTrans = s.successTrans ∧
      s'.lastRecordBytes = s.lastRecordBytes ∧ s'.rcvStart = s.rcvStart ∧ ∀ f, .close f ∉ out := by
  unfold handleReceive
  split_ifs
  · exact ⟨_, _, _, rfl, rfl, rfl, rfl, rfl, rfl, rfl, by simp⟩
  · by_cases hw : s.window = []
    · rw [futurePkt_empty h hw]
      refine ⟨_, _, _, rfl, rfl, rfl, rfl, rfl, rfl, rfl, fun f hf => ?_⟩
      obtain ⟨i, -, hi⟩ := List.mem_map.mp hf
      cases hi
    · rw [futurePkt_buffered h hw]
      exact ⟨_, _, _, rfl, rfl, rfl, rfl, rfl, rfl, rfl, by simp⟩
  · exact ⟨_, _, _, rfl, rfl, rfl, rfl, rfl, rfl, rfl, by simp⟩

-- ---------------------------------------------------------------------------
-- Refinement
-- ---------------------------------------------------------------------------

theorem handlePrint_core (s : RcvState) : (handlePrint s).map RcvState.core id =
    if s.done then ({ s.core with pd := none }, s.pd.toList.map .close) else (s.core, []) := by
  unfold handlePrint
  cases hd : s.done with
  | true => cases hp : s.pd <;> simp [RcvState.core, hd, hp]
  | false =>
    simp only [Bool.false_eq_true, ↓reduceIte]
    split_ifs <;> simp [RcvState.core, hd]

theorem receiveAndPrint_of {s' : RcvState} {out : List RcvEffect}
    (h : handleReceive s pkt fromAddr junk = (s', out, false)) :
    (receiveAndPrint s pkt fromAddr junk).map RcvState.core id =
      if s'.done then ({ s'.core with pd := none }, out ++ s'.pd.toList.map .close)
      else (s'.core, out) := by
  have hp := handlePrint_core s'
  simp only [receiveAndPrint, h, Bool.false_eq_true, ↓reduceIte]
  split_ifs at hp ⊢ <;> simp_all [Prod.ext_iff]

theorem receiveAndPrint_core (h : s.messBuf = pkt) (hc : s.pd = none ↔ s.done = true) :
    (receiveAndPrint s pkt fromAddr junk).map RcvState.core id =
      coreReceive s.core pkt fromAddr junk := by
  -- with nothing received in order, a finished transfer has no file left to close
  have hidle : ∀ out : List RcvEffect,
      (if s.done then ({ s.core with pd := none }, out ++ s.pd.toList.map .close)
        else (s.core, out)) = (s.core, out) := by
    intro out
    cases hd : s.done with
    | true => simp [RcvState.core, hd, hc.mpr hd]
    | false => simp
  by_cases hold : pkt.seq ≤ s.cumSeq
  · rw [receiveAndPrint_of (by rw [handleReceive, if_pos hold]), hidle,
      coreReceive_old (by exact hold)]
    rfl
  by_cases hseq : pkt.seq = s.cumSeq + 1
  · rw [receiveAndPrint_of (by rw [handleReceive, if_neg hold, if_pos hseq, sequentialPkt_eq h])]
    cases hp : s.pd with
    | none =>
      rw [coreReceive_closed (by exact hseq) (by exact hp)]
      simp [RcvState.core, RcvState.pdWrite, hp, hc.mp hp]
    | some f =>
      have hd : s.done = false := by simpa [hp] using hc
      cases he : pkt.isEnd with
      | false =>
        rw [coreReceive_next (by exact hseq) (by exact hp) he]
        simp [RcvState.core, RcvState.pdWrite, hp, hd]
      | true =>
        rw [coreReceive_last (by exact hseq) (by exact hp) he]
        simp [RcvState.core, RcvState.pdWrite, hp, hd]
  have hfut : s.core.cumSeq + 1 < pkt.seq := by
    have : s.core.cumSeq = s.cumSeq := rfl
    omega
  by_cases hroom : (s.window.length : ℤ) < pkt.wSize
  · by_cases hw : s.window = []
    · rw [coreReceive_buffer hfut hw (by simpa [hw] using hroom), receiveAndPrint_of (by
        rw [handleReceive, if_neg hold, if_neg hseq, if_pos hroom, futurePkt_empty h hw])]
      cases hd : s.done with
      | true => simp [RcvState.core, hd, hc.mpr hd]
      | false => simp [RcvState.core, hd]
    · rw [coreReceive_drop hfut (.inl hw)]
      simp [receiveAndPrint, handleReceive, hold, hseq, hroom, futurePkt_buffered h hw]
  · have hw : s.core.window ≠ [] ∨ pkt.wSize ≤ 0 := by
      by_cases hnil : s.window = []
      · exact .inr (by simpa [hnil] using hroom)
      · exact .inl hnil
    rw [coreReceive_drop hfut hw, receiveAndPrint_of (by
      rw [handleReceive, if_neg hold, if_neg hseq, if_neg hroom]), hidle]

theorem core_enqueue (s : RcvState) (src : SockaddrIn) :
    (s.enqueue src).core = { s.core with senderQ := joined s.senderQ src } := by
  unfold RcvState.enqueue joined
  split_ifs <;> rfl

def RcvState.settled (s : RcvState) (opens : Bool) (src : SockaddrIn) (pkt : NetPkt) : RcvState :=
  let s := (s.received pkt).enqueue src
  if s.rcvStart then s else s.openPd opens pkt.name

theorem core_settled (s : RcvState) (src : SockaddrIn) (pkt : NetPkt) :
    (s.settled true src pkt).core = { s.core with
      senderQ := joined s.senderQ src
      pd := if s.rcvStart then s.pd else some pkt.name
      rcvStart := true } := by
  have henq : ((s.received pkt).enqueue src).core =
      { s.core with senderQ := joined s.senderQ src } := core_enqueue _ _
  have hstart : ((s.received pkt).enqueue src).rcvStart = s.rcvStart :=
    congrArg RcvCore.rcvStart henq
  unfold RcvState.settled
  dsimp only
  rw [hstart]
  cases hs : s.rcvStart with
  | true =>
    refine henq.trans ?_
    simp [RcvState.core, hs]
  | false =>
    rw [if_neg Bool.false_ne_true, if_neg Bool.false_ne_true]
    exact congrArg (fun c : RcvCore => { c with pd := some pkt.name, rcvStart := true }) henq

theorem settled_frame (s : RcvState) (opens : Bool) (src : SockaddrIn) (pkt : NetPkt) :
    (s.settled opens src pkt).messBuf = pkt ∧ (s.settled opens src pkt).cumSeq = s.cumSeq ∧
      (s.settled opens src pkt).done = s.done ∧
      (s.settled opens src pkt).totalTrans = (s.received pkt).totalTrans ∧
      (s.settled opens src pkt).successTrans = s.successTrans ∧
      (s.settled opens src pkt).lastRecordBytes = s.lastRecordBytes := by
  unfold RcvState.settled RcvState.enqueue
  dsimp only
  split_ifs <;> exact ⟨rfl, rfl, rfl, rfl, rfl, rfl⟩

theorem settled_closed (hok : s.core.Ok) (src : SockaddrIn) (pkt : NetPkt) :
    (s.settled true src pkt).pd = none ↔ (s.settled true src pkt).done = true := by
  have hpd : (s.settled true src pkt).pd = _ := congrArg RcvCore.pd (core_settled s src pkt)
  rw [hpd, (settled_frame s true src pkt).2.2.1]
  cases hs : s.rcvStart with
  | true => exact hok.closed hs
  | false =>
    have hd : s.done = false := (hok.idle hs).2.1
    simp [hd]

theorem close_not_mem_openFile {c : Bool} {f g : Fname} :
    .close g ∉ (if c then [] else [.openFile f] : List RcvEffect) := by
  cases c <;> simp

theorem rcvRecvWith_settled {opens : Bool} (hidle : s.rcvStart = false → s.pd = none)
    (hadm : ¬ (src ∈ s.senderQ ∧ s.senderQ.head? ≠ some src)) :
    rcvRecvWith opens s src pkt junk =
      let t := s.settled opens src pkt
      let r := receiveAndPrint t pkt (t.senderQ.headD src) junk
      (r.1, (if s.rcvStart then [] else if opens then [.openFile pkt.name] else []) ++ r.2) := by
  have henq : ((s.received pkt).enqueue src).core =
      { s.core with senderQ := joined s.senderQ src } := core_enqueue _ _
  have hstart : ((s.received pkt).enqueue src).rcvStart = s.rcvStart :=
    congrArg RcvCore.rcvStart henq
  have hpd : ((s.received pkt).enqueue src).pd = s.pd := congrArg RcvCore.pd henq
  unfold rcvRecvWith
  dsimp only
  rw [if_neg (by exact hadm), hstart, hpd]
  cases hs : s.rcvStart with
  | true => simp [RcvState.settled, hstart, hs]
  | false => simp [RcvState.settled, hstart, hs, hidle hs, RcvState.openPd]

theorem rcvRecv_settled (hok : s.core.Ok)
    (hadm : ¬ (src ∈ s.senderQ ∧ s.senderQ.head? ≠ some src)) :
    rcvRecv s src pkt junk =
      let t := s.settled true src pkt
      let r := receiveAndPrint t pkt (t.senderQ.headD src) junk
      (r.1, (if s.rcvStart then [] else [.openFile pkt.name]) ++ r.2) :=
  rcvRecvWith_settled (fun hs => (hok.idle hs).1) hadm

theorem rcvRecv_core (hok : s.core.Ok) :
    (rcvRecv s src pkt junk).map RcvState.core id = coreRecv s.core src pkt junk := by
  by_cases hblk : src ∈ s.senderQ ∧ s.senderQ.head? ≠ some src
  · rw [rcvRecv, rcvRecvWith, coreRecv, if_pos (by exact hblk), if_pos (by exact hblk)]
    rfl
  have hq : (s.settled true src pkt).senderQ = joined s.senderQ src :=
    congrArg RcvCore.senderQ (core_settled s src pkt)
  have hrec : (receiveAndPrint (s.settled true src pkt) pkt
      ((s.settled true src pkt).senderQ.headD src) junk).map RcvState.core id =
        coreReceive (s.settled true src pkt).core pkt _ junk :=
    receiveAndPrint_core (settled_frame s true src pkt).1 (settled_closed hok src pkt)
  rw [core_settled, hq] at hrec
  rw [coreRecv, if_neg (by exact hblk), show s.core.rcvStart = s.rcvStart from rfl,
    rcvRecv_settled hok hblk]
  dsimp only
  rw [hq]
  cases hs : s.rcvStart with
  | true =>
    have hsame : s.core = { s.core with pd := s.pd, rcvStart := true } := by
      simp [RcvState.core, hs]
    rw [hs] at hrec
    rw [hsame]
    exact hrec
  | false =>
    rw [hs] at hrec
    exact congrArg (fun r => (r.1, RcvEffect.openFile pkt.name :: r.2)) hrec

/-- The program refines the in-order receiver. -/
theorem rcvStep_core (hok : s.core.Ok) (e : RcvEvent) :
    (rcvStep s e).map RcvState.core id = coreStep s.core e := by
  cases e with
  | datagram src pkt junk => exact rcvRecv_core hok
  | empty => rfl
  | timeout junk =>
    simp only [rcvStepWith, coreStep, rcvTimeout, coreTimeout]
    cases hd : s.done with
    | true => cases hq : s.senderQ.tail <;> simp [RcvState.core, hd, hq]
    | false => cases hq : s.senderQ <;> simp [RcvState.core, hd, hq]

-- ---------------------------------------------------------------------------
-- The states of the loop
-- ---------------------------------------------------------------------------

theorem RcvCore.ok_init (buf : NetPkt) : (RcvState.init buf).core.Ok where
  nodup := .nil
  idle := fun _ => ⟨rfl, rfl, rfl⟩
  queued := fun h => nomatch h
  closed := fun h => nomatch h

variable {c : RcvCore}

theorem coreReceive_ok (hok : c.Ok) (hs : c.rcvStart = true) :
    (coreReceive c pkt fromAddr junk).1.Ok := by
  have hc := hok.closed hs
  have hidle {d : RcvCore} (hd : d.rcvStart = true) :
      d.rcvStart = false → d.pd = none ∧ d.done = false ∧ d.cumSeq = 0 := by simp [hd]
  refine coreReceive_cases (motive := fun r => r.1.Ok) ?_ ?_ ?_ ?_ ?_ ?_
  · exact fun _ => hok
  · exact fun _ _ => ⟨hok.nodup, hidle hs, hok.queued, fun _ => hc⟩
  · exact fun f _ _ _ => ⟨hok.nodup, hidle hs, hok.queued, fun _ => hc⟩
  · exact fun f _ _ _ => ⟨hok.nodup, hidle hs, hok.queued, fun _ => by simp⟩
  · exact fun _ _ _ => ⟨hok.nodup, hidle hs, hok.queued, hok.closed⟩
  · exact fun _ _ => hok

theorem joined_nodup {q : List SockaddrIn} (h : q.Nodup) (src : SockaddrIn) :
    (joined q src).Nodup := by
  unfold joined
  split_ifs with hm
  · exact h
  · rw [← List.concat_eq_append]
    exact h.concat hm

theorem mem_joined {q : List SockaddrIn} {a src : SockaddrIn} :
    a ∈ joined q src ↔ a ∈ q ∨ a = src := by
  unfold joined
  split_ifs with hm
  · constructor
    · exact .inl
    · rintro (h | rfl) <;> assumption
  · simp

theorem joined_ne_nil (q : List SockaddrIn) (src : SockaddrIn) : joined q src ≠ [] := by
  intro h
  have hm : src ∈ joined q src := mem_joined.mpr (.inr rfl)
  simp [h] at hm

theorem joined_head? {q : List SockaddrIn} {a : SockaddrIn} (h : q.head? = some a)
    (src : SockaddrIn) : (joined q src).head? = some a := by
  unfold joined
  split_ifs
  · exact h
  · simp [h]

theorem joined_headD (q : List SockaddrIn) (src : SockaddrIn) :
    (joined q src).head? = some ((joined q src).headD src) := by
  cases h : joined q src with
  | nil => exact absurd h (joined_ne_nil q src)
  | cons a as => rfl

theorem head?_of_joined {q : List SockaddrIn} {a src : SockaddrIn}
    (h : (joined q src).head? = some a) (hne : a ≠ src) : q.head? = some a := by
  cases q with
  | nil => exact absurd (Option.some.inj h).symm hne
  | cons b q => rwa [joined_head? rfl] at h

theorem coreRecv_senderQ (c : RcvCore) (src : SockaddrIn) (pkt : NetPkt) (junk : AckPkt) :
    (coreRecv c src pkt junk).1.senderQ = joined c.senderQ src := by
  have hrec (d : RcvCore) (b : SockaddrIn) : (coreReceive d pkt b junk).1.senderQ = d.senderQ := by
    apply coreReceive_cases (motive := fun r => r.1.senderQ = d.senderQ) <;> intros <;> rfl
  unfold coreRecv
  split_ifs with hblk hs
  · exact (if_pos hblk.1).symm
  · exact hrec _ _
  · exact hrec _ _

theorem coreStep_ok (hok : c.Ok) (e : RcvEvent) : (coreStep c e).1.Ok := by
  cases e with
  | datagram src pkt junk =>
    simp only [coreStep, coreRecv]
    split_ifs with hblk hs
    · exact hok
    · exact coreReceive_ok ⟨joined_nodup hok.nodup src, by simp [hs], fun _ => joined_ne_nil _ _,
        hok.closed⟩ hs
    · have hd := (hok.idle (by simpa using hs)).2.1
      exact coreReceive_ok ⟨joined_nodup hok.nodup src, by simp, fun _ => joined_ne_nil _ _,
        fun _ => by simp [hd]⟩ rfl
  | empty => exact hok
  | timeout junk =>
    simp only [coreStep, coreTimeout]
    split_ifs with hd
    · have hs : c.rcvStart = true := by
        by_contra hne
        exact absurd (hok.idle (by simpa using hne)).2.1 (by simp [hd])
      exact {
        nodup := hok.nodup.tail
        idle := fun _ => ⟨(hok.closed hs).mpr hd, rfl, rfl⟩
        queued := fun h => nomatch h
        closed := fun h => nomatch h }
    · exact hok

open Lib

theorem next_core (hok : s.core.Ok) (e : RcvEvent) :
    (next rcvStep s e).core = (coreStep s.core e).1 :=
  congrArg Prod.fst (rcvStep_core hok e)

theorem out_core (hok : s.core.Ok) (e : RcvEvent) : (rcvStep s e).2 = (coreStep s.core e).2 :=
  congrArg Prod.snd (rcvStep_core hok e)

theorem next_ok (hok : s.core.Ok) (e : RcvEvent) : (next rcvStep s e).core.Ok := by
  rw [next_core hok]
  exact coreStep_ok hok e

theorem rcv_run_core (hok : s.core.Ok) (es : List RcvEvent) :
    (es.foldl (next rcvStep) s).core = es.foldl (next coreStep) s.core ∧
      trace rcvStep s es = trace coreStep s.core es ∧ (es.foldl (next rcvStep) s).core.Ok := by
  induction es generalizing s with
  | nil => exact ⟨rfl, rfl, hok⟩
  | cons e es ih =>
    obtain ⟨h1, h2, h3⟩ := ih (next_ok hok e)
    rw [next_core hok] at h1 h2
    exact ⟨h1, by rw [trace, trace, out_core hok, h2]; rfl, h3⟩

end Wan.Proj1
