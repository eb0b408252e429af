import Wan.Proj1.Durability

/-!
# What a transfer leaves behind for the next one

When a transfer is done the receiver resets its state in two places: the
statistics when the file is closed, the rest at the timeout after it. A file that
could not be opened is not closed, and then the statistics stay. The window is not
reset anywhere, so an entry buffered in any transfer stays; and datagrams that arrive
between the two places are counted for the next transfer. `fresh_start_iff` says that
this is all: without it, the next transfer is that of a receiver just started.
-/

namespace Wan.Proj1

open Posix Lib

variable {s : RcvState} {buf : NetPkt} {src fromAddr : SockaddrIn} {pkt : NetPkt}
  {junk p : AckPkt} {past : List (RcvEvent × Bool)} {e : RcvEvent} {opens : Bool}

/-- A pass of the loop with an event and the answer that `pd.open` gives in it. -/
def rcvTry (s : RcvState) (x : RcvEvent × Bool) : RcvState × List RcvEffect :=
  rcvStepWith x.2 s x.1

def RcvState.started (buf : NetPkt) (senderQ : List SockaddrIn) : RcvState :=
  { RcvState.init buf with senderQ := senderQ }

/-- The event is no datagram that finds a gap and is buffered. -/
def NotBuffered (s : RcvState) : RcvEvent → Prop
  | .datagram src pkt _ => (src ∈ s.senderQ → s.senderQ.head? = some src) →
      pkt.seq ≤ s.cumSeq + 1 ∨ pkt.wSize ≤ 0
  | _ => True

def RcvEvent.IsDatagram : RcvEvent → Prop
  | .datagram .. => True
  | _ => False

/-- The file of the transfer is open: it has been, or it is opened for this datagram. -/
def RcvState.Opened (s : RcvState) (opens : Bool) : Prop :=
  if s.rcvStart then s.pd ≠ none else opens = true

/-- The last datagram of the run came while its transfer was not done and had its file
open. -/
def QuietSinceDone (buf : NetPkt) (past : List (RcvEvent × Bool)) : Prop :=
  ∃ front e rest, past = front ++ e :: rest ∧ e.1.IsDatagram ∧
    (front.foldl (next rcvTry) (.init buf)).done = false ∧
    (front.foldl (next rcvTry) (.init buf)).Opened e.2 ∧ ∀ x ∈ rest, ¬ x.1.IsDatagram

structure RcvState.Settled (s : RcvState) : Prop where
  idle : s.rcvStart = false → s.pd = none ∧ s.done = false
  closed : s.done = true → s.pd = none

-- ---------------------------------------------------------------------------
-- HANDLE RECEIVE
-- ---------------------------------------------------------------------------

theorem handleReceive_frame (h : s.messBuf = pkt) (fromAddr : SockaddrIn) (junk : AckPkt) :
    ∃ s' out continued, handleReceive s pkt fromAddr junk = (s', out, continued) ∧
      s'.pd = s.pd ∧ s'.rcvStart = s.rcvStart ∧ s'.totalTrans = s.totalTrans ∧
      (continued = true → s'.done = s.done) ∧ ∀ f, .close f ∉ out := by
  by_cases hseq : pkt.seq = s.cumSeq + 1
  · refine ⟨_, _, _, handleReceive_next h hseq fromAddr junk, rfl, rfl, rfl, fun hc => ?_,
      fun f hf => ?_⟩
    · cases hc
    · cases hp : s.pd <;> simp [RcvState.pdWrite, hp] at hf
  · obtain ⟨s', out, continued, heq, hpd, hdone, htot, -, -, hstart, hout⟩ :=
      handleReceive_other h hseq fromAddr junk
    exact ⟨s', out, continued, heq, hpd, hstart, htot, fun _ => hdone, hout⟩

theorem handleReceive_window (h : s.messBuf = pkt) (fromAddr : SockaddrIn) (junk : AckPkt) :
    (handleReceive s pkt fromAddr junk).1.window = [] ↔
      s.window = [] ∧ (pkt.seq ≤ s.cumSeq + 1 ∨ pkt.wSize ≤ 0) := by
  by_cases hseq : pkt.seq = s.cumSeq + 1
  · rw [handleReceive_next h hseq]
    exact ⟨fun hw => ⟨hw, .inl hseq.le⟩, And.left⟩
  · unfold handleReceive
    split_ifs with hold hroom
    · exact ⟨fun hw => ⟨hw, .inl (by omega)⟩, And.left⟩
    · by_cases hw : s.window = []
      · rw [futurePkt_empty h hw]
        rw [hw, List.length_nil] at hroom
        exact iff_of_false (by simp) fun hq => by omega
      · rw [futurePkt_buffered h hw]
        exact ⟨fun hw' => absurd hw' hw, And.left⟩
    · refine ⟨fun hw => ⟨hw, .inr ?_⟩, And.left⟩
      have hw' : s.window = [] := hw
      simpa [hw'] using hroom

theorem handlePrint_window (s : RcvState) : (handlePrint s).1.window = s.window := by
  unfold handlePrint
  split_ifs
  · split <;> rfl
  · rfl
  · rfl

theorem receiveAndPrint_window (h : s.messBuf = pkt) (fromAddr : SockaddrIn) (junk : AckPkt) :
    (receiveAndPrint s pkt fromAddr junk).1.window = [] ↔
      s.window = [] ∧ (pkt.seq ≤ s.cumSeq + 1 ∨ pkt.wSize ≤ 0) := by
  rw [← handleReceive_window h fromAddr junk]
  simp only [receiveAndPrint]
  split_ifs
  · rfl
  · rw [handlePrint_window]

structure Tallied (s t : RcvState) (out : List RcvEffect) : Prop where
  rcvStart : t.rcvStart = s.rcvStart
  cleared : (∃ f, .close f ∈ out) → s.pd ≠ none ∧ t.pd = none ∧ t.totalTrans = 0 ∧
    t.successTrans = 0 ∧ t.lastRecordBytes = 0
  kept : (∀ f, .close f ∉ out) → t.pd = s.pd ∧ t.totalTrans = s.totalTrans ∧
    (t.done = true → s.pd = none ∨ s.done = true)

theorem receiveAndPrint_tallied (h : s.messBuf = pkt) (fromAddr : SockaddrIn) (junk : AckPkt) :
    Tallied s (receiveAndPrint s pkt fromAddr junk).1 (receiveAndPrint s pkt fromAddr junk).2 := by
  obtain ⟨s', out, continued, heq, hpd, hstart, htot, hcont, hout⟩ :=
    handleReceive_frame h fromAddr junk
  have hno : (∃ f, .close f ∈ out ++ []) → False := by
    rintro ⟨f, hf⟩
    exact hout f (by simpa using hf)
  simp only [receiveAndPrint, heq]
  cases continued with
  | true =>
    refine ⟨hstart, ?_, fun _ => ⟨hpd, htot, fun hd => .inr ?_⟩⟩
    · rintro ⟨f, hf⟩
      exact absurd hf (hout f)
    · rw [← hcont rfl]
      exact hd
  | false =>
    simp only [Bool.false_eq_true, ↓reduceIte, handlePrint]
    cases hd : s'.done with
    | true =>
      cases hp : s'.pd with
      | none =>
        exact ⟨hstart, fun hf => (hno hf).elim, fun _ => ⟨hpd, htot, fun _ => .inl (hpd ▸ hp)⟩⟩
      | some f =>
        refine ⟨hstart, fun _ => ⟨?_, rfl, rfl, rfl, rfl⟩, fun hf => absurd ?_ (hf f)⟩
        · rw [← hpd, hp]
          exact Option.some_ne_none f
        · simp
    | false =>
      simp only [Bool.false_eq_true, ↓reduceIte]
      split_ifs
      · exact ⟨hstart, fun hf => (hno hf).elim, fun _ => ⟨hpd, htot, fun hd' => by cases hd'⟩⟩
      · exact ⟨hstart, fun hf => (hno hf).elim,
          fun _ => ⟨hpd, htot, fun hd' => absurd hd' (by simp [hd])⟩⟩

-- ---------------------------------------------------------------------------
-- A datagram
-- ---------------------------------------------------------------------------

theorem settled_start (s : RcvState) (opens : Bool) (src : SockaddrIn) (pkt : NetPkt) :
    (s.settled opens src pkt).rcvStart = true ∧ (s.settled opens src pkt).window = s.window ∧
      ((s.settled opens src pkt).pd ≠ none ↔ s.Opened opens) := by
  unfold RcvState.settled RcvState.enqueue RcvState.Opened RcvState.openPd RcvState.received
  dsimp only
  cases hs : s.rcvStart with
  | true => split_ifs <;> simp_all
  | false => cases opens <;> split_ifs <;> simp_all

theorem window_datagram (h : s.Settled) (src : SockaddrIn) (pkt : NetPkt) (junk : AckPkt) :
    (rcvRecvWith opens s src pkt junk).1.window = [] ↔
      s.window = [] ∧ NotBuffered s (.datagram src pkt junk) := by
  by_cases hblk : src ∈ s.senderQ ∧ s.senderQ.head? ≠ some src
  · rw [rcvRecvWith, if_pos (by exact hblk)]
    exact ⟨fun hw => ⟨hw, fun himp => absurd (himp hblk.1) hblk.2⟩, And.left⟩
  · have hadm : src ∈ s.senderQ → s.senderQ.head? = some src := by
      intro hm
      by_contra hne
      exact hblk ⟨hm, hne⟩
    obtain ⟨hbuf, hcum, -⟩ := settled_frame s opens src pkt
    rw [rcvRecvWith_settled (fun hs => (h.idle hs).1) hblk]
    dsimp only
    rw [receiveAndPrint_window hbuf, (settled_start s opens src pkt).2.1, hcum]
    exact and_congr_right fun _ => ⟨fun hq _ => hq, fun hq => hq hadm⟩

structure Handled (s : RcvState) (opens : Bool) (t : RcvState) : Prop where
  settled : t.Settled
  nonneg : 0 ≤ s.totalTrans → 0 ≤ t.totalTrans
  fresh : t.done = true → s.done = false → s.Opened opens →
    t.totalTrans = 0 ∧ t.successTrans = 0 ∧ t.lastRecordBytes = 0
  late : t.done = true → ¬ (s.done = false ∧ s.Opened opens) → t.totalTrans = s.totalTrans + 1400

theorem datagram_handled (h : s.Settled) (src : SockaddrIn) (pkt : NetPkt) (junk : AckPkt) :
    Handled s opens (rcvRecvWith opens s src pkt junk).1 := by
  by_cases hblk : src ∈ s.senderQ ∧ s.senderQ.head? ≠ some src
  · rw [rcvRecvWith, if_pos (by exact hblk)]
    refine ⟨⟨h.idle, h.closed⟩, fun h0 => ?_, fun hd hnot => ?_, fun _ _ => rfl⟩
    · show 0 ≤ s.totalTrans + 1400
      omega
    · have hdone : s.done = true := hd
      simp [hdone] at hnot
  obtain ⟨hbuf, -, hdone, htot, -, -⟩ := settled_frame s opens src pkt
  obtain ⟨hstart, -, hopened⟩ := settled_start s opens src pkt
  have htally := receiveAndPrint_tallied hbuf ((s.settled opens src pkt).senderQ.headD src) junk
  have hsize : (s.settled opens src pkt).totalTrans = s.totalTrans + 1400 := htot
  have hfinished : s.done = true → (s.settled opens src pkt).pd = none := by
    intro hd
    have hrun : s.rcvStart = true := by
      by_contra hs
      simp [(h.idle (by simpa using hs)).2] at hd
    by_contra hp
    have hopen := hopened.mp hp
    rw [RcvState.Opened, if_pos hrun] at hopen
    exact hopen (h.closed hd)
  rw [rcvRecvWith_settled (fun hs => (h.idle hs).1) hblk]
  dsimp only
  generalize receiveAndPrint (s.settled opens src pkt) pkt _ junk = r at htally
  have hstart' : r.1.rcvStart = true := htally.rcvStart.trans hstart
  by_cases hclose : ∃ f, .close f ∈ r.2
  · obtain ⟨hp, hp', htot', hsucc, hrec⟩ := htally.cleared hclose
    refine ⟨⟨fun hs => ?_, fun _ => hp'⟩, fun _ => htot'.ge, fun _ _ _ => ⟨htot', hsucc, hrec⟩,
      fun _ hnot => absurd ⟨?_, hopened.mp hp⟩ hnot⟩
    · simp [hstart'] at hs
    · by_contra hd
      exact hp (hfinished (by simpa using hd))
  · obtain ⟨hp, htot', hcont⟩ := htally.kept fun f hf => hclose ⟨f, hf⟩
    have hpd : r.1.done = true → r.1.pd = none := by
      intro hd
      rw [hp]
      rcases hcont hd with hnone | hd'
      · exact hnone
      · exact hfinished (hdone ▸ hd')
    refine ⟨⟨fun hs => ?_, hpd⟩, fun h0 => ?_, fun hd hd' hopen => ?_, fun _ _ => ?_⟩
    · simp [hstart'] at hs
    · rw [htot', hsize]
      omega
    · exact absurd (hp ▸ hpd hd) (hopened.mpr hopen)
    · rw [htot', hsize]

-- ---------------------------------------------------------------------------
-- Between the close and the timeout
-- ---------------------------------------------------------------------------

theorem quietSinceDone_append (buf : NetPkt) (past : List (RcvEvent × Bool))
    (x : RcvEvent × Bool) : QuietSinceDone buf (past ++ [x]) ↔
    (x.1.IsDatagram ∧ (past.foldl (next rcvTry) (.init buf)).done = false ∧
      (past.foldl (next rcvTry) (.init buf)).Opened x.2) ∨
      (QuietSinceDone buf past ∧ ¬ x.1.IsDatagram) := by
  constructor
  · rintro ⟨front, y, rest, heq, hy, hdone, hopen, hrest⟩
    rcases List.eq_nil_or_concat rest with rfl | ⟨rest', z, rfl⟩
    · obtain ⟨rfl, h⟩ := List.append_inj' heq rfl
      cases h
      exact .inl ⟨hy, hdone, hopen⟩
    · rw [List.concat_eq_append, ← List.cons_append, ← List.append_assoc] at heq
      obtain ⟨rfl, h⟩ := List.append_inj' heq rfl
      cases h
      refine .inr ⟨⟨front, y, rest', rfl, hy, hdone, hopen, fun z hz => hrest z ?_⟩, hrest x ?_⟩
      · simp [hz]
      · simp
  · rintro (⟨hx, hdone, hopen⟩ | ⟨⟨front, y, rest, rfl, hy, hdone, hopen, hrest⟩, hx⟩)
    · exact ⟨past, x, [], rfl, hx, hdone, hopen, by simp⟩
    · refine ⟨front, y, rest ++ [x], by simp, hy, hdone, hopen, fun z hz => ?_⟩
      rcases List.mem_append.mp hz with hz | hz
      · exact hrest z hz
      · rw [List.mem_singleton.mp hz]
        exact hx

theorem other_step (opens : Bool) (h : s.Settled) (he : ¬ e.IsDatagram) :
    (rcvStepWith opens s e).1.Settled ∧ (rcvStepWith opens s e).1.window = s.window ∧
      (rcvStepWith opens s e).1.totalTrans = s.totalTrans ∧
      (rcvStepWith opens s e).1.successTrans = s.successTrans ∧
      (rcvStepWith opens s e).1.lastRecordBytes = s.lastRecordBytes ∧
      ((rcvStepWith opens s e).1.done = true → s.done = true) := by
  cases e with
  | datagram src pkt junk => exact absurd trivial he
  | empty => exact ⟨⟨h.idle, h.closed⟩, rfl, rfl, rfl, rfl, id⟩
  | timeout junk =>
    have hp := h.closed
    simp only [rcvStepWith, rcvTimeout]
    cases hd : s.done with
    | true =>
      rw [hd] at hp
      split <;> exact ⟨⟨fun _ => ⟨hp rfl, rfl⟩, fun hd' => by cases hd'⟩, rfl, rfl, rfl, rfl,
        fun _ => rfl⟩
    | false =>
      simp only [Bool.false_eq_true, ↓reduceIte]
      split <;> exact ⟨h, rfl, rfl, rfl, rfl, fun hd' => absurd hd' (by simp [hd])⟩

theorem RcvState.Settled.step (h : s.Settled) (x : RcvEvent × Bool) :
    (next rcvTry s x).Settled := by
  obtain ⟨e, opens⟩ := x
  cases e with
  | datagram src pkt junk => exact (datagram_handled h src pkt junk).settled
  | empty => exact (other_step (e := .empty) opens h id).1
  | timeout junk => exact (other_step (e := .timeout junk) opens h id).1

theorem window_next (h : s.Settled) (e : RcvEvent) :
    (rcvStepWith opens s e).1.window = [] ↔ s.window = [] ∧ NotBuffered s e := by
  cases e with
  | datagram src pkt junk => exact window_datagram h src pkt junk
  | empty => exact ⟨fun hw => ⟨hw, trivial⟩, And.left⟩
  | timeout junk =>
    rw [(other_step (e := .timeout junk) opens h id).2.1]
    exact ⟨fun hw => ⟨hw, trivial⟩, And.left⟩

/-- The counters of a transfer that is done: they count the datagrams since its file was
closed, and all of them if it was not open. -/
structure Counted (buf : NetPkt) (past : List (RcvEvent × Bool)) (s : RcvState) : Prop where
  settled : s.Settled
  state : s = past.foldl (next rcvTry) (.init buf)
  nonneg : 0 ≤ s.totalTrans
  quiet : s.done = true → QuietSinceDone buf past →
    s.totalTrans = 0 ∧ s.successTrans = 0 ∧ s.lastRecordBytes = 0
  late : s.done = true → s.totalTrans = 0 → QuietSinceDone buf past

theorem Counted.step (h : Counted buf past s) (x : RcvEvent × Bool) :
    Counted buf (past ++ [x]) (next rcvTry s x) := by
  have hquiet := quietSinceDone_append buf past x
  have hstate : next rcvTry s x = (past ++ [x]).foldl (next rcvTry) (.init buf) := by
    rw [List.foldl_append, ← h.state]
    rfl
  have hsettled := h.settled.step x
  rw [← h.state] at hquiet
  by_cases hx : x.1.IsDatagram
  · have hhandled : Handled s x.2 (next rcvTry s x) := by
      obtain ⟨e, opens⟩ := x
      cases e with
      | datagram src pkt junk => exact datagram_handled h.settled src pkt junk
      | empty => exact hx.elim
      | timeout junk => exact hx.elim
    simp only [hx, true_and, not_true_eq_false, and_false, or_false] at hquiet
    have hpos := h.nonneg
    exact {
      settled := hsettled
      state := hstate
      nonneg := hhandled.nonneg hpos
      quiet := fun hd hq => by
        obtain ⟨hdone, hopen⟩ := hquiet.mp hq
        exact hhandled.fresh hd hdone hopen
      late := fun hd h0 => hquiet.mpr (by
        by_contra hnot
        have := hhandled.late hd hnot
        omega) }
  · simp only [hx, false_and, false_or, not_false_eq_true, and_true] at hquiet
    obtain ⟨-, -, htot, hsucc, hrec, hdone⟩ := other_step x.2 h.settled hx
    have htot' : (next rcvTry s x).totalTrans = s.totalTrans := htot
    exact {
      settled := hsettled
      state := hstate
      nonneg := htot'.symm ▸ h.nonneg
      quiet := fun hd hq => by
        rw [htot', show (next rcvTry s x).successTrans = _ from hsucc,
          show (next rcvTry s x).lastRecordBytes = _ from hrec]
        exact h.quiet (hdone hd) (hquiet.mp hq)
      late := fun hd h0 => hquiet.mpr (h.late (hdone hd) (htot' ▸ h0)) }

theorem settled_init (buf : NetPkt) : (RcvState.init buf).Settled :=
  ⟨fun _ => ⟨rfl, rfl⟩, fun h => by cases h⟩

theorem counted_run (buf : NetPkt) (past : List (RcvEvent × Bool)) :
    Counted buf past (past.foldl (next rcvTry) (.init buf)) := by
  refine along_trivial.inv_history ?_ fun past s x h _ => h.step x
  exact ⟨settled_init buf, rfl, le_rfl, (fun h => by cases h), fun h => by cases h⟩

-- ---------------------------------------------------------------------------
-- The next transfer
-- ---------------------------------------------------------------------------

theorem rcvTimeout_messBuf (s : RcvState) (buf : NetPkt) (junk : AckPkt) :
    rcvTimeout { s with messBuf := buf } junk =
      ({ (rcvTimeout s junk).1 with messBuf := buf }, (rcvTimeout s junk).2) := by
  obtain ⟨q, pd, window, cumSeq, done, rcvStart, messBuf, total, success, last⟩ := s
  cases done with
  | false => cases q <;> rfl
  | true => rcases q with _ | ⟨a, _ | ⟨b, q⟩⟩ <;> rfl

/-- What the receive buffer holds is not read before it is filled. -/
theorem trace_messBuf (s : RcvState) (buf : NetPkt) (xs : List (RcvEvent × Bool)) :
    trace rcvTry { s with messBuf := buf } xs = trace rcvTry s xs := by
  induction xs generalizing s buf with
  | nil => rfl
  | cons x xs ih =>
    obtain ⟨e, opens⟩ := x
    cases e with
    | datagram src pkt junk => rfl
    | empty => exact ih { s with messBuf := { s.messBuf with data := .replicate _ 0 } } _
    | timeout junk =>
      simp only [trace, next, rcvTry, rcvStepWith, rcvTimeout_messBuf]
      rw [ih]

/-- After a timeout that ends a transfer the receiver is as one just started, and
goes on as one whatever arrives, exactly when no packet was ever buffered, no datagram
came once the transfer was done, and its file could be opened. -/
theorem fresh_start_iff (buf : NetPkt) (past : List (RcvEvent × Bool)) (junk : AckPkt)
    (hdone : (past.foldl (next rcvTry) (.init buf)).done = true) :
    let s := next rcvTry (past.foldl (next rcvTry) (.init buf)) (.timeout junk, true)
    (s = .started s.messBuf s.senderQ ∧
      ∀ buf' xs, trace rcvTry s xs = trace rcvTry (.started buf' s.senderQ) xs) ↔
    Along (next rcvTry) (fun s x => NotBuffered s x.1) (.init buf) past ∧
      QuietSinceDone buf past := by
  have hcount := counted_run buf past
  have hwin := flag_iff_along (I := RcvState.Settled) (F := fun s => s.window = [])
    (fun s x h => h.step x) (fun s x h => window_next h x.1) (settled_init buf) past
  generalize past.foldl (next rcvTry) (.init buf) = t at hdone hcount hwin ⊢
  have hstep : next rcvTry t (.timeout junk, true) =
      { t with senderQ := t.senderQ.tail, done := false, rcvStart := false, cumSeq := 0 } := by
    simp only [next, rcvTry, rcvStepWith, rcvTimeout, hdone, ↓reduceIte]
    cases t.senderQ.tail <;> rfl
  intro s
  constructor
  · rintro ⟨heq, -⟩
    have hw : t.window = [] := by
      have h := congrArg RcvState.window heq
      rwa [show s.window = t.window by rw [show s = _ from hstep]] at h
    have htot : t.totalTrans = 0 := by
      have h := congrArg RcvState.totalTrans heq
      rwa [show s.totalTrans = t.totalTrans by rw [show s = _ from hstep]] at h
    exact ⟨(hwin.mp hw).2, hcount.late hdone htot⟩
  · rintro ⟨hbuf, hquiet⟩
    obtain ⟨htot, hsucc, hrec⟩ := hcount.quiet hdone hquiet
    have hw : t.window = [] := hwin.mpr ⟨rfl, hbuf⟩
    have heq : s = .started s.messBuf s.senderQ := by
      rw [show s = _ from hstep]
      simp [RcvState.started, RcvState.init, hcount.settled.closed hdone, hw, htot, hsucc, hrec]
    refine ⟨heq, fun buf' xs => ?_⟩
    rw [heq]
    exact trace_messBuf (.started buf' s.senderQ) s.messBuf xs

/-- One transfer of one packet leaves nothing behind. -/
theorem fresh_start_after_one :
    let buf := fullPkt [] 0 0 false
    let past : List (RcvEvent × Bool) :=
      [(.datagram ⟨1, 5⟩ (fullPkt [97] 97 1 true) ⟨0, 0, false⟩, true)]
    let s := next rcvTry (past.foldl (next rcvTry) (.init buf)) (.timeout ⟨0, 0, false⟩, true)
    s = .started s.messBuf s.senderQ ∧
      ∀ buf' xs, trace rcvTry s xs = trace rcvTry (.started buf' s.senderQ) xs := by
  intro buf past
  refine (fresh_start_iff buf past ⟨0, 0, false⟩ (by decide)).mpr ⟨⟨?_, trivial⟩, ?_⟩
  · exact fun _ => .inl (by decide)
  · exact ⟨[], _, [], rfl, trivial, rfl, rfl, by simp⟩

/-- Packet 2 of a file arrives before packet 1. The entry it leaves in the window
outlives the transfer, so the next sender's early packet gets no NACK. -/
theorem buffered_entry_stays :
    let buf := fullPkt [] 0 0 false
    let junk : AckPkt := ⟨0, 0, false⟩
    let past : List (RcvEvent × Bool) := [(.datagram ⟨1, 5⟩ (fullPkt [97] 97 2 true) junk, true),
      (.datagram ⟨1, 5⟩ (fullPkt [97] 97 1 false) junk, true),
      (.datagram ⟨1, 5⟩ (fullPkt [97] 97 2 true) junk, true)]
    let s := next rcvTry (past.foldl (next rcvTry) (.init buf)) (.timeout junk, true)
    let early : RcvEvent × Bool := (.datagram ⟨2, 5⟩ (fullPkt [98] 98 2 false) junk, true)
    (past.foldl (next rcvTry) (.init buf)).done = true ∧ s.window ≠ [] ∧
      trace rcvTry s [early] = [.openFile [98]] ∧
      trace rcvTry (.started buf s.senderQ) [early] =
        [.openFile [98], .sendto ⟨2, 5⟩ ⟨1, 10, true⟩] := by
  decide +kernel

end Wan.Proj1
