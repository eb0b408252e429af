import Wan.Proj1.RcvCore

/-!
# A finished transfer and its late datagrams

When the end packet arrives the file is closed and the sender stays at the head
until the next timeout. Up to there its late datagrams are only acknowledged.
The timeout takes the sender out of the queue; nothing remembers the transfer,
so the next datagram of the same sender enters it anew, and opens (truncates)
the file again when no other transfer is running.
-/

namespace Wan.Proj1

open Posix Lib

variable {c : RcvCore} {s : RcvState} {a src : SockaddrIn} {f : Fname} {pkt : NetPkt}
  {junk : AckPkt}

def RcvEvent.OfTransfer (a : SockaddrIn) (f : Fname) : RcvEvent → Prop
  | .datagram src pkt _ => src = a ∧ pkt.name = f
  | _ => False

def RcvEvent.SentBy (a : SockaddrIn) : RcvEvent → Prop
  | .datagram src _ _ => src = a
  | _ => False

/-- A datagram of the transfer does not reopen or write the file, and does not
put its sender back into the queue. -/
def Durable (a : SockaddrIn) (f : Fname) (s : RcvState) (e : RcvEvent) : Prop :=
  e.OfTransfer a f → .openFile f ∉ (rcvStep s e).2 ∧
    (∀ bytes, .write f bytes ∉ (rcvStep s e).2) ∧
    (a ∈ (rcvStep s e).1.senderQ → a ∈ s.senderQ)

def BeforeTimeout (a : SockaddrIn) (f : Fname) : List RcvEvent → Prop
  | [] => True
  | .timeout _ :: es => ∀ e ∈ es, ¬ e.OfTransfer a f
  | .datagram .. :: es => BeforeTimeout a f es
  | .empty :: es => BeforeTimeout a f es

-- ---------------------------------------------------------------------------
-- Before the timeout
-- ---------------------------------------------------------------------------

structure Finished (a : SockaddrIn) (c : RcvCore) : Prop where
  head : c.senderQ.head? = some a
  started : c.rcvStart = true
  done : c.done = true
  closed : c.pd = none

def RcvEffect.IsSend : RcvEffect → Prop
  | .sendto .. => True
  | _ => False

theorem isSend_nacks {wSize lo hi : ℤ} : ∀ o ∈ nacks wSize a lo hi, o.IsSend := by
  intro o ho
  obtain ⟨i, -, rfl⟩ := List.mem_map.mp ho
  trivial

theorem Finished.receive (h : Finished a c) {fromAddr : SockaddrIn} :
    Finished a (coreReceive c pkt fromAddr junk).1 ∧
      ∀ o ∈ (coreReceive c pkt fromAddr junk).2, o.IsSend := by
  have hopen (f : Fname) : c.pd ≠ some f := by simp [h.closed]
  refine coreReceive_cases (motive := fun r => Finished a r.1 ∧ ∀ o ∈ r.2, o.IsSend)
    ?_ ?_ ?_ ?_ ?_ ?_
  · exact fun _ => ⟨h, by simp [RcvEffect.IsSend]⟩
  · exact fun _ _ => ⟨⟨h.head, h.started, h.done, h.closed⟩, by simp [RcvEffect.IsSend]⟩
  · exact fun f _ hp _ => absurd hp (hopen f)
  · exact fun f _ hp _ => absurd hp (hopen f)
  · exact fun _ _ _ => ⟨⟨h.head, h.started, h.done, h.closed⟩, isSend_nacks⟩
  · exact fun _ _ => ⟨h, by simp⟩

theorem Finished.recv (h : Finished a c) : Finished a (coreRecv c src pkt junk).1 ∧
    ∀ o ∈ (coreRecv c src pkt junk).2, o.IsSend := by
  unfold coreRecv
  split_ifs with hblk hs
  · exact ⟨h, by simp [RcvEffect.IsSend]⟩
  · exact Finished.receive (c := { c with senderQ := joined c.senderQ src })
      ⟨joined_head? h.head src, h.started, h.done, h.closed⟩
  · exact absurd h.started hs

theorem close_of_receive {fromAddr : SockaddrIn}
    (h : .close f ∈ (coreReceive c pkt fromAddr junk).2) :
    (coreReceive c pkt fromAddr junk).1 =
      { c with cumSeq := pkt.seq, done := true, pd := none } := by
  revert h
  refine coreReceive_cases (motive := fun r => .close f ∈ r.2 → r.1 = _) ?_ ?_ ?_ ?_ ?_ ?_
  · exact fun _ h => by simp at h
  · exact fun _ _ h => by simp at h
  · exact fun f _ _ _ h => by simp at h
  · exact fun f _ _ _ _ => rfl
  · exact fun _ _ _ h => (isSend_nacks _ h).elim
  · exact fun _ _ h => by simp at h

theorem finished_of_close {e : RcvEvent} (hclose : .close f ∈ (coreStep c e).2)
    (hhead : (coreStep c e).1.senderQ.head? = some a) : Finished a (coreStep c e).1 := by
  cases e with
  | datagram src pkt junk =>
    simp only [coreStep, coreRecv] at hclose hhead ⊢
    split_ifs at hclose hhead ⊢ with hblk hs
    · simp at hclose
    · rw [close_of_receive hclose] at hhead ⊢
      exact ⟨hhead, hs, rfl, rfl⟩
    · have hclose' : .close f ∈ (coreReceive
          { c with senderQ := joined c.senderQ src, pd := some pkt.name, rcvStart := true }
          pkt ((joined c.senderQ src).headD src) junk).2 := by simpa using hclose
      simp only [close_of_receive hclose'] at hhead ⊢
      exact ⟨hhead, rfl, rfl, rfl⟩
  | empty => simp [coreStep] at hclose
  | timeout junk => simp [coreStep, coreTimeout] at hclose

theorem Finished.durable (hok : s.core.Ok) (h : Finished a s.core) (e : RcvEvent) :
    Durable a f s e := by
  intro he
  cases e with
  | datagram src pkt junk =>
    have hsend : ∀ o ∈ (coreRecv s.core src pkt junk).2, o.IsSend := h.recv.2
    rw [out_core hok]
    exact ⟨fun hm => hsend _ hm, fun _ hm => hsend _ hm, fun _ => List.mem_of_mem_head? h.head⟩
  | empty => exact he.elim
  | timeout junk => exact he.elim

theorem Finished.step (hok : s.core.Ok) (h : Finished a s.core) {e : RcvEvent}
    (he : ∀ junk, e ≠ .timeout junk) : Finished a (next rcvStep s e).core := by
  rw [next_core hok]
  cases e with
  | datagram src pkt junk => exact h.recv.1
  | empty => exact h
  | timeout junk => exact absurd rfl (he junk)

-- ---------------------------------------------------------------------------
-- After the timeout
-- ---------------------------------------------------------------------------

theorem Finished.timeout (hok : s.core.Ok) (h : Finished a s.core) :
    a ∉ (next rcvStep s (.timeout junk)).core.senderQ := by
  rw [next_core hok]
  simp only [coreStep, coreTimeout, h.done, ↓reduceIte]
  obtain ⟨q, hq⟩ := List.head?_eq_some_iff.mp h.head
  have hn := hok.nodup
  rw [hq] at hn ⊢
  exact (List.nodup_cons.mp hn).1

theorem mem_senderQ_next (hok : s.core.Ok) {e : RcvEvent}
    (h : a ∈ (next rcvStep s e).senderQ) : a ∈ s.senderQ ∨ e.SentBy a := by
  have hc : (next rcvStep s e).senderQ = (coreStep s.core e).1.senderQ :=
    congrArg RcvCore.senderQ (next_core hok e)
  rw [hc] at h
  cases e with
  | datagram src pkt junk =>
    rw [coreStep, coreRecv_senderQ] at h
    exact (mem_joined.mp h).imp_right Eq.symm
  | empty => exact .inl h
  | timeout junk =>
    simp only [coreStep, coreTimeout] at h
    split_ifs at h
    · exact .inl (List.mem_of_mem_tail h)
    · exact .inl h

theorem SentBy.mem_senderQ (hok : s.core.Ok) {e : RcvEvent} (h : e.SentBy a) :
    a ∈ (next rcvStep s e).senderQ := by
  have hc : (next rcvStep s e).senderQ = (coreStep s.core e).1.senderQ :=
    congrArg RcvCore.senderQ (next_core hok e)
  rw [hc]
  cases e with
  | datagram src pkt junk =>
    rw [coreStep, coreRecv_senderQ]
    exact mem_joined.mpr (.inr (Eq.symm h))
  | empty => exact h.elim
  | timeout junk => exact h.elim

theorem OfTransfer.sentBy {e : RcvEvent} (h : e.OfTransfer a f) : e.SentBy a := by
  cases e with
  | datagram src pkt junk => exact h.1
  | empty => exact h
  | timeout junk => exact h

/-- A sender that left the queue comes back with its next datagram, so nothing
of the transfer may arrive any more. -/
theorem none_of_durable (hok : s.core.Ok) (hout : a ∉ s.senderQ) {es : List RcvEvent}
    (hown : ∀ e ∈ es, e.SentBy a → e.OfTransfer a f)
    (h : Along (next rcvStep) (Durable a f) s es) : ∀ e ∈ es, ¬ e.OfTransfer a f := by
  induction es generalizing s with
  | nil => simp
  | cons e es ih =>
    have hnot : ¬ e.SentBy a := fun hsent =>
      hout ((h.1 (hown e List.mem_cons_self hsent)).2.2 (SentBy.mem_senderQ hok hsent))
    have hout' : a ∉ (next rcvStep s e).senderQ := fun hm =>
      (mem_senderQ_next hok hm).elim hout hnot
    intro e' he'
    rcases List.mem_cons.mp he' with rfl | he'
    · exact fun ht => hnot (OfTransfer.sentBy ht)
    · exact ih (next_ok hok e) hout' (fun e he => hown e (List.mem_cons_of_mem _ he)) h.2 e' he'

-- ---------------------------------------------------------------------------
-- Whole runs
-- ---------------------------------------------------------------------------

theorem Finished.durable_run (hok : s.core.Ok) (h : Finished a s.core) {es : List RcvEvent}
    (hb : BeforeTimeout a f es) : Along (next rcvStep) (Durable a f) s es := by
  induction es generalizing s with
  | nil => trivial
  | cons e es ih =>
    refine ⟨h.durable hok e, ?_⟩
    cases e with
    | datagram src pkt junk => exact ih (next_ok hok _) (h.step hok (by simp)) hb
    | empty => exact ih (next_ok hok _) (h.step hok (by simp)) hb
    | timeout junk => exact (along_of_forall hb).mono fun _ _ hn ht => absurd ht hn

theorem Finished.beforeTimeout (hok : s.core.Ok) (h : Finished a s.core) {es : List RcvEvent}
    (hown : ∀ e ∈ es, e.SentBy a → e.OfTransfer a f)
    (hd : Along (next rcvStep) (Durable a f) s es) : BeforeTimeout a f es := by
  induction es generalizing s with
  | nil => trivial
  | cons e es ih =>
    have hown' : ∀ e ∈ es, e.SentBy a → e.OfTransfer a f :=
      fun e he => hown e (List.mem_cons_of_mem _ he)
    cases e with
    | datagram src pkt junk => exact ih (next_ok hok _) (h.step hok (by simp)) hown' hd.2
    | empty => exact ih (next_ok hok _) (h.step hok (by simp)) hown' hd.2
    | timeout junk => exact none_of_durable (next_ok hok _) (h.timeout hok) hown' hd.2

/-- From the pass that closes the file of a transfer of `a` on: while no datagram
of the transfer comes after a timeout, the file stays as it is and `a` out of
the queue; and when `a` sends for no other file, only then. -/
theorem transfer_durable (buf : NetPkt) (past : List RcvEvent) (e : RcvEvent) (a : SockaddrIn)
    (f : Fname)
    (hclose : .close f ∈ (rcvStep (past.foldl (next rcvStep) (.init buf)) e).2)
    (hhead : ((past ++ [e]).foldl (next rcvStep) (.init buf)).senderQ.head? = some a)
    (later : List RcvEvent) :
    let s := (past ++ [e]).foldl (next rcvStep) (.init buf)
    (BeforeTimeout a f later → Along (next rcvStep) (Durable a f) s later) ∧
      ((∀ e ∈ later, e.SentBy a → e.OfTransfer a f) →
        (Along (next rcvStep) (Durable a f) s later ↔ BeforeTimeout a f later)) := by
  have hok := (rcv_run_core (RcvCore.ok_init buf) past).2.2
  rw [List.foldl_append, List.foldl_cons, List.foldl_nil] at hhead
  intro s
  have hs : s = next rcvStep (past.foldl (next rcvStep) (.init buf)) e := by simp [s]
  have hsok : s.core.Ok := by
    rw [hs]
    exact next_ok hok e
  have hfin : Finished a s.core := by
    rw [hs, next_core hok]
    refine finished_of_close (out_core hok e ▸ hclose) ?_
    rw [← next_core hok]
    exact hhead
  exact ⟨hfin.durable_run hsok,
    fun hown => ⟨hfin.beforeTimeout hsok hown, hfin.durable_run hsok⟩⟩

/-- A repeat of the only packet before the timeout is only acknowledged. -/
theorem transfer_durable_repeat :
    let e : RcvEvent := .datagram ⟨1, 5⟩ (fullPkt [97] 97 1 true) ⟨0, 0, false⟩
    Along (next rcvStep) (Durable ⟨1, 5⟩ [97])
      (([e] : List RcvEvent).foldl (next rcvStep) (.init (fullPkt [] 0 0 false)))
      [e, .timeout ⟨0, 0, false⟩] := by
  intro e
  have h := transfer_durable (fullPkt [] 0 0 false) [] e ⟨1, 5⟩ [97]
    (.tail _ (.tail _ (.tail _ (.head _)))) (by decide) [e, .timeout ⟨0, 0, false⟩]
  exact h.1 (by simp [BeforeTimeout, e])

/-- The only packet of a file arrives, its acknowledgment is lost, the receiver
times out, and the packet is sent again: the finished file is opened anew and
the sender is queued again. -/
theorem late_datagram_reopens :
    let e : RcvEvent := .datagram ⟨1, 5⟩ (fullPkt [97] 97 1 true) ⟨0, 0, false⟩
    let s := ([e] : List RcvEvent).foldl (next rcvStep) (.init (fullPkt [] 0 0 false))
    let t := next rcvStep s (.timeout ⟨0, 0, false⟩)
    .close [97] ∈ (rcvStep (.init (fullPkt [] 0 0 false)) e).2 ∧ s.senderQ.head? = some ⟨1, 5⟩ ∧
      e.OfTransfer ⟨1, 5⟩ [97] ∧ .openFile [97] ∈ (rcvStep t e).2 ∧ ¬ Durable ⟨1, 5⟩ [97] t e := by
  intro e s t
  have hof : e.OfTransfer ⟨1, 5⟩ [97] := ⟨rfl, by decide⟩
  have hopen : .openFile [97] ∈ (rcvStep t e).2 := .head _
  exact ⟨.tail _ (.tail _ (.tail _ (.head _))), by decide, hof, hopen, fun h => (h hof).1 hopen⟩

end Wan.Proj1
