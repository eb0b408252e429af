import Wan.Proj1.RcvCore

/-!
# Who is served, and who is told to wait

The receiver serves the sender at the head of `sender_q`. Senders join the queue
at its end with their first datagram and leave it from the head, at a timeout
after their transfer is done. Only the others are told to wait, with an
`ack_pkt` that carries -1.
-/

namespace Wan.Proj1

open Posix Lib

variable {c : RcvCore} {s : RcvState} {dst fromAddr src : SockaddrIn} {pkt : NetPkt}
  {junk q : AckPkt}

/-- The flags, the queue and the file agree; the guard for re-open finds the file
closed whenever it is asked. -/
structure Admitted (s : RcvState) : Prop where
  nodup : s.senderQ.Nodup
  queued : s.rcvStart = true → s.senderQ ≠ []
  started : s.done = true → s.rcvStart = true
  open_iff : s.pd.isSome = true ↔ s.rcvStart = true ∧ s.done = false
  guard : s.rcvStart = false → s.pd.isSome = false

def joins (s : RcvState) : RcvEvent → List SockaddrIn
  | .datagram src _ _ => if src ∈ s.senderQ then [] else [src]
  | _ => []

def leaves (s : RcvState) : RcvEvent → List SockaddrIn
  | .timeout _ => if s.done then s.senderQ.head?.toList else []
  | _ => []

def reachesHead (s : RcvState) (e : RcvEvent) : List SockaddrIn :=
  if (next rcvStep s e).senderQ.head? = s.senderQ.head? then []
  else (next rcvStep s e).senderQ.head?.toList

def LeavesAtHead (s : RcvState) (e : RcvEvent) : Prop :=
  ∀ a ∈ s.senderQ, a ∉ (next rcvStep s e).senderQ →
    s.senderQ.head? = some a ∧ s.done = true ∧ ∃ junk, e = .timeout junk

/-- The number -1 goes to senders that wait behind the head, every other number
to the head. -/
def Addressed (s : RcvState) (e : RcvEvent) : Prop :=
  ∀ dst q, .sendto dst q ∈ (rcvStep s e).2 →
    (q.cumSeq = -1 ∧ dst ∈ s.senderQ ∧ (next rcvStep s e).senderQ.head? ≠ some dst) ∨
      (0 ≤ q.cumSeq ∧ (next rcvStep s e).senderQ.head? = some dst)

-- ---------------------------------------------------------------------------
-- The queue
-- ---------------------------------------------------------------------------

theorem admitted_of_ok (h : s.core.Ok) : Admitted s := by
  have hclosed : s.rcvStart = false → s.pd = none ∧ s.done = false :=
    fun hs => ⟨(h.idle hs).1, (h.idle hs).2.1⟩
  have hopen : s.rcvStart = true → (s.pd = none ↔ s.done = true) := h.closed
  refine ⟨h.nodup, h.queued, fun hd => ?_, ?_, fun hs => by simp [(hclosed hs).1]⟩
  · cases hs : s.rcvStart with
    | true => rfl
    | false => simp [(hclosed hs).2] at hd
  · cases hs : s.rcvStart with
    | true =>
      have hp := hopen hs
      cases hd : s.done with
      | true => simp [hp.mpr hd]
      | false =>
        cases hpd : s.pd with
        | none => simp [hp.mp hpd] at hd
        | some f => simp
    | false => simp [(hclosed hs).1]

theorem senderQ_next (hok : s.core.Ok) (e : RcvEvent) :
    (next rcvStep s e).senderQ = match e with
      | .datagram src _ _ => joined s.senderQ src
      | .empty => s.senderQ
      | .timeout _ => if s.done then s.senderQ.tail else s.senderQ := by
  have hc : (next rcvStep s e).senderQ = (coreStep s.core e).1.senderQ :=
    congrArg RcvCore.senderQ (next_core hok e)
  rw [hc]
  cases e with
  | datagram src pkt junk => exact coreRecv_senderQ _ _ _ _
  | empty => rfl
  | timeout junk =>
    cases hd : s.done with
    | true => simp [coreStep, coreTimeout, RcvState.core, hd]
    | false => simp [coreStep, coreTimeout, RcvState.core, hd]

theorem queue_step (hok : s.core.Ok) (e : RcvEvent) :
    s.senderQ ++ joins s e = leaves s e ++ (next rcvStep s e).senderQ := by
  rw [senderQ_next hok]
  cases e with
  | datagram src pkt junk =>
    simp only [joins, leaves, joined, List.nil_append]
    split_ifs
    · exact List.append_nil _
    · rfl
  | empty => exact List.append_nil _
  | timeout junk =>
    simp only [joins, leaves, List.append_nil]
    cases hd : s.done with
    | true => cases hq : s.senderQ <;> simp
    | false => simp

theorem head_step (hok : s.core.Ok) (e : RcvEvent) :
    s.senderQ.head?.toList ++ reachesHead s e =
      leaves s e ++ (next rcvStep s e).senderQ.head?.toList := by
  have hnodup : s.senderQ.Nodup := hok.nodup
  simp only [reachesHead, senderQ_next hok]
  cases e with
  | datagram src pkt junk =>
    cases hq : s.senderQ with
    | nil => simp [joined, leaves]
    | cons a q =>
      have hhead : (joined (a :: q) src).head? = some a := joined_head? rfl src
      simp [hhead, leaves]
  | empty => simp [leaves]
  | timeout junk =>
    cases hd : s.done with
    | false => simp [leaves, hd]
    | true =>
      cases hq : s.senderQ with
      | nil => simp [leaves, hd, hq]
      | cons a q =>
        rw [hq] at hnodup
        cases q with
        | nil => simp [leaves, hd, hq]
        | cons b q =>
          have hne : b ≠ a := by
            rintro rfl
            exact (List.nodup_cons.mp hnodup).1 List.mem_cons_self
          simp [leaves, hd, hq, hne]

theorem leavesAtHead (hok : s.core.Ok) (e : RcvEvent) : LeavesAtHead s e := by
  intro a ha hout
  rw [senderQ_next hok] at hout
  cases e with
  | datagram src pkt junk => exact absurd (mem_joined.mpr (.inl ha)) hout
  | empty => exact absurd ha hout
  | timeout junk =>
    cases hd : s.done with
    | false => exact absurd (by simpa [hd] using ha) hout
    | true =>
      cases hq : s.senderQ with
      | nil => simp [hq] at ha
      | cons b q =>
        rw [hq] at ha
        rcases List.mem_cons.mp ha with rfl | ha
        · exact ⟨rfl, rfl, junk, rfl⟩
        · exact absurd (by simpa [hd, hq] using ha) hout

-- ---------------------------------------------------------------------------
-- What is sent to whom
-- ---------------------------------------------------------------------------

/-- Whatever becomes of a packet, the answers go to the head of the queue; NACKs ask
for numbers between the last one in order and the packet at hand. -/
theorem coreReceive_sendto (h : .sendto dst q ∈ (coreReceive c pkt fromAddr junk).2) :
    dst = fromAddr ∧ c.cumSeq ≤ q.cumSeq ∧
      (q.isNack = true → c.window = [] ∧ c.cumSeq < q.cumSeq ∧ q.cumSeq < pkt.seq) := by
  revert h
  refine coreReceive_cases (motive := fun r => .sendto dst q ∈ r.2 → _) ?_ ?_ ?_ ?_ ?_ ?_
  · intro hold h
    obtain ⟨rfl, rfl⟩ := RcvEffect.sendto.inj (List.mem_singleton.mp h)
    exact ⟨rfl, le_rfl, by rintro ⟨⟩⟩
  · intro hnext _ h
    obtain ⟨rfl, rfl⟩ := RcvEffect.sendto.inj (List.mem_singleton.mp h)
    exact ⟨rfl, by simp [hnext], by rintro ⟨⟩⟩
  · intro f hnext _ _ h
    obtain ⟨rfl, rfl⟩ : dst = fromAddr ∧ q = _ := by simpa using h
    exact ⟨rfl, by simp [hnext], by rintro ⟨⟩⟩
  · intro f hnext _ _ h
    obtain ⟨rfl, rfl⟩ : dst = fromAddr ∧ q = _ := by simpa using h
    exact ⟨rfl, by simp [hnext], by rintro ⟨⟩⟩
  · intro _ hw _ h
    obtain ⟨i, hi, heq⟩ := List.mem_map.mp h
    obtain ⟨rfl, rfl⟩ := RcvEffect.sendto.inj heq
    have hlo : c.cumSeq < c.cumSeq + 1 + i := by omega
    have hhi : c.cumSeq + 1 + i < pkt.seq := by
      have := List.mem_range.mp hi
      omega
    exact ⟨rfl, hlo.le, fun _ => ⟨hw, hlo, hhi⟩⟩
  · intro _ _ h
    cases h

theorem coreReceive_le_cumSeq : c.cumSeq ≤ (coreReceive c pkt fromAddr junk).1.cumSeq := by
  refine coreReceive_cases (motive := fun r => c.cumSeq ≤ r.1.cumSeq) ?_ ?_ ?_ ?_ ?_ ?_
  · exact fun _ => le_rfl
  · exact fun h _ => by simp [h]
  · exact fun _ h _ _ => by simp [h]
  · exact fun _ h _ _ => by simp [h]
  · exact fun _ _ _ => le_rfl
  · exact fun _ _ => le_rfl

theorem coreStep_cumSeq_nonneg (h : 0 ≤ c.cumSeq) (e : RcvEvent) :
    0 ≤ (coreStep c e).1.cumSeq := by
  cases e with
  | datagram src pkt junk =>
    simp only [coreStep, coreRecv]
    split_ifs
    · exact h
    · exact h.trans coreReceive_le_cumSeq
    · exact h.trans (coreReceive_le_cumSeq
        (c := { c with senderQ := joined c.senderQ src, pd := some pkt.name, rcvStart := true }))
  | empty => exact h
  | timeout junk =>
    simp only [coreStep, coreTimeout]
    split_ifs
    · exact le_rfl
    · exact h

theorem coreRecv_sendto (h : .sendto dst q ∈ (coreRecv c src pkt junk).2) :
    (src ∈ c.senderQ ∧ c.senderQ.head? ≠ some src ∧ dst = src ∧ q = { junk with cumSeq := -1 }) ∨
      ((src ∈ c.senderQ → c.senderQ.head? = some src) ∧
        (joined c.senderQ src).head? = some dst ∧ c.cumSeq ≤ q.cumSeq ∧
        (q.isNack = true → c.window = [] ∧ c.cumSeq < q.cumSeq ∧ q.cumSeq < pkt.seq)) := by
  have hhead := joined_headD c.senderQ src
  simp only [coreRecv] at h
  split_ifs at h with hblk hs
  · obtain ⟨hdst, hq⟩ := RcvEffect.sendto.inj (List.mem_singleton.mp h)
    exact .inl ⟨hblk.1, hblk.2, hdst, hq⟩
  · obtain ⟨rfl, hrest⟩ := coreReceive_sendto h
    exact .inr ⟨fun hmem => not_not.mp fun hne => hblk ⟨hmem, hne⟩, hhead, hrest⟩
  · rcases List.mem_cons.mp h with h | h
    · cases h
    · obtain ⟨rfl, hrest⟩ := coreReceive_sendto h
      exact .inr ⟨fun hmem => not_not.mp fun hne => hblk ⟨hmem, hne⟩, hhead, hrest⟩

theorem addressed (hok : s.core.Ok) (h0 : 0 ≤ s.cumSeq) (e : RcvEvent) : Addressed s e := by
  intro dst q h
  rw [out_core hok] at h
  rw [senderQ_next hok]
  cases e with
  | datagram src pkt junk =>
    rcases coreRecv_sendto h with ⟨hmem, hwait, rfl, rfl⟩ | ⟨-, hhead, hle, -⟩
    · refine .inl ⟨rfl, hmem, ?_⟩
      show (joined s.senderQ dst).head? ≠ some dst
      rw [show joined s.senderQ dst = s.senderQ from if_pos hmem]
      exact hwait
    · exact .inr ⟨h0.trans hle, hhead⟩
  | empty => cases h
  | timeout junk =>
    have hnext := senderQ_next hok (.timeout junk)
    simp only [coreStep, coreTimeout] at h
    obtain ⟨head, hhead, heq⟩ := List.mem_map.mp h
    obtain ⟨rfl, rfl⟩ := RcvEffect.sendto.inj heq
    rw [Option.mem_toList] at hhead
    right
    cases hd : s.done with
    | true =>
      have hdc : s.core.done = true := hd
      rw [if_pos hdc] at hhead
      exact ⟨by simp [hdc], hhead⟩
    | false =>
      have hdc : s.core.done = false := hd
      rw [if_neg (by simp [hdc])] at hhead
      refine ⟨?_, hhead⟩
      simp only [hdc, Bool.false_eq_true, ↓reduceIte]
      exact h0

-- ---------------------------------------------------------------------------
-- Whole runs
-- ---------------------------------------------------------------------------

/-- In every run: the queue, the flags and the file agree in every state; senders
are served in the order in which they joined and leave only when they are done;
and -1 is sent to exactly the senders that have to wait. -/
theorem admission_protocol (buf : NetPkt) (es : List RcvEvent) :
    let init := RcvState.init buf
    let s := es.foldl (next rcvStep) init
    Admitted s ∧
      gather (next rcvStep) joins init es = gather (next rcvStep) leaves init es ++ s.senderQ ∧
      gather (next rcvStep) reachesHead init es <+: gather (next rcvStep) joins init es ∧
      Along (next rcvStep) (fun t e => LeavesAtHead t e ∧ Addressed t e) init es := by
  intro init s
  have hok : init.core.Ok := RcvCore.ok_init buf
  have hqueue := fifo (fun t : RcvState => t.senderQ) (fun _ e h => next_ok h e)
    (fun _ e h => queue_step h e) hok es
  have hheads := fifo (fun t : RcvState => t.senderQ.head?.toList) (fun _ e h => next_ok h e)
    (fun _ e h => head_step h e) hok es
  have hstep : ∀ t e, t.core.Ok ∧ 0 ≤ t.cumSeq → True →
      (next rcvStep t e).core.Ok ∧ 0 ≤ (next rcvStep t e).cumSeq := by
    rintro t e ⟨ht, h0⟩ -
    refine ⟨next_ok ht e, ?_⟩
    have hcum : (next rcvStep t e).cumSeq = (coreStep t.core e).1.cumSeq :=
      congrArg RcvCore.cumSeq (next_core ht e)
    rw [hcum]
    exact coreStep_cumSeq_nonneg h0 e
  have hall : Along (next rcvStep) (fun _ _ => True) init es := along_trivial
  refine ⟨admitted_of_ok (rcv_run_core hok es).2.2, hqueue, ?_, ?_⟩
  · rw [show gather (next rcvStep) joins init es = _ from hqueue,
      show gather (next rcvStep) reachesHead init es = _ from hheads]
    refine (List.prefix_append_right_inj _).mpr ?_
    cases s.senderQ with
    | nil => exact List.nil_prefix
    | cons a q => exact ⟨q, rfl⟩
  · exact hall.strengthen (I := fun t => t.core.Ok ∧ 0 ≤ t.cumSeq) ⟨hok, le_rfl⟩ hstep
      fun t e ht _ => ⟨leavesAtHead ht.1 e, addressed ht.1 ht.2 e⟩

end Wan.Proj1
