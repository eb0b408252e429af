import Wan.Proj2.RtNet

/-!
# Delivery in order, each number once

The receiver delivers from the front of `window`, so what one pass delivers is in
order. Over a run that is so as long as nothing enters `window` behind a packet
already delivered. `app_cum_seq`, from which each delivery starts, is never
moved, and a packet that arrives behind `cum_seq` is cached like any other.
-/

namespace Wan.Proj2

open Posix Lib

variable {r : RtRcvState} {done : List NetPkt} {pkt : NetPkt} {clock : ℕ → ℤ}

/-- A packet handed to the receiver in phase II has not been passed by `cum_seq`,
or is still waiting for its delivery, or there was no delivery yet. If it is a
reply, its number is not the last one of 64 bits, behind which `cum_seq` would be
0 again. -/
def Timely (s : RtNet) : RtNetEvent → Prop :=
  RcvReads (fun o => s.rcv.exited = true ∨ o.pkt.seq = blockedSeq ∨ s.rcv.cumSeq = 0 ∨
    ((o.isReply = true → o.pkt.seq + 1 < 2 ^ 64) ∧
      (s.rcv.cumSeq ≤ o.pkt.seq ∨ o.pkt.seq ∈ s.rcv.window.keys ∨ s.delivered = []))) s

instance (s : RtNet) : DecidablePred (Timely s) := RcvReads.decidable _ s

structure Ordered (r : RtRcvState) (done : List NetPkt) : Prop where
  stock : Stocked (fun _ => True) r
  sorted : done.Pairwise (·.seq < ·.seq)
  waiting : ∀ q ∈ done, ∀ k ∈ r.window.keys, q.seq < k
  passed : ∀ q ∈ done, q.seq < r.cumSeq

theorem ordered_init : Ordered .init [] where
  stock := stocked_init
  sorted := .nil
  waiting := fun _ hq => absurd hq List.not_mem_nil
  passed := fun _ hq => absurd hq List.not_mem_nil

theorem deliveriesOf_append (out out' : List RtRcvEffect) :
    deliveriesOf (out ++ out') = deliveriesOf out ++ deliveriesOf out' :=
  List.filterMap_append

theorem deliveriesOf_eq_nil {out : List RtRcvEffect} (h : ∀ p, .deliver p ∉ out) :
    deliveriesOf out = [] :=
  List.eq_nil_iff_forall_not_mem.mpr fun p hp => h p (mem_deliveriesOf.mp hp)

theorem deliveriesOf_deliver (r : RtRcvState) (clock : ℕ → ℤ) :
    deliveriesOf (deliver r clock).2 = (popDue r (topDeliverSeq r clock)).1.map Prod.snd := by
  simp only [deliver, deliveriesOf, List.filterMap_map]
  exact congrFun List.filterMap_eq_map _

theorem Ordered.deliver (h : Ordered r done) (clock : ℕ → ℤ) :
    Ordered (deliver r clock).1 (done ++ deliveriesOf (deliver r clock).2) := by
  obtain ⟨hstock, hmove, -, -⟩ := h.stock.deliver clock
  obtain ⟨top, htop⟩ : ∃ top, topDeliverSeq r clock = top := ⟨_, rfl⟩
  rw [deliveriesOf_deliver, htop]
  have hdue : ∀ q ∈ (popDue r top).1.map Prod.snd, q.seq ∈ r.window.keys ∧ q.seq ≤ top := by
    intro q hq
    obtain ⟨e, he, rfl⟩ := List.mem_map.mp hq
    obtain ⟨hm, hle⟩ := mem_popDue.mp he
    have hw := OrdMap.find?_iff.mpr hm
    rw [(h.stock.window e.1 e.2 hw).1]
    exact ⟨OrdMap.mem_keys.mpr ⟨e.2, hw⟩, hle⟩
  have hsorted : ((popDue r top).1.map Prod.snd).Pairwise (·.seq < ·.seq) := by
    refine List.pairwise_map.mpr ((OrdMap.popWhile_sorted _ r.window).imp_of_mem ?_)
    intro d e hd he hlt
    rw [(h.stock.window d.1 d.2 (OrdMap.find?_iff.mpr (mem_popDue.mp hd).1)).1,
      (h.stock.window e.1 e.2 (OrdMap.find?_iff.mpr (mem_popDue.mp he).1)).1]
    exact hlt
  refine ⟨hstock, List.pairwise_append.mpr ⟨h.sorted, hsorted, ?_⟩, ?_, ?_⟩
  · exact fun q hq p hp => h.waiting q hq _ (hdue p hp).1
  · intro q hq k hk
    replace hk : k ∈ (popDue r top).2.keys := htop ▸ hk
    obtain ⟨hkeys, hlt⟩ := mem_keys_popDue.mp hk
    rcases List.mem_append.mp hq with hq | hq
    · exact h.waiting q hq k hkeys
    · exact (hdue q hq).2.trans_lt hlt
  · intro q hq
    rcases List.mem_append.mp hq with hq | hq
    · exact (h.passed q hq).trans_le hmove.le
    · obtain ⟨hkeys, hle⟩ := hdue q hq
      have hpos : 0 < r.cumSeq := by
        by_contra h0
        rw [(h.stock.phaseI (by omega)).2] at hkeys
        exact absurd hkeys List.not_mem_nil
      show q.seq < if r.cumSeq > 0 ∧ topDeliverSeq r clock ≥ r.cumSeq
        then topDeliverSeq r clock + 1 else r.cumSeq
      rw [htop]
      split_ifs <;> omega

theorem Ordered.phaseII (h : Ordered r done) (hc : 1 ≤ r.cumSeq)
    (hlate : r.cumSeq ≤ pkt.seq ∨ pkt.seq ∈ r.window.keys ∨ done = []) (oneDelay : ℚ) :
    Ordered (phaseII r pkt oneDelay).1 (done ++ deliveriesOf (phaseII r pkt oneDelay).2) := by
  obtain ⟨hstock, hmove, -, hnone⟩ :=
    h.stock.phaseII hc (show (fun _ => True) pkt from trivial) oneDelay
  rw [deliveriesOf_eq_nil hnone, List.append_nil]
  refine ⟨hstock, h.sorted, fun q hq k hk => ?_, fun q hq => (h.passed q hq).trans_le hmove.le⟩
  rw [window_phaseII, OrdMap.mem_keys_insert] at hk
  rcases hk with rfl | hk
  · rcases hlate with hle | hkeys | rfl
    · exact (h.passed q hq).trans_le hle
    · exact h.waiting q hq _ hkeys
    · exact absurd hq List.not_mem_nil
  · exact h.waiting q hq k hk

theorem Ordered.step (h : Ordered r done) {e : RtRcvEvent}
    (he : Welcome (fun pkt => r.cumSeq ≤ pkt.seq ∨ pkt.seq ∈ r.window.keys ∨ done = []) r e) :
    Ordered (rtRcvStep r e).1 (done ++ deliveriesOf (rtRcvStep r e).2) := by
  obtain ⟨hstock, hmove, -⟩ := h.stock.step (e := e) fun _ _ _ => .inr (.inr (.inr trivial))
  revert hstock hmove
  refine rtRcvStep_cases (motive := fun t => Stocked (fun _ => True) t.1 →
    Moves (fun _ => True) r.cumSeq t.1.cumSeq → Ordered t.1 (done ++ deliveriesOf t.2))
    ?_ ?_ ?_ ?_ ?_
  · intro _ _
    exact (List.append_nil done).symm ▸ h
  · intro pkt clock _ _ hstock hmove
    exact (List.append_nil done).symm ▸ ⟨hstock, h.sorted, h.waiting, h.passed⟩
  · intro pkt clock _ _ _ hstock hmove
    refine (List.append_nil done).symm ▸ ⟨hstock, h.sorted, h.waiting, fun q hq => ?_⟩
    exact (h.passed q hq).trans_le hmove.le
  · rintro pkt clock rfl hx hb hphase t - -
    have hc := h.stock.one_le_cumSeq hphase
    have hlate := he.phaseII h.stock hx hb hphase
    have ht : Ordered { r with totalPkts := r.totalPkts + 1 } done :=
      ⟨h.stock.received, h.sorted, h.waiting, h.passed⟩
    have h2 := (ht.phaseII hc hlate (toMS (clock 0 - pkt.senderTS))).deliver clock
    rw [List.append_assoc, ← deliveriesOf_append] at h2
    exact h2
  · rintro clock rfl - -
    have hnone := deliveriesOf_eq_nil (deliver_notMem_sendNacks r)
    have h2 := h.deliver clock
    rwa [← List.nil_append (deliveriesOf _), ← hnone, ← deliveriesOf_append] at h2

theorem Ordered.net {a : SockaddrIn} {s : RtNet} {e : RtNetEvent}
    (h : Ordered s.rcv s.delivered) (he : Timely s e) :
    Ordered (rtNetStep a s e).rcv (rtNetStep a s e).delivered := by
  refine rtNetStep_cases (motive := fun t => Ordered t.rcv t.delivered) ?_ ?_ ?_ ?_
  · exact fun _ _ _ _ _ _ _ _ => h
  · rintro toRcv i clock o - rfl ho
    refine h.step fun pkt clock' heq => ?_
    obtain ⟨rfl, -⟩ := RtRcvEvent.recv.inj heq
    exact (he o ho).imp_right fun h => h.imp_right fun h => h.imp_right And.right
  · rintro clock rfl
    exact h.step fun pkt clock' heq => nomatch heq
  · exact fun _ _ _ _ => h

/-- In a run in which no packet reaches the receiver behind one it has passed and
no longer holds, the numbers of the delivered packets strictly increase. -/
theorem ordered_delivery (a : SockaddrIn) (sinPort : UInt16) (es : List RtNetEvent)
    (h : Along (rtNetStep a) Timely (.init sinPort) es) :
    ((es.foldl (rtNetStep a) (.init sinPort)).delivered.map (·.seq)).Pairwise (· < ·) := by
  have hord := h.inv (I := fun s => Ordered s.rcv s.delivered) ordered_init fun _ _ h he => h.net he
  exact List.pairwise_map.mpr hord.sorted

/-- Two datagrams arrive in order, the second one when the first has been
delivered. -/
theorem ordered_delivery_two :
    let es : List RtNetEvent := [.rcvTimeout fun _ => 0, .srvPass (some 0) none 0 zeroPkt,
      .deliverRcv 0 fun _ => 0, .srvPass none (some [7]) 0 zeroPkt,
      .srvPass none (some [8]) 1 zeroPkt, .srvPass (some 0) none 2 zeroPkt,
      .srvPass (some 0) none 3 zeroPkt, .deliverRcv 0 fun _ => 4, .rcvTimeout fun _ => 10 ^ 12,
      .deliverRcv 0 fun _ => 10 ^ 12]
    let s := es.foldl (rtNetStep ⟨1, 5⟩) (.init 0)
    s.delivered.map (·.seq) = [1, 2] ∧ (s.delivered.map (·.seq)).Pairwise (· < ·) := by
  intro es
  have h : Along (rtNetStep ⟨1, 5⟩) Timely (.init 0) es := by decide +kernel
  exact ⟨by decide +kernel, ordered_delivery ⟨1, 5⟩ 0 es h⟩

/-- The network duplicates the packet with number 1. Its second copy arrives when
the first one has been delivered, and is delivered again. -/
theorem late_copy_delivered_again :
    let es : List RtNetEvent := [.rcvTimeout fun _ => 0, .srvPass (some 0) none 0 zeroPkt,
      .deliverRcv 0 fun _ => 0, .srvPass none (some [7]) 0 zeroPkt,
      .srvPass (some 0) none 1 zeroPkt, .duplicateRcv 0, .deliverRcv 0 fun _ => 2,
      .rcvTimeout fun _ => 10 ^ 12, .deliverRcv 0 fun _ => 10 ^ 12]
    let s := es.foldl (rtNetStep ⟨1, 5⟩) (.init 0)
    s.delivered.map (·.seq) = [1, 1] ∧ ¬ (s.delivered.map (·.seq)).Pairwise (· < ·) := by
  decide +kernel

end Wan.Proj2
