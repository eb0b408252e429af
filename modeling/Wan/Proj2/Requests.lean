import Wan.Proj2.RtNet

/-!
# What the receiver asked for bounds what it holds

Data packets are only sent for numbers the receiver asked for, and it asks for
`cum_seq` and the numbers behind it, `W_SIZE` of them. `cum_seq` never goes back,
so no number that is requested, in flight or held lies further ahead than that,
and the scan for the next missing number never needs more than its `W_SIZE`
steps.
-/

namespace Wan.Proj2

open Posix Lib

variable {r : RtRcvState} {s : RtNet} {a : SockaddrIn} {e : RtNetEvent} {k : ℕ}

-- ---------------------------------------------------------------------------
-- A pass of the receiver
-- ---------------------------------------------------------------------------

theorem mem_keys_rtRcvStep {e : RtRcvEvent} (h : k ∈ (rtRcvStep r e).1.window.keys) :
    k ∈ r.window.keys ∨ ∃ pkt clock, e = .recv pkt clock ∧ pkt.seq ≠ blockedSeq ∧ k = pkt.seq := by
  revert h
  refine rtRcvStep_cases (motive := fun t => k ∈ t.1.window.keys → k ∈ r.window.keys ∨
    ∃ pkt clock, e = .recv pkt clock ∧ pkt.seq ≠ blockedSeq ∧ k = pkt.seq) ?_ ?_ ?_ ?_ ?_
  · exact .inl
  · exact fun _ _ _ _ => .inl
  · exact fun _ _ _ _ _ => .inl
  · intro pkt clock he _ hb _ t hk
    obtain ⟨hk, -⟩ := mem_keys_popDue.mp (show k ∈ (popDue t.1 _).2.keys from hk)
    rw [window_phaseII, OrdMap.mem_keys_insert] at hk
    exact hk.symm.imp_right fun hk => ⟨pkt, clock, he, hb, hk⟩
  · intro clock _ hk
    exact .inl (mem_keys_popDue.mp (show k ∈ (popDue r _).2.keys from hk)).1

theorem nack_rtRcvStep (h : Stocked (fun _ => True) r) {e : RtRcvEvent} {q : AckPkt}
    (hq : .sendto q ∈ (rtRcvStep r e).2) (hn : q.isNack = true) : q.seq < r.cumSeq + wSize := by
  revert hq
  refine rtRcvStep_cases (motive := fun t => .sendto q ∈ t.2 → q.seq < r.cumSeq + wSize)
    ?_ ?_ ?_ ?_ ?_
  · exact fun hq => absurd hq List.not_mem_nil
  · exact fun _ _ _ _ hq => absurd hq List.not_mem_nil
  · exact fun _ _ _ _ _ hq => absurd hq List.not_mem_nil
  · intro pkt clock _ _ _ hphase t hq
    obtain ⟨h1, -, hacks, -⟩ := h.received.phaseII (h.one_le_cumSeq hphase)
      (show (fun _ => True) pkt from trivial) (toMS (clock 0 - pkt.senderTS))
    rcases List.mem_append.mp hq with hq | hq
    · simp [(hacks q hq).1] at hn
    · exact absurd hq ((h1.deliver clock).2.2.1 q)
  · intro clock _ hq
    rcases List.mem_append.mp hq with hq | hq
    · obtain ⟨i, hi, heq⟩ := List.mem_map.mp hq
      obtain rfl := RtRcvEffect.sendto.inj heq
      exact (List.mem_range'_1.mp (List.mem_filter.mp hi).1).2
    · exact absurd hq ((h.deliver clock).2.2.1 q)

/-- When nothing is held beyond the cap, the scan ends at the next missing number
and acknowledges the one before it. -/
theorem sequential_least (h : ∀ k ∈ r.window.keys, k < r.cumSeq + wSize) :
    ∃ c, IsLeast {k | r.cumSeq < k ∧ k ∉ r.window.keys} c ∧
      sequential r = ({ r with cumSeq := c }, [.sendto ⟨c - 1, false⟩]) := by
  obtain ⟨c, heq, hlt, hkeys, -, hstop⟩ := sequential_spec r
  have hmiss : c ∉ r.window.keys := by
    rcases hstop with hstop | hstop
    · exact hstop
    · -- the number at the cap would be held
      have hcap : r.cumSeq + wSize ∈ r.window.keys :=
        hkeys _ (Nat.lt_add_of_pos_right (by decide)) (by omega)
      exact absurd (h _ hcap) (lt_irrefl _)
  refine ⟨c, ⟨⟨hlt, hmiss⟩, fun k hk => ?_⟩, heq⟩
  by_contra hk'
  exact hk.2 (hkeys k hk.1 (by omega))

-- ---------------------------------------------------------------------------
-- The network
-- ---------------------------------------------------------------------------

structure Requested (s : RtNet) : Prop where
  number : ∀ k q, s.srv.window.find? k = some q → q.seq = k
  stock : Stocked (fun _ => True) s.rcv
  nacks : ∀ q ∈ s.toSrv, q.isNack = true → q.seq < s.rcv.cumSeq + wSize
  data : ∀ dst q, .data dst q ∈ s.toRcv → q.seq < s.rcv.cumSeq + wSize
  refused : ∀ dst q, .reject dst q ∈ s.toRcv → q.seq = blockedSeq
  held : ∀ k ∈ s.rcv.window.keys, k < s.rcv.cumSeq + wSize

theorem requested_init (sinPort : UInt16) : Requested (.init sinPort) where
  number := fun k q h => by simp [RtNet.init, RtSrvState.init] at h
  stock := stocked_init
  nacks := fun _ hq => absurd hq List.not_mem_nil
  data := fun _ _ hm => absurd hm List.not_mem_nil
  refused := fun _ _ hm => absurd hm List.not_mem_nil
  held := fun k hk => by simp [RtNet.init, RtRcvState.init] at hk

theorem Requested.channels (h : Requested s) {toRcv : List RtSrvEffect} {toSrv : List AckPkt}
    (hr : ∀ o ∈ toRcv, o ∈ s.toRcv) (hs : ∀ q ∈ toSrv, q ∈ s.toSrv) :
    Requested { s with toRcv := toRcv, toSrv := toSrv } where
  number := h.number
  stock := h.stock
  nacks := fun q hq => h.nacks q (hs q hq)
  data := fun dst q hm => h.data dst q (hr _ hm)
  refused := fun dst q hm => h.refused dst q (hr _ hm)
  held := h.held

theorem Requested.srvDo (h : Requested s) {e : RtSrvEvent}
    (hc : ∀ src p, e.client = .msg src p → p.isNack = true → p.seq < s.rcv.cumSeq + wSize) :
    Requested (s.srvDo e) where
  number := number_rtSrvStep h.number e
  stock := h.stock
  nacks := h.nacks
  data := by
    intro dst q hm
    rcases List.mem_append.mp hm with hm | hm
    · exact h.data dst q hm
    · obtain ⟨p, hsp, hn, hw⟩ := rtSrvStep_data hm
      rw [h.number _ _ hw]
      exact hc dst p hsp hn
  refused := by
    intro dst q hm
    rcases List.mem_append.mp hm with hm | hm
    · exact h.refused dst q hm
    · exact ((rtSrvStep_phaseI s.srv e).2.1 dst q hm).1
  held := h.held

theorem Requested.rcvDo (h : Requested s) {e : RtRcvEvent}
    (he : ∀ pkt clock, e = .recv pkt clock → pkt.seq = blockedSeq ∨
      pkt.seq < s.rcv.cumSeq + wSize) : Requested (s.rcvDo e) := by
  obtain ⟨hstock, hmove, -, -⟩ := h.stock.step (e := e) fun _ _ _ => .inr (.inr (.inr trivial))
  have hle : s.rcv.cumSeq + wSize ≤ (rtRcvStep s.rcv e).1.cumSeq + wSize :=
    Nat.add_le_add_right hmove.le _
  refine ⟨h.number, hstock, fun q hq hn => ?_, fun dst q hm => (h.data dst q hm).trans_le hle,
    h.refused, fun k hk => ?_⟩
  · refine lt_of_lt_of_le ?_ hle
    rcases List.mem_append.mp hq with hq | hq
    · exact h.nacks q hq hn
    · exact nack_rtRcvStep h.stock (mem_acksOf.mp hq) hn
  · refine lt_of_lt_of_le ?_ hle
    rcases mem_keys_rtRcvStep hk with hk | ⟨pkt, clock, heq, hb, rfl⟩
    · exact h.held k hk
    · exact (he pkt clock heq).resolve_left hb

theorem Requested.step (h : Requested s) (hzero : RepliesZero s) :
    Requested (rtNetStep a s e) := by
  refine rtNetStep_cases (motive := fun s => Requested s) ?_ ?_ ?_ ?_
  · rintro toSrv client app now fresh hsub hc -
    refine (h.channels (fun _ ho => ho) hsub).srvDo fun src p hsp hn => ?_
    rcases hc with hc | ⟨p', hp', hc⟩
    · cases hc.symm.trans hsp
    · obtain ⟨-, rfl⟩ := ClientInput.msg.inj (hc.symm.trans hsp)
      exact h.nacks p' hp' hn
  · rintro toRcv i clock o hsub - ho
    refine (h.channels hsub (fun _ hq => hq)).rcvDo fun pkt clock' heq => ?_
    obtain ⟨rfl, -⟩ := RtRcvEvent.recv.inj heq
    have hm := List.mem_of_getElem? ho
    cases o with
    | reject dst q => exact .inl (h.refused dst q hm)
    | reply dst q =>
      right
      rw [hzero _ hm rfl]
      exact Nat.add_pos_right _ (by decide)
    | data dst q => exact .inr (h.data dst q hm)
  · intro clock _
    exact h.rcvDo fun pkt clock' heq => by cases heq
  · exact fun toRcv toSrv hr hs => h.channels hr hs

theorem cumSeq_le_rtNetStep (h : Requested s) (e : RtNetEvent) :
    s.rcv.cumSeq ≤ (rtNetStep a s e).rcv.cumSeq := by
  have hrcv (e : RtRcvEvent) : s.rcv.cumSeq ≤ (rtRcvStep s.rcv e).1.cumSeq :=
    (h.stock.step fun _ _ _ => .inr (.inr (.inr trivial))).2.1.le
  refine rtNetStep_cases (motive := fun t => s.rcv.cumSeq ≤ t.rcv.cumSeq) ?_ ?_ ?_ ?_
  · exact fun _ _ _ _ _ _ _ _ => le_rfl
  · exact fun _ _ _ _ _ _ _ => hrcv _
  · exact fun _ _ => hrcv _
  · exact fun _ _ _ _ => le_rfl

end Wan.Proj2
