import Wan.Proj2.Stranded

/-!
# Nothing is delivered early

The delivery step looks at the deadlines of packets and delivers by their numbers. So a
packet is delivered when its own deadline has passed or that of a packet with a higher
number, and every deadline in `timetable` is that of a packet which was received.
-/

namespace Wan.Proj2

open Posix Lib

variable {s : RtRcvState} {e : RtRcvEvent} {past : List RtRcvEvent}

def RtRcvEvent.clock : RtRcvEvent → ℕ → ℤ
  | .recv _ clock => clock
  | .timeout clock => clock
  | .failed => fun _ => 0

def Received (past : List RtRcvEvent) (p : NetPkt) : Prop := ∃ clock, .recv p clock ∈ past

theorem Received.append {p : NetPkt} (h : Received past p) (more : List RtRcvEvent) :
    Received (past ++ more) p := by
  obtain ⟨clock, hm⟩ := h
  exact ⟨clock, List.mem_append_left _ hm⟩

structure Dated (past : List RtRcvEvent) (s : RtRcvState) : Prop where
  window : ∀ k p, s.window.find? k = some p → p.seq = k ∧ Received past p
  timetable : ∀ d ∈ s.timetable.entries, ∃ p, Received past p ∧ p.senderTS = d.1 ∧ p.seq = d.2
  appCumSeq : s.appCumSeq = 0

def Ripe (past : List RtRcvEvent) (delta : ℤ) (clock : ℕ → ℤ) (q : NetPkt) : Prop :=
  Received past q ∧ (q.seq = 0 ∨ ∃ p, Received past p ∧ q.seq ≤ p.seq ∧
    ∃ i, toMS (clock i - p.senderTS) > deadline delta)

theorem dated_init : Dated [] .init where
  window := fun k p h => by simp [RtRcvState.init] at h
  timetable := fun d hd => absurd hd List.not_mem_nil
  appCumSeq := rfl

theorem Dated.append (h : Dated past s) (more : List RtRcvEvent) : Dated (past ++ more) s where
  window := fun k p hp => ⟨(h.window k p hp).1, (h.window k p hp).2.append more⟩
  timetable := fun d hd => by
    obtain ⟨p, hp, hts⟩ := h.timetable d hd
    exact ⟨p, hp.append more, hts⟩
  appCumSeq := h.appCumSeq

theorem phaseII_appCumSeq (s : RtRcvState) (pkt : NetPkt) (oneDelay : ℚ) :
    (phaseII s pkt oneDelay).1.appCumSeq = s.appCumSeq := by
  unfold phaseII
  split_ifs <;> rfl

theorem deliver_notMem_phaseII (s : RtRcvState) (pkt : NetPkt) (oneDelay : ℚ) (q : NetPkt) :
    .deliver q ∉ (phaseII s pkt oneDelay).2 := by
  unfold phaseII
  split_ifs
  · simp [sequential]
  · simp

theorem Dated.phaseII (h : Dated past s) {pkt : NetPkt} (hp : Received past pkt) (oneDelay : ℚ) :
    Dated past (phaseII s pkt oneDelay).1 := by
  refine ⟨fun k p hk => ?_, fun d hd => ?_, (phaseII_appCumSeq s pkt oneDelay).trans h.appCumSeq⟩
  · rw [window_phaseII, OrdMap.find?_insert] at hk
    split_ifs at hk with hseq
    · obtain rfl := Option.some.inj hk
      exact ⟨hseq.symm, hp⟩
    · exact h.window k p hk
  · rw [timetable_phaseII] at hd
    rcases OrdMap.mem_insertEntry hd with rfl | hd
    · exact ⟨pkt, hp, rfl, rfl⟩
    · exact h.timetable d hd

theorem Dated.topDeliverSeq (h : Dated past s) (clock : ℕ → ℤ) :
    topDeliverSeq s clock = 0 ∨ ∃ p, Received past p ∧ p.seq = topDeliverSeq s clock ∧
      ∃ i, toMS (clock i - p.senderTS) > deadline s.delta := by
  rcases mem_of_foldl_max (popExpired s clock).1 s.appCumSeq with htop | ⟨d, hd, htop⟩
  · exact .inl (htop.trans h.appCumSeq)
  · obtain ⟨i, hi⟩ := OrdMap.exists_of_mem_popped hd
    obtain ⟨p, hp, hts, hseq⟩ := h.timetable d (OrdMap.mem_of_mem_popped hd)
    refine .inr ⟨p, hp, hseq.trans htop.symm, i + 2, ?_⟩
    rw [hts]
    simpa [expired] using hi

theorem Dated.deliver (h : Dated past s) (clock : ℕ → ℤ) :
    Dated past (deliver s clock).1 ∧
      ∀ q, .deliver q ∈ (deliver s clock).2 → Ripe past s.delta clock q := by
  refine ⟨⟨fun k p hp => h.window k p (find?_popDue.mp hp).1, fun d hd => ?_, h.appCumSeq⟩, ?_⟩
  · exact h.timetable d (OrdMap.mem_of_mem_rest hd)
  · intro q hq
    obtain ⟨d, hd, heq⟩ := List.mem_map.mp hq
    obtain rfl := RtRcvEffect.deliver.inj heq
    obtain ⟨hm, hle⟩ := mem_popDue.mp hd
    obtain ⟨hseq, hrec⟩ := h.window d.1 d.2 (OrdMap.find?_iff.mpr hm)
    refine ⟨hrec, ?_⟩
    rcases h.topDeliverSeq clock with h0 | ⟨p, hp, htop, hlate⟩
    · left
      omega
    · exact .inr ⟨p, hp, by omega, hlate⟩

theorem Dated.step (h : Dated past s) (e : RtRcvEvent) :
    Dated (past ++ [e]) (rtRcvStep s e).1 ∧
      ∀ q, .deliver q ∈ (rtRcvStep s e).2 → Ripe (past ++ [e]) s.delta e.clock q := by
  have h' := h.append [e]
  have hnone (q : NetPkt) (hq : .deliver q ∈ ([] : List RtRcvEffect)) :
      Ripe (past ++ [e]) s.delta e.clock q := absurd hq List.not_mem_nil
  refine rtRcvStep_cases (motive := fun r => Dated (past ++ [e]) r.1 ∧
    ∀ q, .deliver q ∈ r.2 → Ripe (past ++ [e]) s.delta e.clock q) ?_ ?_ ?_ ?_ ?_
  · exact ⟨h', hnone⟩
  · exact fun _ _ _ _ => ⟨⟨h'.window, h'.timetable, h'.appCumSeq⟩, hnone⟩
  · exact fun _ _ _ _ _ => ⟨⟨h'.window, h'.timetable, h'.appCumSeq⟩, hnone⟩
  · rintro pkt clock rfl - - -
    have hrec : Received (past ++ [.recv pkt clock]) pkt := ⟨clock, by simp⟩
    have hcounted : Dated (past ++ [.recv pkt clock]) { s with totalPkts := s.totalPkts + 1 } :=
      ⟨h'.window, h'.timetable, h'.appCumSeq⟩
    obtain ⟨r, hr⟩ : ∃ r, Proj2.phaseII { s with totalPkts := s.totalPkts + 1 } pkt
      (toMS (clock 0 - pkt.senderTS)) = r := ⟨_, rfl⟩
    have hdelta : r.1.delta = s.delta := by
      rw [← hr]
      exact phaseII_delta _ pkt _
    have hphase : Dated (past ++ [.recv pkt clock]) r.1 := hr ▸ hcounted.phaseII hrec _
    obtain ⟨hdone, hripe⟩ := hphase.deliver clock
    simp only [hr]
    refine ⟨hdone, fun q hq => ?_⟩
    rcases List.mem_append.mp hq with hq | hq
    · rw [← hr] at hq
      exact absurd hq (deliver_notMem_phaseII _ pkt _ q)
    · exact hdelta ▸ hripe q hq
  · rintro clock rfl
    obtain ⟨hdone, hripe⟩ := h'.deliver clock
    refine ⟨hdone, fun q hq => ?_⟩
    rcases List.mem_append.mp hq with hq | hq
    · exact absurd hq (deliver_notMem_sendNacks s q)
    · exact hripe q hq

theorem dated_run (past : List RtRcvEvent) :
    Dated past (past.foldl (next rtRcvStep) .init) := by
  induction past using List.reverseRecOn with
  | nil => exact dated_init
  | append_singleton past e ih =>
    rw [List.foldl_append]
    exact (ih.step e).1

/-- Whatever packets the receiver reads, and whatever its clock shows: what it hands to the
application is a packet it received, and in the pass in which it does so the delay of that
packet or of one with a higher number has passed `delta + LATENCY` as the program adds
them, which is the sum itself when it fits an `int`. (A packet with number 0, which the
server never makes, would not wait.) -/
theorem never_early (past : List RtRcvEvent) (e : RtRcvEvent) (q : NetPkt)
    (hq : .deliver q ∈ (rtRcvStep (past.foldl (next rtRcvStep) .init) e).2) :
    (∃ clock, .recv q clock ∈ past ++ [e]) ∧
      (q.seq = 0 ∨ ∃ p clock, .recv p clock ∈ past ++ [e] ∧ q.seq ≤ p.seq ∧ ∃ i,
        toMS (e.clock i - p.senderTS) > deadline (past.foldl (next rtRcvStep) .init).delta) ∧
      ((past.foldl (next rtRcvStep) .init).delta + latency < 2 ^ 31 →
        deadline (past.foldl (next rtRcvStep) .init).delta =
          (past.foldl (next rtRcvStep) .init).delta + latency) := by
  obtain ⟨hrec, hripe⟩ := ((dated_run past).step e).2 q hq
  have hrange : IntRange (past.foldl (next rtRcvStep) .init).delta :=
    along_trivial.inv (I := fun s : RtRcvState => IntRange s.delta) (by decide)
      fun s e h _ => rtRcvStep_intRange h e
  refine ⟨hrec, ?_, deadline_eq hrange⟩
  rcases hripe with h0 | ⟨p, ⟨clock, hp⟩, hle, hlate⟩
  · exact .inl h0
  · exact .inr ⟨p, clock, hp, hle, hlate⟩

/-- Packet 1 is delivered when the deadline of packet 2 has passed, and not its own. -/
theorem never_early_second :
    let q : NetPkt := { zeroPkt with seq := 1, senderTS := 2000000000 }
    let past : List RtRcvEvent := [.recv zeroPkt fun _ => 0, .recv q fun _ => 2000000000,
      .recv { zeroPkt with seq := 2, senderTS := 1000000000 } fun _ => 2000000000]
    let e : RtRcvEvent := .timeout fun _ => 2002000000
    .deliver q ∈ (rtRcvStep (past.foldl (next rtRcvStep) .init) e).2 ∧
      ¬ toMS (e.clock 0 - q.senderTS) > (past.foldl (next rtRcvStep) .init).delta + latency ∧
      ∃ p clock, .recv p clock ∈ past ++ [e] ∧ 1 ≤ p.seq ∧ ∃ i,
        toMS (e.clock i - p.senderTS) > (past.foldl (next rtRcvStep) .init).delta + latency := by
  intro q past e
  have hq : .deliver q ∈ (rtRcvStep (past.foldl (next rtRcvStep) .init) e).2 := by
    decide +kernel
  obtain ⟨-, h0 | hlate, hsum⟩ := never_early past e q hq
  · cases h0
  · rw [hsum (by decide +kernel)] at hlate
    exact ⟨hq, by decide +kernel, hlate⟩

/-- When the sum does not fit, everything is overdue. -/
example : deadline 2147482648 = -2147483648 := by decide

end Wan.Proj2
