import Wan.Proj2.RtRcv

/-!
# What a pass of the receiver does to its two maps

`ackScan` moves `cum_seq` over numbers that are in the window; the delivery step
takes everything up to some number from the front of the window, and that number
is 0 or stands in the timetable. `rtRcvStep_cases` lists what a pass can do.
-/

namespace Wan.Proj2

open Posix Lib

variable {s : RtRcvState} {pkt p : NetPkt} {clock : ℕ → ℤ} {k top : ℕ}

theorem ackScan_spec (w : OrdMap ℕ NetPkt) (m i seq : ℕ) (h : seq + 1 = i) :
    i ≤ (ackScan w m i seq).1 ∧ (ackScan w m i seq).2 + 1 = (ackScan w m i seq).1 ∧
      ∀ j, i ≤ j → j < (ackScan w m i seq).1 → j ∈ w.keys := by
  induction m generalizing i seq with
  | zero => exact ⟨le_rfl, h, fun j h1 h2 => absurd h2 (not_lt.mpr h1)⟩
  | succ m ih =>
    cases hw : w.find? i with
    | none =>
      simp only [ackScan, hw]
      exact ⟨le_rfl, h, fun j h1 h2 => absurd h2 (not_lt.mpr h1)⟩
    | some q =>
      simp only [ackScan, hw]
      obtain ⟨h1, h2, h3⟩ := ih (i + 1) i rfl
      refine ⟨(Nat.le_succ i).trans h1, h2, fun j hj hlt => ?_⟩
      rcases hj.lt_or_eq with hj | rfl
      · exact h3 j hj hlt
      · exact OrdMap.mem_keys.mpr ⟨q, hw⟩

theorem ackScan_stop (w : OrdMap ℕ NetPkt) (m i seq : ℕ) : (ackScan w m i seq).1 ≤ i + m ∧
    ((ackScan w m i seq).1 ∉ w.keys ∨ (ackScan w m i seq).1 = i + m) := by
  induction m generalizing i seq with
  | zero => exact ⟨le_rfl, .inr rfl⟩
  | succ m ih =>
    cases hw : w.find? i with
    | none =>
      simp only [ackScan, hw]
      exact ⟨Nat.le_add_right _ _, .inl (OrdMap.find?_eq_none.mp hw)⟩
    | some q =>
      simp only [ackScan, hw]
      rw [show i + (m + 1) = i + 1 + m by omega]
      exact ih (i + 1) i

theorem sequential_spec (s : RtRcvState) : ∃ c,
    sequential s = ({ s with cumSeq := c }, [.sendto ⟨c - 1, false⟩]) ∧ s.cumSeq < c ∧
      (∀ j, s.cumSeq < j → j < c → j ∈ s.window.keys) ∧ c ≤ s.cumSeq + 1 + wSize ∧
      (c ∉ s.window.keys ∨ c = s.cumSeq + 1 + wSize) := by
  obtain ⟨hle, hack, hkeys⟩ := ackScan_spec s.window wSize (s.cumSeq + 1) s.cumSeq rfl
  obtain ⟨hcap, hstop⟩ := ackScan_stop s.window wSize (s.cumSeq + 1) s.cumSeq
  obtain ⟨c, seq, hscan⟩ : ∃ c seq, ackScan s.window wSize (s.cumSeq + 1) s.cumSeq = (c, seq) :=
    ⟨_, _, rfl⟩
  rw [hscan] at hle hack hkeys hcap hstop
  refine ⟨c, ?_, hle, hkeys, hcap, hstop⟩
  simp only [sequential, hscan, show seq = c - 1 by simp only at hack; omega]

theorem phaseII_sequential (h : pkt.seq = s.cumSeq) (oneDelay : ℚ) :
    phaseII s pkt oneDelay = (cachePkt (sequential s).1 pkt oneDelay, (sequential s).2) := by
  rw [phaseII, if_pos h]

theorem phaseII_other (h : pkt.seq ≠ s.cumSeq) (oneDelay : ℚ) :
    phaseII s pkt oneDelay = (cachePkt s pkt oneDelay, []) := by
  rw [phaseII, if_neg h]

theorem phaseII_delta (s : RtRcvState) (pkt : NetPkt) (oneDelay : ℚ) :
    (phaseII s pkt oneDelay).1.delta = s.delta := by
  unfold phaseII
  split_ifs <;> rfl

theorem window_phaseII (s : RtRcvState) (pkt : NetPkt) (oneDelay : ℚ) :
    (phaseII s pkt oneDelay).1.window = s.window.insert pkt.seq pkt := by
  unfold phaseII
  split_ifs <;> rfl

-- ---------------------------------------------------------------------------
-- Delivery
-- ---------------------------------------------------------------------------

theorem deadline_le {delta : ℤ} (h : IntRange delta) : deadline delta ≤ delta + latency := by
  obtain ⟨hlo, -⟩ := h
  have hlatency : latency = 1000 := rfl
  exact toInt_le (by omega)

theorem deadline_eq {delta : ℤ} (h : IntRange delta) (hfit : delta + latency < 2 ^ 31) :
    deadline delta = delta + latency := by
  obtain ⟨hlo, -⟩ := h
  have hlatency : latency = 1000 := rfl
  exact toInt_eq (by omega) hfit

theorem deliver_delta (s : RtRcvState) (clock : ℕ → ℤ) : (deliver s clock).1.delta = s.delta := rfl

theorem mem_of_foldl_max (l : List (ℤ × ℕ)) (top : ℕ) :
    l.foldl (fun top e => if e.2 > top then e.2 else top) top = top ∨
      ∃ e ∈ l, l.foldl (fun top e => if e.2 > top then e.2 else top) top = e.2 := by
  induction l generalizing top with
  | nil => exact .inl rfl
  | cons d l ih =>
    rw [List.foldl_cons]
    split_ifs
    · rcases ih d.2 with h | ⟨e, he, h⟩
      · exact .inr ⟨d, List.mem_cons_self, h⟩
      · exact .inr ⟨e, List.mem_cons_of_mem _ he, h⟩
    · rcases ih top with h | ⟨e, he, h⟩
      · exact .inl h
      · exact .inr ⟨e, List.mem_cons_of_mem _ he, h⟩

theorem topDeliverSeq_cases (s : RtRcvState) (clock : ℕ → ℤ) :
    topDeliverSeq s clock = s.appCumSeq ∨
      ∃ ts, (ts, topDeliverSeq s clock) ∈ s.timetable.entries := by
  rcases mem_of_foldl_max (popExpired s clock).1 s.appCumSeq with h | ⟨e, he, h⟩
  · exact .inl h
  · refine .inr ⟨e.1, ?_⟩
    rw [topDeliverSeq, h]
    exact OrdMap.mem_of_mem_popped he

theorem popDue_eq (s : RtRcvState) (top : ℕ) :
    (popDue s top).1 = s.window.entries.filter (fun e => e.1 ≤ top) ∧
      (popDue s top).2.entries = s.window.entries.filter (fun e => !(decide (e.1 ≤ top))) := by
  refine OrdMap.popWhile_key (p := fun k => decide (k ≤ top)) ?_ s.window
  intro a b hab hb
  simp only [decide_eq_true_eq] at hb ⊢
  exact hab.le.trans hb

theorem mem_popDue {e : ℕ × NetPkt} :
    e ∈ (popDue s top).1 ↔ e ∈ s.window.entries ∧ e.1 ≤ top := by
  rw [(popDue_eq s top).1, List.mem_filter, decide_eq_true_eq]

theorem find?_popDue : (popDue s top).2.find? k = some p ↔ s.window.find? k = some p ∧ top < k := by
  rw [OrdMap.find?_iff, OrdMap.find?_iff, (popDue_eq s top).2, List.mem_filter]
  simp

theorem mem_keys_popDue : k ∈ (popDue s top).2.keys ↔ k ∈ s.window.keys ∧ top < k := by
  simp only [OrdMap.mem_keys, find?_popDue, exists_and_right]

-- ---------------------------------------------------------------------------
-- A pass
-- ---------------------------------------------------------------------------

theorem rtRcvStep_cases {motive : RtRcvState × List RtRcvEffect → Prop} {e : RtRcvEvent}
    (idle : motive (s, []))
    (blocked : ∀ pkt clock, e = .recv pkt clock → pkt.seq = blockedSeq →
      motive ({ s with totalPkts := s.totalPkts + 1, exited := true }, []))
    (first : ∀ pkt clock, e = .recv pkt clock → s.cumSeq = 0 → s.delta = 0xffff →
      motive ({ s with
        totalPkts := s.totalPkts + 1
        delta := toInt (toMS (clock 1 - pkt.senderTS))
        cumSeq := 1 }, []))
    (later : ∀ pkt clock, e = .recv pkt clock → s.exited = false → pkt.seq ≠ blockedSeq →
      ¬ (s.cumSeq = 0 ∧ s.delta = 0xffff) →
      let r := phaseII { s with totalPkts := s.totalPkts + 1 } pkt (toMS (clock 0 - pkt.senderTS))
      motive ((deliver r.1 clock).1, r.2 ++ (deliver r.1 clock).2))
    (timeout : ∀ clock, e = .timeout clock →
      motive ((deliver s clock).1, sendNacks s ++ (deliver s clock).2)) :
    motive (rtRcvStep s e) := by
  cases hx : s.exited with
  | true =>
    unfold rtRcvStep
    rw [if_pos hx]
    exact idle
  | false =>
    unfold rtRcvStep
    rw [if_neg (by simp [hx])]
    cases e with
    | recv pkt clock =>
      simp only [rtRcvRecv]
      split_ifs with hb h1
      · exact blocked pkt clock rfl hb
      · exact first pkt clock rfl h1.1 h1.2
      · exact later pkt clock rfl hx hb h1
    | failed => exact idle
    | timeout clock => exact timeout clock rfl

theorem rtRcvStep_phaseII (hx : s.exited = false) (hb : pkt.seq ≠ blockedSeq)
    (hphase : ¬ (s.cumSeq = 0 ∧ s.delta = 0xffff)) (clock : ℕ → ℤ) :
    rtRcvStep s (.recv pkt clock) =
      let r := phaseII { s with totalPkts := s.totalPkts + 1 } pkt (toMS (clock 0 - pkt.senderTS))
      ((deliver r.1 clock).1, r.2 ++ (deliver r.1 clock).2) := by
  unfold rtRcvStep
  rw [if_neg (by simp [hx])]
  simp only [rtRcvRecv]
  rw [if_neg hb, if_neg hphase]

theorem rtRcvStep_intRange (h : IntRange s.delta) (e : RtRcvEvent) :
    IntRange (rtRcvStep s e).1.delta := by
  refine rtRcvStep_cases (motive := fun r => IntRange r.1.delta) ?_ ?_ ?_ ?_ ?_
  · exact h
  · exact fun _ _ _ _ => h
  · exact fun _ _ _ _ _ => toInt_range _
  · intro pkt clock _ _ _ _ r
    rw [deliver_delta, phaseII_delta]
    exact h
  · exact fun _ _ => h

/-- Everything the receiver holds satisfies `Q`, each packet under its own
number, and before the first packet it holds nothing. -/
structure Stocked (Q : NetPkt → Prop) (s : RtRcvState) : Prop where
  window : ∀ k p, s.window.find? k = some p → p.seq = k ∧ Q p
  timetable : ∀ ts k, (ts, k) ∈ s.timetable.entries → ∃ p, p.seq = k ∧ Q p
  phaseI : s.cumSeq = 0 → s.delta = 0xffff ∧ s.window = .empty
  appCumSeq : s.appCumSeq = 0

variable {Q : NetPkt → Prop}

theorem stocked_init : Stocked Q .init where
  window := fun k p h => by simp [RtRcvState.init] at h
  timetable := fun ts k h => by simp [RtRcvState.init, OrdMap.empty] at h
  phaseI := fun _ => ⟨rfl, rfl⟩
  appCumSeq := rfl

theorem Stocked.mono {Q' : NetPkt → Prop} (h : Stocked Q s) (hq : ∀ p, Q p → Q' p) :
    Stocked Q' s where
  window := fun k p hp => (h.window k p hp).imp_right (hq p)
  timetable := fun ts k hk => by
    obtain ⟨p, hp, hQ⟩ := h.timetable ts k hk
    exact ⟨p, hp, hq p hQ⟩
  phaseI := h.phaseI
  appCumSeq := h.appCumSeq

def Moves (Q : NetPkt → Prop) (c c' : ℕ) : Prop :=
  c' = c ∨ (c = 0 ∧ c' = 1) ∨ (1 ≤ c ∧ c < c' ∧ ∃ p, p.seq + 1 = c' ∧ Q p)

theorem Moves.le {c c' : ℕ} (h : Moves Q c c') : c ≤ c' := by
  rcases h with rfl | ⟨rfl, -⟩ | ⟨-, hlt, -⟩
  · exact le_rfl
  · exact Nat.zero_le _
  · exact hlt.le

theorem Moves.trans {c c' c'' : ℕ} (h : Moves Q c c') (h' : Moves Q c' c'') (hc : 1 ≤ c) :
    Moves Q c c'' := by
  have hle := h.le
  rcases h' with rfl | ⟨h0, -⟩ | ⟨-, hlt, hp⟩
  · exact h
  · exact absurd (hc.trans hle) (by omega)
  · exact .inr (.inr ⟨hc, hle.trans_lt hlt, hp⟩)

theorem Stocked.deliver (h : Stocked Q s) (clock : ℕ → ℤ) :
    Stocked Q (deliver s clock).1 ∧ Moves Q s.cumSeq (deliver s clock).1.cumSeq ∧
      (∀ q, .sendto q ∉ (deliver s clock).2) ∧ ∀ p, .deliver p ∈ (deliver s clock).2 → Q p := by
  obtain ⟨top, htop⟩ : ∃ top, topDeliverSeq s clock = top := ⟨_, rfl⟩
  have hcases := topDeliverSeq_cases s clock
  rw [htop, h.appCumSeq] at hcases
  have hcum : (Proj2.deliver s clock).1.cumSeq =
      if s.cumSeq > 0 ∧ top ≥ s.cumSeq then top + 1 else s.cumSeq := by
    rw [← htop]
    rfl
  refine ⟨⟨?_, ?_, ?_, h.appCumSeq⟩, ?_, ?_, ?_⟩
  · intro k p hp
    exact h.window k p (find?_popDue.mp hp).1
  · intro ts k hk
    exact h.timetable ts k (OrdMap.mem_of_mem_rest hk)
  · intro h0
    rw [hcum] at h0
    have hs : s.cumSeq = 0 := by
      split_ifs at h0
      exact h0
    obtain ⟨hd, hw⟩ := h.phaseI hs
    refine ⟨hd, ?_⟩
    show (popDue s _).2 = _
    rw [popDue, hw]
    rfl
  · rw [hcum]
    split_ifs with hmove
    · rcases hcases with h0 | ⟨ts, hts⟩
      · omega
      · obtain ⟨p, hp, hQ⟩ := h.timetable ts top hts
        exact .inr (.inr ⟨hmove.1, by omega, p, by omega, hQ⟩)
    · exact .inl rfl
  · intro q hq
    obtain ⟨e, -, he⟩ := List.mem_map.mp hq
    cases he
  · intro p hp
    obtain ⟨e, he, heq⟩ := List.mem_map.mp hp
    obtain rfl := RtRcvEffect.deliver.inj heq
    exact (h.window e.1 e.2 (OrdMap.find?_iff.mpr (mem_popDue.mp he).1)).2

theorem Stocked.cachePkt (h : Stocked Q s) (hc : 1 ≤ s.cumSeq) (hq : Q pkt) (oneDelay : ℚ) :
    Stocked Q (cachePkt s pkt oneDelay) where
  window := by
    intro k p hp
    simp only [Proj2.cachePkt, OrdMap.find?_insert] at hp
    split_ifs at hp with hk
    · obtain rfl := Option.some.inj hp
      exact ⟨hk.symm, hq⟩
    · exact h.window k p hp
  timetable := by
    intro ts k hk
    rcases OrdMap.mem_insertEntry hk with heq | hk
    · obtain ⟨-, rfl⟩ := Prod.ext_iff.mp heq
      exact ⟨pkt, rfl, hq⟩
    · exact h.timetable ts k hk
  phaseI := fun h0 => absurd (show s.cumSeq = 0 from h0) (by omega)
  appCumSeq := h.appCumSeq

/-- The acknowledged number is that of the packet just received or of one in the
window, and `cum_seq` ends right behind it. -/
theorem Stocked.sequential (h : Stocked Q s) (hseq : pkt.seq = s.cumSeq)
    (hq : Q pkt) : ∃ q : AckPkt, (sequential s).2 = [.sendto q] ∧ q.isNack = false ∧
      s.cumSeq ≤ q.seq ∧ q.seq + 1 = (sequential s).1.cumSeq ∧ (∃ p, p.seq = q.seq ∧ Q p) ∧
      Stocked Q (sequential s).1 := by
  obtain ⟨c, heq, hlt, hkeys, -⟩ := sequential_spec s
  rw [heq]
  refine ⟨⟨c - 1, false⟩, rfl, rfl, Nat.le_sub_one_of_lt hlt, by simp only; omega, ?_, h.window,
    h.timetable, fun h0 => ?_, h.appCumSeq⟩
  · rcases (Nat.le_sub_one_of_lt hlt).lt_or_eq with hl | he
    · obtain ⟨p, hp⟩ := OrdMap.mem_keys.mp (hkeys (c - 1) hl (by omega))
      exact ⟨p, h.window _ p hp⟩
    · exact ⟨pkt, hseq.trans he, hq⟩
  · exact absurd (show c = 0 from h0) (by omega)

theorem Stocked.phaseII (h : Stocked Q s) (hc : 1 ≤ s.cumSeq) (hq : Q pkt) (oneDelay : ℚ) :
    Stocked Q (phaseII s pkt oneDelay).1 ∧ Moves Q s.cumSeq (phaseII s pkt oneDelay).1.cumSeq ∧
      (∀ q, .sendto q ∈ (phaseII s pkt oneDelay).2 → q.isNack = false ∧
        1 ≤ q.seq ∧ q.seq < (phaseII s pkt oneDelay).1.cumSeq ∧ ∃ p, p.seq = q.seq ∧ Q p) ∧
      ∀ p, .deliver p ∉ (phaseII s pkt oneDelay).2 := by
  by_cases hseq : pkt.seq = s.cumSeq
  · obtain ⟨q, hout, hack, hle, hmove, ⟨p, hp, hQ⟩, hs⟩ := h.sequential hseq hq
    have heq : Proj2.phaseII s pkt oneDelay =
        (Proj2.cachePkt (Proj2.sequential s).1 pkt oneDelay, [.sendto q]) := by
      rw [phaseII_sequential hseq, hout]
    have hcum : (Proj2.cachePkt (Proj2.sequential s).1 pkt oneDelay).cumSeq = q.seq + 1 :=
      hmove.symm
    rw [heq]
    dsimp only
    rw [hcum]
    refine ⟨hs.cachePkt (by omega) hq oneDelay, .inr (.inr ⟨hc, by omega, p, by omega, hQ⟩), ?_, ?_⟩
    · intro q' hq'
      obtain rfl := RtRcvEffect.sendto.inj (List.mem_singleton.mp hq')
      exact ⟨hack, by omega, by omega, p, hp, hQ⟩
    · intro p' hp'
      exact nomatch List.mem_singleton.mp hp'
  · rw [phaseII_other hseq]
    exact ⟨h.cachePkt hc hq oneDelay, .inl rfl, fun q hq' => absurd hq' List.not_mem_nil,
      fun p hp => absurd hp List.not_mem_nil⟩

def Welcome (Q : NetPkt → Prop) (s : RtRcvState) (e : RtRcvEvent) : Prop :=
  ∀ pkt clock, e = .recv pkt clock →
    s.exited = true ∨ pkt.seq = blockedSeq ∨ s.cumSeq = 0 ∨ Q pkt

theorem Stocked.one_le_cumSeq (h : Stocked Q s) (hphase : ¬ (s.cumSeq = 0 ∧ s.delta = 0xffff)) :
    1 ≤ s.cumSeq :=
  Nat.one_le_iff_ne_zero.mpr fun h0 => hphase ⟨h0, (h.phaseI h0).1⟩

theorem Welcome.phaseII {Q' : NetPkt → Prop} (he : Welcome Q' s (.recv pkt clock))
    (h : Stocked Q s) (hx : s.exited = false) (hb : pkt.seq ≠ blockedSeq)
    (hphase : ¬ (s.cumSeq = 0 ∧ s.delta = 0xffff)) : Q' pkt := by
  rcases he pkt clock rfl with hx' | hb' | h0 | hQ
  · simp [hx] at hx'
  · exact absurd hb' hb
  · exact absurd ⟨h0, (h.phaseI h0).1⟩ hphase
  · exact hQ

theorem Stocked.received (h : Stocked Q s) : Stocked Q { s with totalPkts := s.totalPkts + 1 } :=
  ⟨h.window, h.timetable, h.phaseI, h.appCumSeq⟩

theorem deliver_notMem_sendNacks (s : RtRcvState) (p : NetPkt) : .deliver p ∉ sendNacks s := by
  intro hp
  obtain ⟨i, -, hi⟩ := List.mem_map.mp hp
  cases hi

/-- What a pass does to a receiver that holds packets with `Q`: it goes on to hold
such packets, delivers only them, and acknowledges only their numbers. -/
theorem Stocked.step (h : Stocked Q s) {e : RtRcvEvent} (he : Welcome Q s e) :
    Stocked Q (rtRcvStep s e).1 ∧ Moves Q s.cumSeq (rtRcvStep s e).1.cumSeq ∧
      (∀ q, .sendto q ∈ (rtRcvStep s e).2 → q.isNack = false →
        1 ≤ q.seq ∧ q.seq < (rtRcvStep s e).1.cumSeq ∧ ∃ p, p.seq = q.seq ∧ Q p) ∧
      ∀ p, .deliver p ∈ (rtRcvStep s e).2 → Q p := by
  refine rtRcvStep_cases (motive := fun r => Stocked Q r.1 ∧ Moves Q s.cumSeq r.1.cumSeq ∧
    (∀ q, .sendto q ∈ r.2 → q.isNack = false →
      1 ≤ q.seq ∧ q.seq < r.1.cumSeq ∧ ∃ p, p.seq = q.seq ∧ Q p) ∧
    ∀ p, .deliver p ∈ r.2 → Q p) ?_ ?_ ?_ ?_ ?_
  · exact ⟨h, .inl rfl, fun q hq => absurd hq List.not_mem_nil,
      fun p hp => absurd hp List.not_mem_nil⟩
  · intro pkt clock _ _
    exact ⟨⟨h.window, h.timetable, h.phaseI, h.appCumSeq⟩, .inl rfl,
      fun q hq => absurd hq List.not_mem_nil, fun p hp => absurd hp List.not_mem_nil⟩
  · intro pkt clock _ h0 _
    exact ⟨⟨h.window, h.timetable, fun h1 => absurd h1 one_ne_zero, h.appCumSeq⟩,
      .inr (.inl ⟨h0, rfl⟩), fun q hq => absurd hq List.not_mem_nil,
      fun p hp => absurd hp List.not_mem_nil⟩
  · rintro pkt clock rfl hx hb hphase
    have hc := h.one_le_cumSeq hphase
    have hQ := he.phaseII h hx hb hphase
    obtain ⟨h1, hm1, hacks, hnone⟩ := h.received.phaseII hc hQ (toMS (clock 0 - pkt.senderTS))
    obtain ⟨h2, hm2, hnoack, hdel⟩ := h1.deliver clock
    refine ⟨h2, hm1.trans hm2 hc, fun q hq _ => ?_, fun p hp => ?_⟩
    · rcases List.mem_append.mp hq with hq | hq
      · obtain ⟨-, hpos, hlt, hp⟩ := hacks q hq
        exact ⟨hpos, hlt.trans_le hm2.le, hp⟩
      · exact absurd hq (hnoack q)
    · rcases List.mem_append.mp hp with hp | hp
      · exact absurd hp (hnone p)
      · exact hdel p hp
  · intro clock _
    obtain ⟨h2, hm2, hnoack, hdel⟩ := h.deliver clock
    refine ⟨h2, hm2, fun q hq hn => ?_, fun p hp => ?_⟩
    · rcases List.mem_append.mp hq with hq | hq
      · obtain ⟨i, -, hi⟩ := List.mem_map.mp hq
        obtain rfl := RtRcvEffect.sendto.inj hi
        simp at hn
      · exact absurd hq (hnoack q)
    · rcases List.mem_append.mp hp with hp | hp
      · exact absurd hp (deliver_notMem_sendNacks s p)
      · exact hdel p hp

end Wan.Proj2
