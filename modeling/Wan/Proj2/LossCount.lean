import Wan.Proj2.Delivery
import Mathlib.Order.Interval.Finset.Nat

/-!
# The packets counted as lost

An arrival adds its distance to `cum_seq`, itself included, to `lost_pkts`, and nothing
is ever taken away. The packets that are missing grow by less than that at every gap,
and shrink when a gap is filled. So the tally is right as long as every packet is at
most one ahead of the highest so far, and never again after the first gap.
-/

namespace Wan.Proj2

open Posix Lib

variable {s : RtRcvState} {e : RtRcvEvent} {pkt : NetPkt} {past : List ℕ}

def heard (s : RtRcvState) : RtRcvEvent → List ℕ
  | .recv pkt _ =>
    if s.exited = false ∧ pkt.seq ≠ blockedSeq ∧ ¬ (s.cumSeq = 0 ∧ s.delta = 0xffff) then [pkt.seq]
    else []
  | _ => []

/-- The numbers up to `maxSeq` that are not among `heard`. -/
def missing (maxSeq : ℕ) (heard : List ℕ) : Finset ℕ := {n ∈ Finset.Icc 1 maxSeq | n ∉ heard}

/-- A packet received in phase II leaves no gap behind the highest number so far. -/
def NoGap (s : RtRcvState) (e : RtRcvEvent) : Prop := ∀ q ∈ heard s e, q ≤ s.maxSeq + 1

-- ---------------------------------------------------------------------------
-- What a pass does to the tally
-- ---------------------------------------------------------------------------

theorem deliver_tally (s : RtRcvState) (clock : ℕ → ℤ) :
    (deliver s clock).1.lostPkts = s.lostPkts ∧ (deliver s clock).1.maxSeq = s.maxSeq ∧
      s.cumSeq ≤ (deliver s clock).1.cumSeq := by
  refine ⟨rfl, rfl, ?_⟩
  unfold deliver
  dsimp only
  split_ifs with hjump
  · exact hjump.2.trans (Nat.le_succ _)
  · exact le_rfl

theorem phaseII_tally (s : RtRcvState) (pkt : NetPkt) (oneDelay : ℚ) : ∃ c,
    (phaseII s pkt oneDelay).1.cumSeq = c ∧
      (phaseII s pkt oneDelay).1.lostPkts = s.lostPkts + (pkt.seq + 1 - c) ∧
      (phaseII s pkt oneDelay).1.maxSeq = max s.maxSeq pkt.seq ∧
      (pkt.seq ≠ s.cumSeq → c = s.cumSeq) ∧ (pkt.seq = s.cumSeq → s.cumSeq < c) := by
  have hlost (r : RtRcvState) : (cachePkt r pkt oneDelay).lostPkts =
      r.lostPkts + (pkt.seq + 1 - r.cumSeq) := by
    unfold cachePkt
    dsimp only
    split_ifs <;> omega
  have hmax (r : RtRcvState) : (cachePkt r pkt oneDelay).maxSeq = max r.maxSeq pkt.seq := by
    unfold cachePkt
    dsimp only
    split_ifs <;> omega
  by_cases hseq : pkt.seq = s.cumSeq
  · obtain ⟨c, heq, hlt, -⟩ := sequential_spec s
    rw [phaseII_sequential hseq, heq]
    exact ⟨c, rfl, hlost _, hmax _, fun h => absurd hseq h, fun _ => hlt⟩
  · rw [phaseII_other hseq]
    exact ⟨s.cumSeq, rfl, hlost _, hmax _, fun _ => rfl, fun h => absurd h hseq⟩

theorem rtRcvStep_tally (s : RtRcvState) (e : RtRcvEvent) :
    (heard s e = [] ∧ (rtRcvStep s e).1.lostPkts = s.lostPkts ∧
        (rtRcvStep s e).1.maxSeq = s.maxSeq) ∨
      ∃ q c, heard s e = [q] ∧ ¬ (s.cumSeq = 0 ∧ s.delta = 0xffff) ∧
        (rtRcvStep s e).1.lostPkts = s.lostPkts + (q + 1 - c) ∧
        (rtRcvStep s e).1.maxSeq = max s.maxSeq q ∧ c ≤ (rtRcvStep s e).1.cumSeq ∧
        (q ≠ s.cumSeq → c = s.cumSeq) ∧ (q = s.cumSeq → s.cumSeq < c) := by
  cases e with
  | recv pkt clock =>
    by_cases hin : s.exited = false ∧ pkt.seq ≠ blockedSeq ∧ ¬ (s.cumSeq = 0 ∧ s.delta = 0xffff)
    · obtain ⟨hx, hb, hphase⟩ := hin
      obtain ⟨c, hcum, hlost, hmax, hother, hscan⟩ := phaseII_tally
        { s with totalPkts := s.totalPkts + 1 } pkt (toMS (clock 0 - pkt.senderTS))
      obtain ⟨hlost', hmax', hle⟩ := deliver_tally (phaseII
        { s with totalPkts := s.totalPkts + 1 } pkt (toMS (clock 0 - pkt.senderTS))).1 clock
      rw [rtRcvStep_phaseII hx hb hphase]
      exact .inr ⟨pkt.seq, c, if_pos ⟨hx, hb, hphase⟩, hphase, hlost'.trans hlost,
        hmax'.trans hmax, hcum ▸ hle, hother, hscan⟩
    · refine .inl ⟨if_neg hin, ?_⟩
      refine rtRcvStep_cases (motive := fun r => r.1.lostPkts = s.lostPkts ∧ r.1.maxSeq = s.maxSeq)
        ?_ ?_ ?_ ?_ ?_
      · exact ⟨rfl, rfl⟩
      · exact fun _ _ _ _ => ⟨rfl, rfl⟩
      · exact fun _ _ _ _ _ => ⟨rfl, rfl⟩
      · rintro pkt' clock' ⟨⟩ hx hb hphase
        exact absurd ⟨hx, hb, hphase⟩ hin
      · rintro clock' ⟨⟩
  | failed =>
    refine .inl ⟨rfl, ?_⟩
    unfold rtRcvStep
    split_ifs <;> exact ⟨rfl, rfl⟩
  | timeout clock =>
    obtain ⟨hlost, hmax, -⟩ := deliver_tally s clock
    refine .inl ⟨rfl, ?_⟩
    unfold rtRcvStep
    split_ifs
    · exact ⟨rfl, rfl⟩
    · exact ⟨hlost, hmax⟩

-- ---------------------------------------------------------------------------
-- The tally against what is missing
-- ---------------------------------------------------------------------------

structure Reached (s : RtRcvState) : Prop where
  stock : Stocked (fun p => p.seq ≤ s.maxSeq) s
  cum : s.cumSeq ≤ s.maxSeq + 1

theorem maxSeq_le (s : RtRcvState) (e : RtRcvEvent) : s.maxSeq ≤ (rtRcvStep s e).1.maxSeq := by
  rcases rtRcvStep_tally s e with ⟨-, -, hmax⟩ | ⟨q, c, -, -, -, hmax, -⟩
  · exact hmax.ge
  · exact (le_max_left _ _).trans hmax.ge

theorem welcome_maxSeq (s : RtRcvState) (e : RtRcvEvent) :
    Welcome (fun p => p.seq ≤ (rtRcvStep s e).1.maxSeq) s e := by
  rintro pkt clock rfl
  by_cases hin : s.exited = false ∧ pkt.seq ≠ blockedSeq ∧ ¬ (s.cumSeq = 0 ∧ s.delta = 0xffff)
  · have hpkt : heard s (.recv pkt clock) = [pkt.seq] := if_pos hin
    rcases rtRcvStep_tally s (.recv pkt clock) with ⟨hnone, -⟩ | ⟨q, c, hq, -, -, hmax, -⟩
    · simp [hpkt] at hnone
    · obtain rfl : pkt.seq = q := by simpa [hpkt] using hq
      exact .inr (.inr (.inr ((le_max_right _ _).trans hmax.ge)))
  · cases hx : s.exited with
    | true => exact .inl rfl
    | false =>
      by_cases hb : pkt.seq = blockedSeq
      · exact .inr (.inl hb)
      · have hphase : s.cumSeq = 0 ∧ s.delta = 0xffff := by
          by_contra hno
          exact hin ⟨hx, hb, hno⟩
        exact .inr (.inr (.inl hphase.1))

theorem Reached.step (h : Reached s) (e : RtRcvEvent) :
    Reached (rtRcvStep s e).1 ∧ s.cumSeq ≤ (rtRcvStep s e).1.cumSeq := by
  have hmono := maxSeq_le s e
  have hcum := h.cum
  obtain ⟨hstock, hmoves, -⟩ := (h.stock.mono fun p hp => hp.trans hmono).step (welcome_maxSeq s e)
  refine ⟨⟨hstock, ?_⟩, hmoves.le⟩
  rcases hmoves with hc | ⟨-, hc⟩ | ⟨-, -, p, hp, hle⟩
  · omega
  · omega
  · omega

theorem card_missing_le (m q : ℕ) (past : List ℕ) :
    (missing (max m q) (past ++ [q])).card ≤ (missing m past).card + (q - m - 1) := by
  have hsub : missing (max m q) (past ++ [q]) ⊆ missing m past ∪ Finset.Ioo m q := by
    intro n hn
    simp only [missing, Finset.mem_filter, Finset.mem_Icc, Finset.mem_union, Finset.mem_Ioo,
      List.mem_append, List.mem_singleton, not_or] at hn ⊢
    obtain ⟨⟨h1, hle⟩, hpast, hne⟩ := hn
    by_cases hm : n ≤ m
    · exact .inl ⟨⟨h1, hm⟩, hpast⟩
    · exact .inr (by omega)
  calc (missing (max m q) (past ++ [q])).card
      ≤ (missing m past ∪ Finset.Ioo m q).card := Finset.card_le_card hsub
    _ ≤ (missing m past).card + (Finset.Ioo m q).card := Finset.card_union_le _ _
    _ = (missing m past).card + (q - m - 1) := by rw [Nat.card_Ioo]

/-- The tally grows at least as much as what is missing, and more at a gap. -/
theorem Reached.tally (h : Reached s) (e : RtRcvEvent) (past : List ℕ) :
    let s' := (rtRcvStep s e).1
    (missing s'.maxSeq (past ++ heard s e)).card + s.lostPkts ≤
        (missing s.maxSeq past).card + s'.lostPkts ∧
      (¬ NoGap s e → (missing s'.maxSeq (past ++ heard s e)).card + s.lostPkts <
        (missing s.maxSeq past).card + s'.lostPkts) := by
  intro s'
  have hcum := h.cum
  rcases rtRcvStep_tally s e with ⟨hnone, hlost, hmax⟩ | ⟨q, c, hq, -, hlost, hmax, -, hother, -⟩
  · have hgap : NoGap s e := by simp [NoGap, hnone]
    rw [hnone, List.append_nil, hlost, hmax]
    exact ⟨le_rfl, fun hno => absurd hgap hno⟩
  · have hcard := card_missing_le s.maxSeq q past
    rw [hq, hlost, hmax]
    refine ⟨?_, fun hgap => ?_⟩
    · by_cases hseq : q = s.cumSeq
      · omega
      · have := hother hseq
        omega
    · have hfar : s.maxSeq + 1 < q := by simpa [NoGap, hq] using hgap
      have := hother (by omega)
      omega

structure NoneMissing (s : RtRcvState) (past : List ℕ) : Prop where
  reached : Reached s
  lost : s.lostPkts = 0
  cum : s.cumSeq = s.maxSeq + 1 ∨ (s.cumSeq = 0 ∧ s.maxSeq = 0)
  all : ∀ n, 1 ≤ n → n ≤ s.maxSeq → n ∈ past

theorem noneMissing_init : NoneMissing .init [] where
  reached := ⟨stocked_init, Nat.zero_le _⟩
  lost := rfl
  cum := .inr ⟨rfl, rfl⟩
  all := fun _ h1 h0 => absurd (h1.trans h0) (Nat.not_succ_le_zero 0)

theorem NoneMissing.card_eq (h : NoneMissing s past) : (missing s.maxSeq past).card = 0 := by
  refine Finset.card_eq_zero.mpr (Finset.filter_eq_empty_iff.mpr fun n hn => ?_)
  obtain ⟨h1, hle⟩ := Finset.mem_Icc.mp hn
  exact not_not.mpr (h.all n h1 hle)

theorem NoneMissing.step (h : NoneMissing s past) (he : NoGap s e) :
    NoneMissing (rtRcvStep s e).1 (past ++ heard s e) := by
  obtain ⟨hreached, hmono⟩ := h.reached.step e
  have hle := hreached.cum
  have hlost := h.lost
  have hcum := h.cum
  rcases rtRcvStep_tally s e with
    ⟨hnone, hlost', hmax⟩ | ⟨q, c, hq, hphase, hlost', hmax, hc, hother, hscan⟩
  · refine ⟨hreached, hlost'.trans hlost, by omega, fun n h1 hn => ?_⟩
    rw [hnone, List.append_nil]
    exact h.all n h1 (hmax ▸ hn)
  · have hq1 : q ≤ s.maxSeq + 1 := by simpa [NoGap, hq] using he
    have hpos := h.reached.stock.one_le_cumSeq hphase
    -- the scan, or the old `cum_seq`, is past the packet
    have hpast : q + 1 ≤ c := by
      by_cases hseq : q = s.cumSeq
      · have := hscan hseq
        omega
      · have := hother hseq
        omega
    refine ⟨hreached, by omega, by omega, fun n h1 hn => ?_⟩
    rw [hq, List.mem_append, List.mem_singleton]
    by_cases hm : n ≤ s.maxSeq
    · exact .inl (h.all n h1 hm)
    · exact .inr (by omega)

-- ---------------------------------------------------------------------------
-- Whole runs
-- ---------------------------------------------------------------------------

def heardIn (es : List RtRcvEvent) : List ℕ := gather (next rtRcvStep) heard .init es

theorem heardIn_concat (es : List RtRcvEvent) (e : RtRcvEvent) :
    heardIn (es ++ [e]) = heardIn es ++ heard (es.foldl (next rtRcvStep) .init) e :=
  gather_concat

theorem missing_le_lost (es : List RtRcvEvent) :
    let s := es.foldl (next rtRcvStep) .init
    Reached s ∧ (missing s.maxSeq (heardIn es)).card ≤ s.lostPkts := by
  induction es using List.reverseRecOn with
  | nil => exact ⟨noneMissing_init.reached, le_rfl⟩
  | append_singleton es e ih =>
    obtain ⟨hreached, hle⟩ := ih
    obtain ⟨hgrow, -⟩ := hreached.tally e (heardIn es)
    rw [List.foldl_concat, heardIn_concat]
    refine ⟨(hreached.step e).1, ?_⟩
    show (missing (rtRcvStep _ e).1.maxSeq _).card ≤ (rtRcvStep _ e).1.lostPkts
    omega

theorem noneMissing_of_along {es : List RtRcvEvent}
    (h : Along (next rtRcvStep) NoGap .init es) :
    NoneMissing (es.foldl (next rtRcvStep) .init) (heardIn es) := by
  induction es using List.reverseRecOn with
  | nil => exact noneMissing_init
  | append_singleton es e ih =>
    obtain ⟨hes, he⟩ := along_concat.mp h
    rw [List.foldl_concat, heardIn_concat]
    exact (ih hes).step he

/-- After any run, `lost_pkts` is the number of packets up to `max_seq` that were not
received exactly when no packet ever came more than one ahead of the highest so far. -/
theorem lost_pkts_iff (es : List RtRcvEvent) :
    let s := es.foldl (next rtRcvStep) .init
    s.lostPkts = (missing s.maxSeq (heardIn es)).card ↔
      Along (next rtRcvStep) NoGap .init es := by
  refine holds_iff_along (R := fun es => (es.foldl (next rtRcvStep) .init).lostPkts =
    (missing (es.foldl (next rtRcvStep) .init).maxSeq (heardIn es)).card) rfl ?_ ?_ es
  · intro past e halong heq
    have hnone := noneMissing_of_along halong
    obtain ⟨-, hgap⟩ := hnone.reached.tally e (heardIn past)
    rw [List.foldl_concat, heardIn_concat]
    constructor
    · intro heq'
      by_contra hno
      have hlt := hgap hno
      replace heq' : (rtRcvStep _ e).1.lostPkts = (missing (rtRcvStep _ e).1.maxSeq _).card := heq'
      omega
    · intro he
      have hnone' := hnone.step he
      exact hnone'.lost.trans hnone'.card_eq.symm
  · intro past e heq
    obtain ⟨hreached, hle⟩ := missing_le_lost past
    obtain ⟨hgrow, -⟩ := hreached.tally e (heardIn past)
    rw [List.foldl_concat, heardIn_concat] at heq
    replace heq : (rtRcvStep _ e).1.lostPkts = (missing (rtRcvStep _ e).1.maxSeq _).card := heq
    omega

/-- Packet 2 is overtaken by three others. When all five are there nothing is missing,
and nine are counted as lost. -/
theorem lost_pkts_overcounted :
    let pkt (k : ℕ) : NetPkt := { zeroPkt with seq := k }
    let es : List RtRcvEvent := [0, 1, 3, 4, 5, 2].map fun k => .recv (pkt k) fun _ => 0
    let s := es.foldl (next rtRcvStep) .init
    s.lostPkts = 9 ∧ s.maxSeq = 5 ∧ heardIn es = [1, 3, 4, 5, 2] ∧
      missing s.maxSeq (heardIn es) = ∅ := by
  decide +kernel

end Wan.Proj2
