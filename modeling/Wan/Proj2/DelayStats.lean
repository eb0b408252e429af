import Wan.Proj2.Delivery
import Mathlib.Tactic.FieldSimp
import Mathlib.Algebra.Order.BigOperators.Group.List

/-!
# The delay statistics

`total_pkts`, by which the running mean divides, also counts the packet that was used
up for `delta`, and the mean starts at 0: after `n` delays the report is their sum over
`n + 1`. It is right exactly when that sum is 0, so all along a run only if every delay
is 0.
-/

namespace Wan.Proj2

open Posix Lib

variable {s : RtRcvState} {e : RtRcvEvent} {pkt : NetPkt} {ds : List ℚ}

def delayOf (s : RtRcvState) : RtRcvEvent → List ℚ
  | .recv pkt clock =>
    if s.exited = false ∧ pkt.seq ≠ blockedSeq ∧ ¬ (s.cumSeq = 0 ∧ s.delta = 0xffff) then
      [(toMS (clock 0 - pkt.senderTS) : ℚ)]
    else []
  | _ => []

def mean (ds : List ℚ) : ℚ := ds.sum / ds.length

/-- What the report should say of the delays `ds`. -/
structure Reported (ds : List ℚ) (s : RtRcvState) : Prop where
  avg : s.avgDelay = mean ds
  min_le : s.minDelay ≤ s.avgDelay
  le_max : s.avgDelay ≤ s.maxDelay

-- ---------------------------------------------------------------------------
-- Means
-- ---------------------------------------------------------------------------

theorem mean_le {b : ℚ} (hne : ds ≠ []) (h : ∀ d ∈ ds, d ≤ b) : mean ds ≤ b := by
  have hlen : (0 : ℚ) < ds.length := by exact_mod_cast List.length_pos_iff.mpr hne
  have hsum := List.sum_le_card_nsmul ds b h
  rw [nsmul_eq_mul, mul_comm] at hsum
  exact (div_le_iff₀ hlen).mpr hsum

theorem le_mean {a : ℚ} (hne : ds ≠ []) (h : ∀ d ∈ ds, a ≤ d) : a ≤ mean ds := by
  have hlen : (0 : ℚ) < ds.length := by exact_mod_cast List.length_pos_iff.mpr hne
  have hsum := List.card_nsmul_le_sum ds a h
  rw [nsmul_eq_mul, mul_comm] at hsum
  exact (le_div_iff₀ hlen).mpr hsum

/-- One count too many only goes unnoticed when there is nothing to divide. -/
theorem div_succ_eq_mean (hne : ds ≠ []) : ds.sum / (ds.length + 1) = mean ds ↔ ds.sum = 0 := by
  have hlen : (0 : ℚ) < ds.length := by exact_mod_cast List.length_pos_iff.mpr hne
  rw [mean, div_eq_div_iff (by positivity) hlen.ne', mul_add, mul_one]
  exact ⟨fun h => by linarith, fun h => by rw [h]; ring⟩

theorem running_mean (sum d : ℚ) {n : ℚ} (hn : 0 < n) :
    sum / n / (n + 1) * n + d / (n + 1) = (sum + d) / (n + 1) := by
  field_simp

-- ---------------------------------------------------------------------------
-- What a pass does to the statistics
-- ---------------------------------------------------------------------------

structure SameStats (s t : RtRcvState) : Prop where
  avg : t.avgDelay = s.avgDelay
  min : t.minDelay = s.minDelay
  max : t.maxDelay = s.maxDelay
  total : t.totalPkts = s.totalPkts
  exited : t.exited = s.exited

theorem SameStats.refl (s : RtRcvState) : SameStats s s := ⟨rfl, rfl, rfl, rfl, rfl⟩

theorem SameStats.trans {t u : RtRcvState} (h : SameStats s t) (h' : SameStats t u) :
    SameStats s u where
  avg := h'.avg.trans h.avg
  min := h'.min.trans h.min
  max := h'.max.trans h.max
  total := h'.total.trans h.total
  exited := h'.exited.trans h.exited

theorem deliver_stats (s : RtRcvState) (clock : ℕ → ℤ) : SameStats s (deliver s clock).1 :=
  ⟨rfl, rfl, rfl, rfl, rfl⟩

theorem phaseII_stats (s : RtRcvState) (pkt : NetPkt) (oneDelay : ℚ) :
    SameStats (cachePkt s pkt oneDelay) (phaseII s pkt oneDelay).1 := by
  by_cases hseq : pkt.seq = s.cumSeq
  · obtain ⟨c, heq, -⟩ := sequential_spec s
    rw [phaseII_sequential hseq, heq]
    exact ⟨rfl, rfl, rfl, rfl, rfl⟩
  · rw [phaseII_other hseq]
    exact .refl _

structure Summed (ds : List ℚ) (s : RtRcvState) : Prop where
  avg : s.avgDelay = ds.sum / (ds.length + 1)
  min_le : ∀ d ∈ ds, s.minDelay ≤ d
  le_max : ∀ d ∈ ds, d ≤ s.maxDelay

theorem Summed.of_same {t : RtRcvState} (h : Summed ds s) (hst : SameStats s t) : Summed ds t where
  avg := hst.avg.trans h.avg
  min_le := fun d hd => hst.min.le.trans (h.min_le d hd)
  le_max := fun d hd => (h.le_max d hd).trans hst.max.ge

/-- `total_pkts` has been advanced for the packet already. -/
theorem Summed.cachePkt (h : Summed ds s) (htotal : s.totalPkts = ds.length + 1 + 1)
    (oneDelay : ℚ) : Summed (ds ++ [oneDelay]) (cachePkt s pkt oneDelay) where
  avg := by
    have hstep := running_mean ds.sum oneDelay (n := ds.length + 1) (by positivity)
    simp only [Proj2.cachePkt, h.avg, htotal, List.sum_append, List.sum_singleton,
      List.length_append, List.length_singleton]
    push_cast
    rw [add_sub_cancel_right, hstep]
  min_le := by
    intro d hd
    simp only [Proj2.cachePkt]
    rcases List.mem_append.mp hd with hd | hd
    · have := h.min_le d hd
      split_ifs <;> linarith
    · obtain rfl := List.mem_singleton.mp hd
      split_ifs <;> linarith
  le_max := by
    intro d hd
    simp only [Proj2.cachePkt]
    rcases List.mem_append.mp hd with hd | hd
    · have := h.le_max d hd
      split_ifs <;> linarith
    · obtain rfl := List.mem_singleton.mp hd
      split_ifs <;> linarith

/-- The statistics of a run that entered the delays `ds`. A receiver that has
not left counts them, and the packet of phase I before them. -/
structure Surveyed (ds : List ℚ) (s : RtRcvState) : Prop where
  stock : Stocked (fun _ => True) s
  summed : Summed ds s
  total : s.exited = false → s.totalPkts = ds.length + if s.cumSeq = 0 then 0 else 1

theorem surveyed_init : Surveyed [] .init where
  stock := stocked_init
  summed := ⟨by simp [RtRcvState.init], by simp, by simp⟩
  total := fun _ => rfl

theorem deliver_cumSeq (s : RtRcvState) (clock : ℕ → ℤ) :
    (deliver s clock).1.cumSeq = 0 ↔ s.cumSeq = 0 := by
  unfold deliver
  dsimp only
  split_ifs with hjump
  · exact iff_of_false id hjump.1.ne'
  · exact Iff.rfl

theorem welcome_all (s : RtRcvState) (e : RtRcvEvent) : Welcome (fun _ => True) s e :=
  fun _ _ _ => .inr (.inr (.inr trivial))

theorem Surveyed.unentered (h : Surveyed ds s) (hin : ∀ pkt clock, e = .recv pkt clock →
    ¬ (s.exited = false ∧ pkt.seq ≠ blockedSeq ∧ ¬ (s.cumSeq = 0 ∧ s.delta = 0xffff))) :
    Surveyed ds (rtRcvStep s e).1 := by
  have hsum := h.summed
  refine rtRcvStep_cases
    (motive := fun r => Stocked (fun _ => True) r.1 → Surveyed ds r.1) ?_ ?_ ?_ ?_ ?_
    (h.stock.step (welcome_all s e)).1
  · exact fun _ => h
  · intro pkt clock _ _ hstock
    exact ⟨hstock, ⟨hsum.avg, hsum.min_le, hsum.le_max⟩, fun hx => by simp at hx⟩
  · intro pkt clock _ h0 _ hstock
    refine ⟨hstock, ⟨hsum.avg, hsum.min_le, hsum.le_max⟩, fun hx => ?_⟩
    have htotal := h.total hx
    rw [if_pos h0] at htotal
    simp only [htotal]
    rfl
  · intro pkt clock he hx hb hphase
    exact absurd ⟨hx, hb, hphase⟩ (hin pkt clock he)
  · intro clock _ hstock
    have hst := deliver_stats s clock
    refine ⟨hstock, hsum.of_same hst, fun hx => ?_⟩
    rw [hst.total, h.total (hst.exited ▸ hx)]
    simp only [deliver_cumSeq]

theorem Surveyed.entered (h : Surveyed ds s) (hx : s.exited = false) (hb : pkt.seq ≠ blockedSeq)
    (hphase : ¬ (s.cumSeq = 0 ∧ s.delta = 0xffff)) (clock : ℕ → ℤ) :
    Surveyed (ds ++ [(toMS (clock 0 - pkt.senderTS) : ℚ)]) (rtRcvStep s (.recv pkt clock)).1 := by
  obtain ⟨hstock, hmoves, -⟩ := h.stock.step (welcome_all s (.recv pkt clock))
  have hpos := h.stock.one_le_cumSeq hphase
  have hpos' : (rtRcvStep s (.recv pkt clock)).1.cumSeq ≠ 0 := by
    have := hmoves.le
    omega
  have htotal : s.totalPkts + 1 = ds.length + 1 + 1 := by
    rw [h.total hx, if_neg (by omega)]
  have hcount : Summed ds { s with totalPkts := s.totalPkts + 1 } :=
    ⟨h.summed.avg, h.summed.min_le, h.summed.le_max⟩
  have hsame : SameStats
      (cachePkt { s with totalPkts := s.totalPkts + 1 } pkt (toMS (clock 0 - pkt.senderTS)))
      (rtRcvStep s (.recv pkt clock)).1 := by
    rw [rtRcvStep_phaseII hx hb hphase]
    exact (phaseII_stats _ pkt _).trans (deliver_stats _ clock)
  refine ⟨hstock, (hcount.cachePkt htotal _).of_same hsame, fun _ => ?_⟩
  rw [hsame.total, if_neg hpos', List.length_append, List.length_singleton]
  exact htotal

theorem Surveyed.step (h : Surveyed ds s) (e : RtRcvEvent) :
    Surveyed (ds ++ delayOf s e) (rtRcvStep s e).1 := by
  cases e with
  | recv pkt clock =>
    by_cases hin : s.exited = false ∧ pkt.seq ≠ blockedSeq ∧ ¬ (s.cumSeq = 0 ∧ s.delta = 0xffff)
    · rw [show delayOf s (.recv pkt clock) = [(toMS (clock 0 - pkt.senderTS) : ℚ)] from if_pos hin]
      exact h.entered hin.1 hin.2.1 hin.2.2 clock
    · rw [show delayOf s (.recv pkt clock) = [] from if_neg hin, List.append_nil]
      refine h.unentered ?_
      rintro pkt' clock' ⟨⟩
      exact hin
  | failed =>
    rw [show delayOf s .failed = [] from rfl, List.append_nil]
    refine h.unentered ?_
    rintro pkt clock ⟨⟩
  | timeout clock =>
    rw [show delayOf s (.timeout clock) = [] from rfl, List.append_nil]
    refine h.unentered ?_
    rintro pkt clock' ⟨⟩

theorem Summed.reported_iff (h : Summed ds s) (hne : ds ≠ []) : Reported ds s ↔ ds.sum = 0 := by
  constructor
  · intro hr
    rw [← div_succ_eq_mean hne, ← h.avg]
    exact hr.avg
  · intro hsum
    have havg : s.avgDelay = mean ds := h.avg.trans ((div_succ_eq_mean hne).mpr hsum)
    exact ⟨havg, havg ▸ le_mean hne h.min_le, havg ▸ mean_le hne h.le_max⟩

-- ---------------------------------------------------------------------------
-- Whole runs
-- ---------------------------------------------------------------------------

def delaysIn (es : List RtRcvEvent) : List ℚ := gather (next rtRcvStep) delayOf .init es

theorem delaysIn_concat (es : List RtRcvEvent) (e : RtRcvEvent) :
    delaysIn (es ++ [e]) = delaysIn es ++ delayOf (es.foldl (next rtRcvStep) .init) e :=
  gather_concat

theorem surveyed_run (es : List RtRcvEvent) :
    Surveyed (delaysIn es) (es.foldl (next rtRcvStep) .init) := by
  induction es using List.reverseRecOn with
  | nil => exact surveyed_init
  | append_singleton es e ih =>
    rw [List.foldl_concat, delaysIn_concat]
    exact ih.step e

theorem delayOf_eq (s : RtRcvState) (e : RtRcvEvent) :
    delayOf s e = [] ∨ ∃ d, delayOf s e = [d] := by
  cases e with
  | recv pkt clock =>
    simp only [delayOf]
    split_ifs
    · exact .inr ⟨_, rfl⟩
    · exact .inl rfl
  | failed => exact .inl rfl
  | timeout clock => exact .inl rfl

theorem reported_concat_iff {past : List RtRcvEvent}
    (hne : delayOf (past.foldl (next rtRcvStep) .init) e ≠ []) :
    Reported (delaysIn (past ++ [e])) ((past ++ [e]).foldl (next rtRcvStep) .init) ↔
      (delaysIn (past ++ [e])).sum = 0 := by
  refine (surveyed_run (past ++ [e])).summed.reported_iff ?_
  rw [delaysIn_concat]
  exact List.append_ne_nil_of_right_ne_nil _ hne

/-- After every packet that enters the statistics the report is right: this takes that
every such packet was 0 ms on the way. -/
theorem reported_iff_no_delay (es : List RtRcvEvent) :
    (∀ past e rest, es = past ++ e :: rest →
      delayOf (past.foldl (next rtRcvStep) .init) e ≠ [] →
      Reported (delaysIn (past ++ [e])) ((past ++ [e]).foldl (next rtRcvStep) .init)) ↔
      ∀ d ∈ delaysIn es, d = 0 := by
  constructor
  · intro h
    induction es using List.reverseRecOn with
    | nil =>
      intro d hd
      simp [delaysIn, gather] at hd
    | append_singleton es e ih =>
      have hzero : ∀ d ∈ delaysIn es, d = 0 := by
        refine ih fun past e' rest heq => h past e' (rest ++ [e]) ?_
        rw [heq, List.append_assoc, List.cons_append]
      rcases delayOf_eq (es.foldl (next rtRcvStep) .init) e with hnone | ⟨d, hd⟩
      · rw [delaysIn_concat, hnone, List.append_nil]
        exact hzero
      · have hne : delayOf (es.foldl (next rtRcvStep) .init) e ≠ [] := by
          rw [hd]
          exact List.cons_ne_nil d []
        -- the delays before add nothing to the sum
        have hsum := (reported_concat_iff hne).mp (h es e [] rfl hne)
        rw [delaysIn_concat, hd, List.sum_append, List.sum_eq_zero hzero, List.sum_singleton,
          zero_add] at hsum
        rw [delaysIn_concat, hd, List.forall_mem_append]
        exact ⟨hzero, List.forall_mem_singleton.mpr hsum⟩
  · rintro h past e rest rfl hne
    rw [reported_concat_iff hne]
    refine List.sum_eq_zero fun d hd => h d ?_
    rw [delaysIn, List.append_cons, gather_append]
    exact List.mem_append_left _ hd

/-- One packet sets `delta`, the next is 10 ms on the way. -/
theorem mean_halved :
    let es : List RtRcvEvent :=
      [.recv zeroPkt fun _ => 0, .recv { zeroPkt with seq := 1 } fun _ => 10000000]
    let s := es.foldl (next rtRcvStep) .init
    delaysIn es = [10] ∧ s.avgDelay = 5 ∧ s.minDelay = 10 ∧ s.maxDelay = 10 ∧
      ¬ Reported (delaysIn es) s := by
  intro es s
  have hds : delaysIn es = [10] := by decide +kernel
  have havg : s.avgDelay = 5 := by decide +kernel
  have hmin : s.minDelay = 10 := by decide +kernel
  have hmax : s.maxDelay = 10 := by decide +kernel
  refine ⟨hds, havg, hmin, hmax, fun h => ?_⟩
  have hle := h.min_le
  rw [hmin, havg] at hle
  norm_num at hle

end Wan.Proj2
