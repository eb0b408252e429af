import Wan.Proj2.Delivery

/-!
# Packets left behind

The packets are kept by number and their deadlines by timestamp, one number for
each timestamp. A packet is delivered in time when the entry of its own timestamp
names its number or a higher one. A packet that arrives with the timestamp of a
higher one still in the window takes that entry over, and the higher one stays
until some later packet expires.

Here the clock stands still within one pass.
-/

namespace Wan.Proj2

open Posix Lib

variable {s : RtRcvState} {pkt p : NetPkt} {now : ℤ} {k : ℕ}

inductive Input
  | recv (pkt : NetPkt)
  | failed
  | timeout

structure Pass where
  input : Input
  now : ℤ

def Pass.event (a : Pass) : RtRcvEvent :=
  match a.input with
  | .recv pkt => .recv pkt fun _ => a.now
  | .failed => .failed
  | .timeout => .timeout fun _ => a.now

def passStep (s : RtRcvState) (a : Pass) : RtRcvState := (rtRcvStep s a.event).1

def Delivers (s : RtRcvState) (a : Pass) : Prop :=
  s.exited = false ∧ match a.input with
    | .recv pkt => pkt.seq ≠ blockedSeq ∧ ¬ (s.cumSeq = 0 ∧ s.delta = 0xffff)
    | .failed => False
    | .timeout => True

instance (s : RtRcvState) (a : Pass) : Decidable (Delivers s a) :=
  match a with
  | ⟨.recv _, _⟩ => inferInstanceAs (Decidable (_ ∧ _ ∧ ¬ (_ ∧ _)))
  | ⟨.failed, _⟩ => inferInstanceAs (Decidable (_ ∧ False))
  | ⟨.timeout, _⟩ => inferInstanceAs (Decidable (_ ∧ True))

def NoneStranded (s : RtRcvState) (now : ℤ) : Prop :=
  ∀ e ∈ s.window.entries, toMS (now - e.2.senderTS) ≤ s.delta + latency

instance (s : RtRcvState) (now : ℤ) : Decidable (NoneStranded s now) :=
  inferInstanceAs (Decidable (∀ e ∈ s.window.entries, _))

/-- A packet that comes to be cached finds no higher one of its own timestamp in
the window. -/
def KeepsDeadlines (s : RtRcvState) (a : Pass) : Prop :=
  match a.input with
  | .recv pkt => Delivers s a →
      ∀ e ∈ s.window.entries, e.2.senderTS = pkt.senderTS → e.1 ≤ pkt.seq
  | _ => True

instance (s : RtRcvState) (a : Pass) : Decidable (KeepsDeadlines s a) :=
  match a with
  | ⟨.recv _, _⟩ => inferInstanceAs (Decidable (_ → ∀ e ∈ s.window.entries, _ → _))
  | ⟨.failed, _⟩ => .isTrue trivial
  | ⟨.timeout, _⟩ => .isTrue trivial

def Covered (s : RtRcvState) : Prop :=
  ∀ k p, s.window.find? k = some p → ∃ v, s.timetable.find? p.senderTS = some v ∧ k ≤ v

-- ---------------------------------------------------------------------------
-- Caching
-- ---------------------------------------------------------------------------

theorem timetable_phaseII (s : RtRcvState) (pkt : NetPkt) (oneDelay : ℚ) :
    (phaseII s pkt oneDelay).1.timetable = s.timetable.insert pkt.senderTS pkt.seq := by
  unfold phaseII
  split_ifs <;> rfl

theorem Covered.phaseII (h : Covered s)
    (hkeep : ∀ e ∈ s.window.entries, e.2.senderTS = pkt.senderTS → e.1 ≤ pkt.seq)
    (oneDelay : ℚ) : Covered (phaseII s pkt oneDelay).1 := by
  intro k p hp
  rw [window_phaseII, OrdMap.find?_insert] at hp
  rw [timetable_phaseII, OrdMap.find?_insert]
  split_ifs at hp with hk
  · cases hp
    exact ⟨pkt.seq, if_pos rfl, hk.le⟩
  · by_cases hts : p.senderTS = pkt.senderTS
    · exact ⟨pkt.seq, if_pos hts, hkeep (k, p) (OrdMap.find?_iff.mp hp) hts⟩
    · obtain ⟨v, hv, hle⟩ := h k p hp
      exact ⟨v, by rwa [if_neg hts], hle⟩

-- ---------------------------------------------------------------------------
-- Delivery
-- ---------------------------------------------------------------------------

theorem toMS_mono {a b : ℤ} (h : a ≤ b) : toMS a ≤ toMS b := Int.tdiv_le_tdiv (by decide) h

theorem expired_mono {delta now a b : ℤ} (hab : a < b) (hb : expired delta now b = true) :
    expired delta now a = true := by
  simp only [expired, decide_eq_true_eq] at hb ⊢
  exact hb.trans_le (toMS_mono (by omega))

theorem popExpired_eq (s : RtRcvState) (now : ℤ) :
    (popExpired s fun _ => now).1 =
        s.timetable.entries.filter (fun e => expired s.delta now e.1) ∧
      (popExpired s fun _ => now).2.entries =
        s.timetable.entries.filter (fun e => !(expired s.delta now e.1)) :=
  OrdMap.popWhile_key (p := fun ts => expired s.delta now ts) (fun _ _ => expired_mono) s.timetable

theorem le_foldl_top (l : List (ℤ × ℕ)) (top : ℕ) :
    top ≤ l.foldl (fun top e => if e.2 > top then e.2 else top) top ∧
      ∀ e ∈ l, e.2 ≤ l.foldl (fun top e => if e.2 > top then e.2 else top) top := by
  induction l generalizing top with
  | nil => exact ⟨le_rfl, fun e he => absurd he List.not_mem_nil⟩
  | cons d l ih =>
    rw [List.foldl_cons]
    obtain ⟨hle, hmem⟩ := ih (if d.2 > top then d.2 else top)
    have hmax : top ≤ (if d.2 > top then d.2 else top) ∧
        d.2 ≤ (if d.2 > top then d.2 else top) := by
      split_ifs with hd
      · exact ⟨hd.le, le_rfl⟩
      · exact ⟨le_rfl, not_lt.mp hd⟩
    refine ⟨hmax.1.trans hle, fun e he => ?_⟩
    rcases List.mem_cons.mp he with rfl | he
    · exact hmax.2.trans hle
    · exact hmem e he

theorem le_topDeliverSeq {ts : ℤ} {v : ℕ} (hv : s.timetable.find? ts = some v)
    (hx : expired s.delta now ts = true) : v ≤ topDeliverSeq s fun _ => now := by
  refine (le_foldl_top _ s.appCumSeq).2 (ts, v) ?_
  rw [(popExpired_eq s now).1]
  exact List.mem_filter.mpr ⟨OrdMap.find?_iff.mp hv, hx⟩

theorem find?_popExpired {ts : ℤ} {v : ℕ} :
    (popExpired s fun _ => now).2.find? ts = some v ↔
      s.timetable.find? ts = some v ∧ expired s.delta now ts = false := by
  rw [OrdMap.find?_iff, OrdMap.find?_iff, (popExpired_eq s now).2, List.mem_filter]
  simp

theorem le_of_not_expired {ts : ℤ} (hdelta : IntRange s.delta)
    (hx : expired s.delta now ts = false) : toMS (now - ts) ≤ s.delta + latency := by
  rw [expired, decide_eq_false_iff_not, not_lt] at hx
  exact hx.trans (deadline_le hdelta)

/-- The delivery step takes every expired packet whose deadline is kept, and it
keeps the deadlines of the others. -/
theorem Covered.deliver (h : Covered s) (hdelta : IntRange s.delta) (now : ℤ) :
    Covered (deliver s fun _ => now).1 ∧ NoneStranded (deliver s fun _ => now).1 now := by
  have hleft : ∀ k p, (Proj2.deliver s fun _ => now).1.window.find? k = some p →
      ∃ v, s.timetable.find? p.senderTS = some v ∧ k ≤ v ∧
        expired s.delta now p.senderTS = false := by
    intro k p hp
    obtain ⟨hp, htop⟩ := find?_popDue.mp hp
    obtain ⟨v, hv, hle⟩ := h k p hp
    refine ⟨v, hv, hle, ?_⟩
    cases hx : expired s.delta now p.senderTS with
    | false => rfl
    | true => exact absurd (hle.trans (le_topDeliverSeq hv hx)) (not_le.mpr htop)
  constructor
  · intro k p hp
    obtain ⟨v, hv, hle, hx⟩ := hleft k p hp
    exact ⟨v, find?_popExpired.mpr ⟨hv, hx⟩, hle⟩
  · intro e he
    obtain ⟨v, -, -, hx⟩ := hleft e.1 e.2 (OrdMap.find?_iff.mpr he)
    exact le_of_not_expired hdelta hx

-- ---------------------------------------------------------------------------
-- A pass
-- ---------------------------------------------------------------------------

theorem Covered.step (h : Covered s) (hdelta : IntRange s.delta) {a : Pass}
    (ha : KeepsDeadlines s a) :
    Covered (passStep s a) ∧ (Delivers s a → NoneStranded (passStep s a) a.now) := by
  obtain ⟨input, now⟩ := a
  cases hx : s.exited with
  | true =>
    have heq : passStep s ⟨input, now⟩ = s := by simp [passStep, rtRcvStep, hx]
    rw [heq]
    refine ⟨h, fun hd => ?_⟩
    have := hd.1
    simp [hx] at this
  | false =>
    cases input with
    | failed =>
      have heq : passStep s ⟨.failed, now⟩ = s := by simp [passStep, rtRcvStep, hx, Pass.event]
      rw [heq]
      exact ⟨h, fun hd => hd.2.elim⟩
    | timeout =>
      have heq : passStep s ⟨.timeout, now⟩ = (Proj2.deliver s fun _ => now).1 := by
        simp [passStep, rtRcvStep, hx, Pass.event, rtRcvTimeout]
      rw [heq]
      exact (h.deliver hdelta now).imp_right fun hn _ => hn
    | recv pkt =>
      by_cases hd : Delivers s ⟨.recv pkt, now⟩
      · obtain ⟨-, hb, hphase⟩ := hd
        have hcov : Covered { s with totalPkts := s.totalPkts + 1 } := h
        have heq : passStep s ⟨.recv pkt, now⟩ = _ :=
          congrArg Prod.fst (rtRcvStep_phaseII hx hb hphase fun _ => now)
        rw [heq]
        have hrange : IntRange (Proj2.phaseII { s with totalPkts := s.totalPkts + 1 } pkt
            (toMS (now - pkt.senderTS))).1.delta := (phaseII_delta ..).symm ▸ hdelta
        exact ((hcov.phaseII (ha ⟨hx, hb, hphase⟩) _).deliver hrange now).imp_right fun hn _ => hn
      · refine ⟨?_, fun hd' => absurd hd' hd⟩
        -- the server's refusal, or its reply: neither touches the maps
        have hmaps : (passStep s ⟨.recv pkt, now⟩).window = s.window ∧
            (passStep s ⟨.recv pkt, now⟩).timetable = s.timetable := by
          simp only [passStep, rtRcvStep, hx, Pass.event, rtRcvRecv, Bool.false_eq_true, if_false]
          split_ifs with hb hphase
          · exact ⟨rfl, rfl⟩
          · exact ⟨rfl, rfl⟩
          · exact absurd ⟨hx, hb, hphase⟩ hd
        unfold Covered
        rw [hmaps.1, hmaps.2]
        exact h

end Wan.Proj2
