import Wan.Posix
import Wan.Lib.Channel
import Wan.Lib.Run

/-!
# The lossy sendto (sendto_dbg.cpp)

Both programs of a transfer hand their datagrams to `sendto_dbg`, which drops one when
the low byte of the next random number is not above `cutoff`, and claims success. The
random numbers are a parameter, so what is proved holds for every seed.

`cutoff` is a product of doubles cut to an `int`. For percentages it is the exact
product that is cut: the rounding never crosses an integer.
-/

namespace Wan

open Posix Lib

/-- `(percent * 0.01 * 0xff)`, as `sendto_dbg_init` of proj2 sets it. A double that does
not fit an `int` gives the least one. -/
def sendtoDbgInit (percent : ℤ) : ℤ :=
  let cutoff := (percent * 255).tdiv 100
  if IntRange cutoff then cutoff else -2 ^ 31

/-- The one of proj1 leaves the program when the rate is not a percentage. -/
def Proj1.sendtoDbgInit (percent : ℤ) : Option ℤ :=
  if percent < 0 ∨ percent > 100 then none else some (Wan.sendtoDbgInit percent)

structure SendtoDbg where
  cutoff : ℤ
  rand : ℕ → ℕ

def Drops (cutoff : ℤ) (decision : ℕ) : Prop := 0 < cutoff ∧ (decision : ℤ) ≤ cutoff

instance (cutoff : ℤ) (decision : ℕ) : Decidable (Drops cutoff decision) :=
  inferInstanceAs (Decidable (0 < cutoff ∧ (decision : ℤ) ≤ cutoff))

def SendtoDbg.decision (d : SendtoDbg) (call : ℕ) : ℕ := d.rand call &&& 0xff

def SendtoDbg.sendAll {α : Type*} (d : SendtoDbg) : ℕ → List α → List α
  | _, [] => []
  | call, p :: ps =>
    if Drops d.cutoff (d.decision call) then d.sendAll (call + 1) ps
    else p :: d.sendAll (call + 1) ps

variable {α : Type*} {d : SendtoDbg}

theorem SendtoDbg.sendAll_sublist (d : SendtoDbg) (call : ℕ) (ps : List α) :
    (d.sendAll call ps).Sublist ps := by
  induction ps generalizing call with
  | nil => exact List.Sublist.refl _
  | cons p ps ih =>
    rw [sendAll]
    split_ifs
    · exact (ih (call + 1)).cons p
    · exact (ih (call + 1)).cons_cons p

theorem SendtoDbg.decision_lt (d : SendtoDbg) (call : ℕ) : d.decision call < 256 :=
  Nat.and_lt_two_pow _ (by decide : 0xff < 2 ^ 8)

theorem SendtoDbg.sendAll_all (hd : d.cutoff ≤ 0) (call : ℕ) (ps : List α) :
    d.sendAll call ps = ps := by
  induction ps generalizing call with
  | nil => rfl
  | cons p ps ih => rw [sendAll, if_neg fun h => hd.not_gt h.1, ih]

theorem SendtoDbg.sendAll_none (hd : 255 ≤ d.cutoff) (call : ℕ) (ps : List α) :
    d.sendAll call ps = [] := by
  induction ps generalizing call with
  | nil => rfl
  | cons p ps ih =>
    have hlt := d.decision_lt call
    rw [sendAll, if_pos ⟨by omega, by omega⟩, ih]

-- ---------------------------------------------------------------------------
-- The rate
-- ---------------------------------------------------------------------------

def dropped (cutoff : ℤ) : ℕ := (List.range 256).countP fun decision => Drops cutoff decision

theorem countP_range_le (m n : ℕ) : (List.range n).countP (fun i => i ≤ m) = min (m + 1) n := by
  induction n with
  | zero => simp
  | succ n ih =>
    rw [List.range_succ, List.countP_append, ih]
    by_cases h : n ≤ m
    · simp [h]
      omega
    · simp [h]
      omega

theorem dropped_eq (cutoff : ℤ) :
    dropped cutoff = if 0 < cutoff then min (cutoff.toNat + 1) 256 else 0 := by
  split_ifs with h
  · rw [← countP_range_le, dropped]
    refine List.countP_congr fun i _ => ?_
    rw [decide_eq_true_iff, decide_eq_true_iff, Drops]
    omega
  · rw [dropped, List.countP_eq_zero]
    intro i _ hi
    exact h (of_decide_eq_true hi).1

theorem sendtoDbgInit_of_nonneg {percent : ℤ} (h : 0 ≤ percent) :
    sendtoDbgInit percent =
      if percent ≤ 842150450 then percent * 255 / 100 else -2 ^ 31 := by
  simp only [sendtoDbgInit, Int.tdiv_eq_ediv_of_nonneg (show 0 ≤ percent * 255 by omega), IntRange]
  split_ifs <;> omega

/-- Of the 256 values of `decision`, those that drop a datagram are less than one value
away from the percentage asked for. No loss and total loss are exact, and so is what
lies outside of 0 and 100, up to where the cut-off is no `int` any more: from there on
nothing is dropped. -/
theorem loss_rate (percent : ℤ) :
    (percent ≤ 0 → dropped (sendtoDbgInit percent) = 0) ∧
      (100 ≤ percent → dropped (sendtoDbgInit percent) =
        if percent ≤ 842150450 then 256 else 0) ∧
      (0 < percent → percent < 100 →
        |100 * (dropped (sendtoDbgInit percent) : ℤ) - 256 * percent| < 100) := by
  rw [dropped_eq]
  refine ⟨fun h => ?_, fun h => ?_, fun hpos hlt => ?_⟩
  · have hcut : sendtoDbgInit percent ≤ 0 := by
      rw [sendtoDbgInit, ← Int.neg_neg (percent * 255), Int.neg_tdiv,
        Int.tdiv_eq_ediv_of_nonneg (by omega)]
      split_ifs <;> omega
    rw [if_neg (by omega)]
  · rw [sendtoDbgInit_of_nonneg (by omega)]
    split_ifs with hfit hcut <;> omega
  · have hcut : sendtoDbgInit percent = percent * 255 / 100 := by
      rw [sendtoDbgInit_of_nonneg hpos.le, if_pos (by omega)]
    rw [hcut, if_pos (by omega), abs_lt]
    omega

end Wan
