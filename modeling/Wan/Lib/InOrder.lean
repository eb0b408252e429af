import Mathlib.Tactic

/-!
# Taking consecutive numbers in order

A counter that moves on only when the next number arrives. After any sequence of
arrivals it stands at the end of the longest run `1, 2, …` that arrived in that
order, whatever came in between.
-/

namespace Wan.Lib

def advance (k j : ℕ) : ℕ := if j = k + 1 then k + 1 else k

abbrev inOrder (js : List ℕ) : ℕ := js.foldl advance 0

theorem le_advance (k j : ℕ) : k ≤ advance k j := by
  unfold advance
  split_ifs <;> omega

theorem le_foldl_advance (js : List ℕ) (k : ℕ) : k ≤ js.foldl advance k := by
  induction js generalizing k with
  | nil => exact le_rfl
  | cons j js ih => exact (le_advance k j).trans (ih _)

theorem sublist_foldl_advance (js : List ℕ) (k : ℕ) :
    (List.range' (k + 1) (js.foldl advance k - k)).Sublist js := by
  induction js generalizing k with
  | nil => simp
  | cons j js ih =>
    have hle := le_foldl_advance js (advance k j)
    have hsub := ih (advance k j)
    by_cases hj : j = k + 1
    · rw [advance, if_pos hj] at hle hsub
      have hlen : (j :: js).foldl advance k - k = js.foldl advance (k + 1) - (k + 1) + 1 := by
        rw [List.foldl_cons, advance, if_pos hj]
        omega
      rw [hlen, List.range'_succ, hj]
      exact hsub.cons_cons _
    · rw [advance, if_neg hj] at hsub
      rw [List.foldl_cons, advance, if_neg hj]
      exact hsub.cons _

theorem le_foldl_advance_of_sublist {js : List ℕ} {k m : ℕ}
    (h : (List.range' (k + 1) m).Sublist js) : k + m ≤ js.foldl advance k := by
  induction js generalizing k m with
  | nil =>
    have : m = 0 := by simpa using h
    simp [this]
  | cons j js ih =>
    cases m with
    | zero => exact le_foldl_advance _ _
    | succ m =>
      rw [List.range'_succ] at h
      rw [List.foldl_cons, advance]
      cases h with
      | cons_cons _ h =>
        rw [if_pos rfl]
        have := ih h
        omega
      | cons _ h =>
        have hsub : (List.range' (k + 1) (m + 1)).Sublist js := by rwa [List.range'_succ]
        split_ifs with hj
        · -- the number arrives here and again later: what follows it is found later too
          have := ih (List.sublist_of_cons_sublist (List.range'_succ ▸ hsub))
          omega
        · exact ih hsub

theorem inOrder_sublist (js : List ℕ) : (List.range' 1 (inOrder js)).Sublist js := by
  simpa using sublist_foldl_advance js 0

theorem le_inOrder {js : List ℕ} {m : ℕ} (h : (List.range' 1 m).Sublist js) : m ≤ inOrder js := by
  simpa using le_foldl_advance_of_sublist (k := 0) h

/-- The counter has reached `m`, the largest number with `1..m` all arrived,
exactly when `1..m` arrived in order. -/
theorem inOrder_eq_iff {js : List ℕ} {m : ℕ}
    (hm : IsGreatest {k | ∀ i, 1 ≤ i → i ≤ k → i ∈ js} m) :
    inOrder js = m ↔ (List.range' 1 m).Sublist js := by
  constructor
  · rintro rfl
    exact inOrder_sublist js
  · intro h
    refine le_antisymm (hm.2 fun i h1 hi => ?_) (le_inOrder h)
    exact (inOrder_sublist js).subset (List.mem_range'_1.mpr (by omega))

end Wan.Lib
