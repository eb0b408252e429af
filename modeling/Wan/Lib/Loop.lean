import Mathlib.Tactic

/-!
# Loops with a number of rounds

A loop repeats a pass as long as a condition holds. A pass may give no result, and
so does a loop whose rounds do not suffice.
-/

namespace Wan.Lib

variable {σ : Type*} {cond : σ → Prop} [DecidablePred cond] {pass : σ → Option σ} {s : σ}

def loopWhile (cond : σ → Prop) [DecidablePred cond] (pass : σ → Option σ) : ℕ → σ → Option σ
  | 0, s => if cond s then none else some s
  | m + 1, s => if cond s then (pass s).bind (loopWhile cond pass m) else some s

theorem loopWhile_done (h : ¬ cond s) (m : ℕ) : loopWhile cond pass m s = some s := by
  cases m with
  | zero => rw [loopWhile, if_neg h]
  | succ m => rw [loopWhile, if_neg h]

/-- The rule for a loop of `n` passes: each leads to the invariant of the next, and
the last one to the goal, where the condition fails. -/
theorem loopWhile_count {I : ℕ → σ → Prop} {G : σ → Prop} {n : ℕ}
    (hcond : ∀ k s, I k s → cond s)
    (hpass : ∀ k s, k < n → I k s → ∃ t, pass s = some t ∧
      (k + 1 < n → I (k + 1) t) ∧ (k + 1 = n → ¬ cond t ∧ G t))
    {k m : ℕ} (hk : k < n) (hm : n - k ≤ m) (h : I k s) :
    ∃ t, loopWhile cond pass m s = some t ∧ G t := by
  induction m generalizing k s with
  | zero => omega
  | succ m ih =>
    obtain ⟨t, ht, hmore, hlast⟩ := hpass k s hk h
    rw [loopWhile, if_pos (hcond k s h), ht, Option.bind_some]
    by_cases hend : k + 1 = n
    · obtain ⟨hstop, hg⟩ := hlast hend
      exact ⟨t, loopWhile_done hstop m, hg⟩
    · exact ih (by omega) (by omega) (hmore (by omega))

end Wan.Lib
