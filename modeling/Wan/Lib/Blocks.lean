import Mathlib.Tactic

/-!
# Cutting a list into blocks

Blocks are numbered from one, as sequence numbers are. All but the last have
`n` elements; an empty list still has one (empty) block. Writing the first `k`
blocks one after the other gives the first `k * n` elements.
-/

namespace Wan.Lib

variable {α : Type*} {n : ℕ} {l : List α}

def block (n : ℕ) (l : List α) (k : ℕ) : List α := (l.drop ((k - 1) * n)).take n

def blockCount (n : ℕ) (l : List α) : ℕ := max 1 ((l.length + n - 1) / n)

def firstBlocks (n : ℕ) (l : List α) (k : ℕ) : List α := (List.range' 1 k).flatMap (block n l)

theorem length_block (k : ℕ) : (block n l k).length = min n (l.length - (k - 1) * n) := by
  simp [block]

theorem firstBlocks_succ (k : ℕ) :
    firstBlocks n l (k + 1) = firstBlocks n l k ++ block n l (k + 1) := by
  simp [firstBlocks, List.range'_concat, Nat.add_comm]

theorem firstBlocks_eq_take (k : ℕ) : firstBlocks n l k = l.take (k * n) := by
  induction k with
  | zero => simp [firstBlocks]
  | succ k ih =>
    rw [firstBlocks_succ, ih, block, Nat.add_sub_cancel, Nat.add_mul, one_mul, List.take_add]

theorem firstBlocks_prefix (k : ℕ) : firstBlocks n l k <+: l := by
  rw [firstBlocks_eq_take]
  exact List.take_prefix _ _

theorem one_le_blockCount : 1 ≤ blockCount n l := le_max_left _ _

theorem lt_blockCount_iff (hn : 0 < n) {k : ℕ} (hk : 1 ≤ k) :
    k < blockCount n l ↔ k * n < l.length := by
  have hd : k < (l.length + n - 1) / n ↔ k * n < l.length + n - 1 - (n - 1) :=
    Nat.lt_div_iff_mul_lt hn
  unfold blockCount
  omega

theorem firstBlocks_blockCount (hn : 0 < n) : firstBlocks n l (blockCount n l) = l := by
  have h := mt (lt_blockCount_iff (l := l) hn one_le_blockCount).mpr (lt_irrefl _)
  rw [firstBlocks_eq_take]
  exact List.take_of_length_le (by omega)

end Wan.Lib
