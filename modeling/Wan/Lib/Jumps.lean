import Mathlib.Tactic
import Mathlib.Order.Interval.Finset.Defs
import Mathlib.Data.Int.Interval

/-!
# Counting jumps

A row of numbers and the one before it: a number that is not the next one after its
predecessor is a jump. In an increasing row the jumps are the ends of the gaps.
-/

namespace Wan.Lib

section
variable {α : Type*} [DecidableEq α] {next : α → α}

def jumps (next : α → α) : α → List α → ℕ
  | _, [] => 0
  | last, k :: ks => (if k = next last then 0 else 1) + jumps next k ks

theorem jumps_concat (last : α) (ks : List α) (k : α) :
    jumps next last (ks ++ [k]) =
      jumps next last ks + if k = next (ks.getLast?.getD last) then 0 else 1 := by
  induction ks generalizing last with
  | nil => exact (Nat.add_zero _).trans (Nat.zero_add _).symm
  | cons j ks ih =>
    have hlast : (j :: ks).getLast?.getD last = ks.getLast?.getD j := by
      rw [List.getLast?_cons]
      rfl
    rw [List.cons_append, jumps, jumps, ih, hlast, Nat.add_assoc]

theorem jumps_le_length (last : α) (ks : List α) : jumps next last ks ≤ ks.length := by
  induction ks generalizing last with
  | nil => exact le_rfl
  | cons k ks ih =>
    have hrest := ih k
    rw [jumps, List.length_cons]
    split_ifs <;> omega

theorem jumps_eq_zero_iff {last : α} {ks : List α} :
    jumps next last ks = 0 ↔ ks = (List.range ks.length).map fun i => next^[i + 1] last := by
  induction ks generalizing last with
  | nil => simp [jumps]
  | cons k ks ih =>
    rw [jumps, List.length_cons, List.range_succ_eq_map, List.map_cons, List.map_map,
      List.cons.injEq]
    show _ ↔ k = next last ∧ ks = (List.range ks.length).map fun i => next^[i + 1] (next last)
    constructor
    · intro h
      have hk : k = next last := by
        by_contra hne
        rw [if_neg hne] at h
        omega
      subst hk
      exact ⟨rfl, ih.mp (by omega)⟩
    · rintro ⟨rfl, hks⟩
      rw [if_pos rfl, ih.mpr hks]

end

variable {last : ℤ} {ks : List ℤ} {next : ℤ → ℤ}

/-- The jumps of an increasing row are the numbers whose predecessor is missing. -/
theorem jumps_eq_countP (h : (last :: ks).Pairwise (· < ·))
    (hnext : ∀ j, last ≤ j → (∃ k ∈ ks, j < k) → next j = j + 1) :
    jumps next last ks = ks.countP fun k => k - 1 ∉ last :: ks := by
  induction ks generalizing last with
  | nil => rfl
  | cons k ks ih =>
    obtain ⟨hlast, hk⟩ := List.pairwise_cons.mp h
    have hlt : last < k := hlast k List.mem_cons_self
    have hlastnext : next last = last + 1 := hnext last le_rfl ⟨k, List.mem_cons_self, hlt⟩
    have hfirst : k - 1 ∉ last :: k :: ks ↔ ¬ k = last + 1 := by
      rw [not_iff_not]
      constructor
      · intro hm
        rcases List.mem_cons.mp hm with heq | hm
        · omega
        · rcases List.mem_cons.mp hm with heq | hm
          · omega
          · have := List.rel_of_pairwise_cons hk hm
            omega
      · intro heq
        exact List.mem_cons.mpr (.inl (by omega))
    have hrest : ks.countP (fun j => j - 1 ∉ last :: k :: ks) =
        ks.countP fun j => j - 1 ∉ k :: ks := by
      refine List.countP_congr fun j hj => ?_
      have hlt := List.rel_of_pairwise_cons hk hj
      have hne : j - 1 ≠ last := by omega
      simp [hne]
    have htail := ih hk fun j hle hj => by
      obtain ⟨k', hk', hlt'⟩ := hj
      exact hnext j (hlt.le.trans hle) ⟨k', List.mem_cons_of_mem k hk', hlt'⟩
    rw [jumps, hlastnext, htail, List.countP_cons, hrest, Nat.add_comm]
    congr 1
    simp only [decide_eq_true_eq, hfirst, ite_not]

theorem length_add_missing (h : (last :: ks).Pairwise (· < ·)) :
    (ks.length + ((Finset.Ioc last (ks.getLast?.getD last)).filter (· ∉ ks)).card : ℤ) =
      ks.getLast?.getD last - last := by
  obtain ⟨top, htop⟩ : ∃ top, ks.getLast?.getD last = top := ⟨_, rfl⟩
  obtain ⟨hgt, hks⟩ := List.pairwise_cons.mp h
  have hle : ∀ k ∈ ks, k ≤ top := by
    intro k hk
    have hne : ks ≠ [] := List.ne_nil_of_mem hk
    rw [← htop, List.getLast?_eq_getLast_of_ne_nil hne, Option.getD_some]
    exact hks.imp (fun h => h.le) |>.rel_getLast hk
  have htop' : last ≤ top := by
    cases ks with
    | nil => exact htop.le
    | cons k ks => exact (hgt k List.mem_cons_self).le.trans (hle k List.mem_cons_self)
  have hin : (Finset.Ioc last top).filter (· ∈ ks) = ks.toFinset := by
    ext k
    simp only [Finset.mem_filter, Finset.mem_Ioc, List.mem_toFinset]
    exact ⟨And.right, fun hk => ⟨⟨hgt k hk, hle k hk⟩, hk⟩⟩
  have hcard := Finset.card_filter_add_card_filter_not (s := Finset.Ioc last top) (· ∈ ks)
  rw [hin, List.toFinset_card_of_nodup (hks.imp fun h => h.ne), Int.card_Ioc] at hcard
  rw [htop]
  omega

end Wan.Lib
