import Wan.Lib.InOrder
import Mathlib.Logic.Relation

/-!
# A sliding window over a bag of messages

The protocol in terms of numbers alone. A sender keeps at most `size` of the numbers
`1..last` that are not acknowledged and sends any of them as often as it likes; a receiver
takes them in order and says how far it got. What was ever sent stays in the bag, so
reading a message early, late, twice or never is no event of its own.
-/

namespace Wan.Lib

structure SlidingWindow where
  /-- The first number that is not acknowledged. -/
  base : ℕ
  /-- The first number that is not in the window yet. -/
  next : ℕ
  /-- How far the receiver got. -/
  got : ℕ
  data : Set ℕ
  acks : Set ℕ
  returned : Bool

namespace SlidingWindow

def init : SlidingWindow := ⟨1, 1, 0, ∅, ∅, false⟩

/-- A sender that has returned does nothing more. -/
inductive Step (size last : ℕ) : SlidingWindow → SlidingWindow → Prop
  | extend {s} (hr : s.returned = false) (hroom : s.next < s.base + size) (hmore : s.next ≤ last) :
    Step size last s { s with next := s.next + 1 }
  | send {s} {j : ℕ} (hr : s.returned = false) (hlo : s.base ≤ j) (hhi : j < s.next) :
    Step size last s { s with data := insert j s.data }
  | receive {s} {j : ℕ} (hj : j ∈ s.data) : Step size last s { s with got := advance s.got j }
  | acknowledge {s} : Step size last s { s with acks := insert s.got s.acks }
  | slide {s} {a : ℕ} (hr : s.returned = false) (ha : a ∈ s.acks) :
    Step size last s { s with base := max s.base (a + 1) }
  | finish {s} (hr : s.returned = false) (ha : last ∈ s.acks) :
    Step size last s { s with returned := true }

variable {size last : ℕ} {s t : SlidingWindow}

abbrev Reaches (size last : ℕ) : SlidingWindow → SlidingWindow → Prop :=
  Relation.ReflTransGen (Step size last)

/-- The two ends never disagree by more than a window. -/
structure Agreed (size last : ℕ) (s : SlidingWindow) : Prop where
  pos : 1 ≤ s.base
  base : s.base ≤ s.got + 1
  got : s.got < s.next
  next : s.next ≤ s.base + size
  bound : s.next ≤ last + 1
  data : ∀ j ∈ s.data, 1 ≤ j ∧ j < s.next
  acks : ∀ a ∈ s.acks, a ≤ s.got
  returned : s.returned = true → s.got = last

theorem agreed_init : Agreed size last .init where
  pos := le_rfl
  base := le_rfl
  got := Nat.zero_lt_one
  next := Nat.le_add_right _ _
  bound := Nat.le_add_left _ _
  data := by simp [init]
  acks := by simp [init]
  returned := by simp [init]

theorem Agreed.step (h : Agreed size last s) (hst : Step size last s t) : Agreed size last t := by
  obtain ⟨hpos, hbase, hgot, hnext, hbound, hdata, hacks, hret⟩ := h
  cases hst with
  | extend hr hroom hmore =>
    refine ⟨hpos, hbase, Nat.lt_succ_of_lt hgot, hroom, Nat.succ_le_succ hmore, ?_, hacks, hret⟩
    exact fun j hj => ⟨(hdata j hj).1, Nat.lt_succ_of_lt (hdata j hj).2⟩
  | send hr hlo hhi =>
    refine ⟨hpos, hbase, hgot, hnext, hbound, ?_, hacks, hret⟩
    rintro j (rfl | hj)
    · exact ⟨hpos.trans hlo, hhi⟩
    · exact hdata j hj
  | @receive j hj =>
    have hle := le_advance s.got j
    have hjn := (hdata j hj).2
    have hlt : advance s.got j < s.next := by
      unfold advance
      split_ifs <;> omega
    refine ⟨hpos, hbase.trans (Nat.succ_le_succ hle), hlt, hnext, hbound, hdata, ?_, fun hr => ?_⟩
    · exact fun a ha => (hacks a ha).trans hle
    · have := hret hr
      simp only
      omega
  | acknowledge =>
    refine ⟨hpos, hbase, hgot, hnext, hbound, hdata, ?_, hret⟩
    rintro a (rfl | ha)
    · exact le_rfl
    · exact hacks a ha
  | @slide a hr ha =>
    have hle := hacks a ha
    refine ⟨hpos.trans (le_max_left _ _), max_le hbase (Nat.succ_le_succ hle), hgot, ?_, hbound,
      hdata, hacks, hret⟩
    exact hnext.trans (Nat.add_le_add_right (le_max_left _ _) _)
  | finish hr ha =>
    refine ⟨hpos, hbase, hgot, hnext, hbound, hdata, hacks, fun _ => ?_⟩
    have := hacks last ha
    show s.got = last
    omega

theorem agreed_of_reaches (h : Reaches size last .init s) : Agreed size last s := by
  induction h with
  | refl => exact agreed_init
  | tail _ hst ih => exact ih.step hst

-- ---------------------------------------------------------------------------
-- Several steps of the sender
-- ---------------------------------------------------------------------------

theorem reaches_extend (hr : s.returned = false) {m : ℕ} (hm : s.next ≤ m)
    (hroom : m ≤ s.base + size) (hmore : m ≤ last + 1) :
    Reaches size last s { s with next := m } := by
  induction m, hm using Nat.le_induction with
  | base => exact .refl
  | succ m hm ih =>
    refine (ih (Nat.le_of_succ_le hroom) (Nat.le_of_succ_le hmore)).tail ?_
    exact .extend (s := { s with next := m }) hr hroom (Nat.le_of_succ_le_succ hmore)

theorem exists_sends {β : Type*} {f : ℕ → β} (hr : s.returned = false) {ps : List β}
    (hps : ∀ p ∈ ps, ∃ j, s.base ≤ j ∧ j < s.next ∧ p = f j) :
    ∃ data, s.data ⊆ data ∧ (∀ p ∈ ps, ∃ j ∈ data, p = f j) ∧
      Reaches size last s { s with data := data } := by
  induction ps with
  | nil => exact ⟨s.data, subset_rfl, by simp, .refl⟩
  | cons p ps ih =>
    obtain ⟨j, hlo, hhi, hp⟩ := hps p List.mem_cons_self
    obtain ⟨data, hsub, hmem, hreach⟩ := ih fun q hq => hps q (List.mem_cons_of_mem _ hq)
    have hsend := hreach.tail (.send hr hlo hhi)
    refine ⟨insert j data, hsub.trans (Set.subset_insert j data), ?_, hsend⟩
    intro q hq
    rcases List.mem_cons.mp hq with rfl | hq
    · exact ⟨j, Set.mem_insert j data, hp⟩
    · obtain ⟨i, hi, hqi⟩ := hmem q hq
      exact ⟨i, Set.mem_insert_of_mem j hi, hqi⟩

end SlidingWindow

end Wan.Lib
