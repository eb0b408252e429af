import Mathlib.Tactic

/-!
# A queue that may leave items out

What a channel is for that keeps the order and loses items now and then: it takes items,
and gives out or drops the one that is next. Whatever it gave out is a part of what it
took, in order, and nothing is given out twice.
-/

namespace Wan.Lib

variable {α : Type*}

structure LossyQueue (α : Type*) where
  taken : List α
  /-- How many of them were given out or dropped. -/
  pos : ℕ
  given : List α

namespace LossyQueue

inductive Event (α : Type*)
  | take (x : α)
  | give
  | drop

def empty : LossyQueue α := ⟨[], 0, []⟩

def step (s : LossyQueue α) : Event α → LossyQueue α
  | .take x => { s with taken := s.taken ++ [x] }
  | .give =>
    match s.taken[s.pos]? with
    | none => s
    | some x => { s with pos := s.pos + 1, given := s.given ++ [x] }
  | .drop => if s.pos < s.taken.length then { s with pos := s.pos + 1 } else s

variable {s t : LossyQueue α}

/-- What was given out lies in the part that is done with. -/
def InOrder (s : LossyQueue α) : Prop :=
  s.pos ≤ s.taken.length ∧ s.given.Sublist (s.taken.take s.pos)

theorem InOrder.step (h : InOrder s) (e : Event α) : InOrder (s.step e) := by
  obtain ⟨hpos, hsub⟩ := h
  cases e with
  | take x =>
    refine ⟨by simp [LossyQueue.step]; omega, ?_⟩
    show s.given.Sublist ((s.taken ++ [x]).take s.pos)
    rwa [List.take_append_of_le_length hpos]
  | give =>
    cases hx : s.taken[s.pos]? with
    | none =>
      simp only [LossyQueue.step, hx]
      exact ⟨hpos, hsub⟩
    | some x =>
      simp only [LossyQueue.step, hx]
      refine ⟨(List.getElem?_eq_some_iff.mp hx).1, ?_⟩
      show (s.given ++ [x]).Sublist (s.taken.take (s.pos + 1))
      rw [List.take_add_one, hx]
      exact hsub.append_right _
  | drop =>
    simp only [LossyQueue.step]
    split_ifs with hlt
    · exact ⟨hlt, hsub.trans (List.take_sublist_take_left (Nat.le_succ _))⟩
    · exact ⟨hpos, hsub⟩

def Leads (s t : LossyQueue α) : Prop := ∃ es : List (Event α), es.foldl step s = t

theorem Leads.refl (s : LossyQueue α) : Leads s s := ⟨[], rfl⟩

theorem Leads.trans {u : LossyQueue α} (h : Leads s t) (h' : Leads t u) : Leads s u := by
  obtain ⟨es, rfl⟩ := h
  obtain ⟨es', rfl⟩ := h'
  exact ⟨es ++ es', List.foldl_append⟩

theorem leads_step (s : LossyQueue α) (e : Event α) : Leads s (s.step e) := ⟨[e], rfl⟩

theorem Leads.given_sublist (h : Leads empty s) : s.given.Sublist s.taken := by
  obtain ⟨es, rfl⟩ := h
  have h : InOrder (es.foldl step empty) := by
    induction es using List.reverseRecOn with
    | nil => exact ⟨le_rfl, List.Sublist.refl _⟩
    | append_singleton es e ih =>
      rw [List.foldl_append]
      exact ih.step e
  exact h.2.trans (List.take_sublist _ _)

-- ---------------------------------------------------------------------------
-- Where the events can lead
-- ---------------------------------------------------------------------------

theorem leads_takes (s : LossyQueue α) (xs : List α) :
    Leads s { s with taken := s.taken ++ xs } := by
  induction xs using List.reverseRecOn with
  | nil => simpa using Leads.refl s
  | append_singleton xs x ih =>
    refine ih.trans ?_
    simpa [LossyQueue.step] using leads_step { s with taken := s.taken ++ xs } (.take x)

theorem leads_drops {i : ℕ} (hlo : s.pos ≤ i) (hhi : i ≤ s.taken.length) :
    Leads s { s with pos := i } := by
  induction i, hlo using Nat.le_induction with
  | base => exact .refl s
  | succ i hlo ih =>
    have hstep := leads_step { s with pos := i } .drop
    simp only [LossyQueue.step] at hstep
    rw [if_pos (Nat.lt_of_succ_le hhi)] at hstep
    exact (ih (Nat.le_of_succ_le hhi)).trans hstep

theorem leads_give {i : ℕ} {x : α} (hlo : s.pos ≤ i) (hx : s.taken[i]? = some x) :
    Leads s { s with pos := i + 1, given := s.given ++ [x] } := by
  have hstep := leads_step { s with pos := i } .give
  simp only [LossyQueue.step, hx] at hstep
  exact (leads_drops hlo (List.getElem?_eq_some_iff.mp hx).1.le).trans hstep

theorem leads_gives {β : Type*} (place : β → ℕ) (item : β → α) {qs : List β}
    (hinc : qs.Pairwise (place · < place ·)) (hlo : ∀ q ∈ qs, s.pos ≤ place q)
    (hget : ∀ q ∈ qs, s.taken[place q]? = some (item q)) :
    Leads s { s with
      pos := (qs.getLast?.map fun q => place q + 1).getD s.pos
      given := s.given ++ qs.map item } := by
  induction qs using List.reverseRecOn with
  | nil => simpa using Leads.refl s
  | append_singleton qs q ih =>
    obtain ⟨hqs, -, hlt⟩ := List.pairwise_append.mp hinc
    have hrest := ih hqs (fun p hp => hlo p (List.mem_append_left _ hp))
      fun p hp => hget p (List.mem_append_left _ hp)
    obtain ⟨t, ht⟩ : ∃ t : LossyQueue α, t = { s with
      pos := (qs.getLast?.map fun q => place q + 1).getD s.pos
      given := s.given ++ qs.map item } := ⟨_, rfl⟩
    have hpos : t.pos ≤ place q := by
      rw [ht]
      cases hlast : qs.getLast? with
      | none => exact hlo q (by simp)
      | some p => exact hlt p (List.mem_of_getLast? hlast) q List.mem_cons_self
    have hgive := leads_give hpos (x := item q) (by rw [ht]; exact hget q (by simp))
    rw [← ht] at hrest
    have h := hrest.trans hgive
    rw [ht] at h
    simpa using h

end LossyQueue

end Wan.Lib
