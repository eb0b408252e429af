import Mathlib.Tactic

/-!
# A channel that may lose, duplicate, delay and reorder

The datagrams in flight are a list. The network may drop any of them or leave a
second copy of it, and a receiver may be handed any of them, in any order. A
datagram that is never handed over is delayed for ever.
-/

namespace Wan.Lib.Channel

variable {α : Type*}

def lose (ch : List α) (i : ℕ) : List α := ch.eraseIdx i

def duplicate (ch : List α) (i : ℕ) : List α := ch ++ ch[i]?.toList

theorem mem_of_mem_lose {ch : List α} {i : ℕ} {x : α} (h : x ∈ lose ch i) : x ∈ ch :=
  List.mem_of_mem_eraseIdx h

theorem mem_of_mem_duplicate {ch : List α} {i : ℕ} {x : α} (h : x ∈ duplicate ch i) : x ∈ ch := by
  rcases List.mem_append.mp h with h | h
  · exact h
  · exact List.mem_of_getElem? (Option.mem_toList.mp h)

/-- What was put into a channel last may be lost down to any part of it. -/
theorem exists_lose {l l' : List α} (ch : List α) (h : l'.Sublist l) :
    ∃ is : List ℕ, is.foldl lose (ch ++ l) = ch ++ l' := by
  induction h generalizing ch with
  | slnil => exact ⟨[], rfl⟩
  | @cons l' l a h ih =>
    obtain ⟨is, his⟩ := ih ch
    refine ⟨ch.length :: is, ?_⟩
    rw [List.foldl_cons, lose, List.eraseIdx_append_of_length_le le_rfl, Nat.sub_self]
    exact his
  | @cons_cons l' l a h ih =>
    obtain ⟨is, his⟩ := ih (ch ++ [a])
    exact ⟨is, by simpa using his⟩

/-- The same for a machine that keeps the channel in its state and has an event for the
loss of each datagram. -/
theorem exists_losses {σ ε : Type*} (step : σ → ε → σ) (event : ℕ → ε) (withCh : List α → σ)
    (hstep : ∀ ch i, step (withCh ch) (event i) = withCh (lose ch i)) {l l' : List α}
    (ch : List α) (h : l'.Sublist l) :
    ∃ es : List ε, (∀ e ∈ es, ∃ i, e = event i) ∧
      es.foldl step (withCh (ch ++ l)) = withCh (ch ++ l') := by
  obtain ⟨is, his⟩ := exists_lose ch h
  refine ⟨is.map event, fun e he => ?_, ?_⟩
  · obtain ⟨i, -, rfl⟩ := List.mem_map.mp he
    exact ⟨i, rfl⟩
  · rw [List.foldl_map, List.foldl_hom withCh hstep, his]

end Wan.Lib.Channel
