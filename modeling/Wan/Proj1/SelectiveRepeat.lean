import Wan.Proj1.Transfer

/-!
# What selective repeat comes down to

The packets of one transfer arrive in some order. A packet that arrives before
its turn leaves only a pointer to the receive buffer, so it counts as received
only if it is sent again in its turn: the receiver ends where selective repeat
would end exactly when the packets up to there arrived in ascending order.
-/

namespace Wan.Proj1

open Posix Lib

variable {c : RcvCore} {src : Bytes} {f : Fname} {a : SockaddrIn} {k : ℕ}

def arrivalsFrom (a : SockaddrIn) (arrivals : List (NetPkt × AckPkt)) : List RcvEvent :=
  arrivals.map fun x => .datagram a x.1 x.2

def seqs (arrivals : List (NetPkt × AckPkt)) : List ℕ := arrivals.map fun x => x.1.seq.toNat

theorem InTransfer.run (h : InTransfer a src f c k) {arrivals : List (NetPkt × AckPkt)}
    (hdata : ∀ x ∈ arrivals, ∃ j, Carries src f j x.1) :
    InTransfer a src f ((arrivalsFrom a arrivals).foldl (next coreStep) c)
        ((seqs arrivals).foldl advance k) ∧
      chunks src k ++ written f (trace coreStep c (arrivalsFrom a arrivals)) =
        chunks src ((seqs arrivals).foldl advance k) := by
  induction arrivals generalizing c k with
  | nil => exact ⟨h, List.append_nil _⟩
  | cons x xs ih =>
    obtain ⟨j, hj⟩ := hdata x List.mem_cons_self
    obtain ⟨hr, hw, -⟩ := h.recv hj x.2
    have hseq : x.1.seq.toNat = j := by simp [hj.seq]
    obtain ⟨hi, ho⟩ := ih (.inr hr) fun y hy => hdata y (List.mem_cons_of_mem _ hy)
    rw [← chunks_advance, ← hw, List.append_assoc, ← written_append] at ho
    simp only [seqs, List.map_cons, List.foldl_cons, hseq]
    exact ⟨hi, ho⟩

/-- `K` is how far a receiver that keeps what it is sent gets: the largest number
with packets `1..K` all arrived. This receiver gets there exactly when they
arrived in order. -/
theorem selective_repeat_iff (buf : NetPkt) (past : List RcvEvent) (a : SockaddrIn) (src : Bytes)
    (f : Fname)
    (hidle : (past.foldl (next rcvStep) (.init buf)).rcvStart = false)
    (hnext : (past.foldl (next rcvStep) (.init buf)).senderQ = [] ∨
      (past.foldl (next rcvStep) (.init buf)).senderQ.head? = some a)
    (arrivals : List (NetPkt × AckPkt)) (hdata : ∀ x ∈ arrivals, ∃ k, Carries src f k x.1)
    (K : ℕ) (hK : IsGreatest {k | ∀ i, 1 ≤ i → i ≤ k → i ∈ seqs arrivals} K) :
    let s := past.foldl (next rcvStep) (.init buf)
    ((arrivalsFrom a arrivals).foldl (next rcvStep) s).cumSeq = K ∧
        written f (trace rcvStep s (arrivalsFrom a arrivals)) = chunks src K ↔
      (List.range' 1 K).Sublist (seqs arrivals) := by
  intro s
  have hok : s.core.Ok := (rcv_run_core (RcvCore.ok_init buf) past).2.2
  have hstart : InTransfer a src f s.core 0 := .inl ⟨⟨hnext, hidle, hok⟩, rfl⟩
  obtain ⟨hin, hout⟩ := hstart.run hdata
  obtain ⟨hcore, htrace, -⟩ := rcv_run_core hok (arrivalsFrom a arrivals)
  have hcum :
      ((arrivalsFrom a arrivals).foldl (next rcvStep) s).cumSeq = inOrder (seqs arrivals) := by
    rw [← hin.cumSeq, ← hcore]
    rfl
  have hwritten : written f (trace rcvStep s (arrivalsFrom a arrivals)) =
      chunks src (inOrder (seqs arrivals)) := by
    rw [htrace, ← hout]
    rfl
  rw [hcum, hwritten, ← inOrder_eq_iff hK]
  constructor
  · rintro ⟨h, -⟩
    exact_mod_cast h
  · intro h
    rw [h]
    exact ⟨rfl, rfl⟩

/-- Both packets of a file of two chunks arrive, the first one twice. -/
theorem selective_repeat_repeated :
    let pkt (k : ℕ) := fullPkt [97] 97 k (decide (k = 2))
    let arrivals : List (NetPkt × AckPkt) := [1, 1, 2].map fun k => (pkt k, ⟨0, 0, false⟩)
    let s := RcvState.init (fullPkt [] 0 0 false)
    ((arrivalsFrom ⟨1, 5⟩ arrivals).foldl (next rcvStep) s).cumSeq = 2 := by
  intro pkt arrivals s
  have hdata : ∀ x ∈ arrivals, ∃ k, Carries (.replicate (2 * pktDtSize) 97) [97] k x.1 := by
    intro x hx
    obtain ⟨k, hk, rfl⟩ := List.mem_map.mp hx
    have hk' : k = 1 ∨ k = 2 := by simpa using hk
    exact ⟨k, carries_fullPkt (by decide) (by decide) 97 (by omega) (by omega)⟩
  have hK : IsGreatest {k | ∀ i, 1 ≤ i → i ≤ k → i ∈ seqs arrivals} 2 := by
    have hseqs : seqs arrivals = [1, 1, 2] := by decide
    rw [hseqs]
    refine ⟨fun i h1 h2 => ?_, fun k hk => ?_⟩
    · simp only [List.mem_cons, List.not_mem_nil, or_false]
      omega
    · by_contra hlt
      simpa using hk 3 (by omega) (by omega)
  exact ((selective_repeat_iff (fullPkt [] 0 0 false) [] ⟨1, 5⟩ (.replicate (2 * pktDtSize) 97)
    [97] rfl (.inl rfl) arrivals hdata 2 hK).mpr (by decide)).1

/-- Packet 2 arrives within the window, then packet 1: both have arrived, and
the receiver stands at 1. -/
theorem early_packet_lost :
    let pkt (k : ℕ) := fullPkt [97] 97 k (decide (k = 2))
    let arrivals : List (NetPkt × AckPkt) := [2, 1].map fun k => (pkt k, ⟨0, 0, false⟩)
    let s := RcvState.init (fullPkt [] 0 0 false)
    (∀ x ∈ arrivals, (∃ k, Carries (.replicate (2 * pktDtSize) 97) [97] k x.1) ∧
        0 < x.1.wSize ∧ x.1.seq ≤ s.cumSeq + x.1.wSize) ∧
      IsGreatest {k | ∀ i, 1 ≤ i → i ≤ k → i ∈ seqs arrivals} 2 ∧
      ((arrivalsFrom ⟨1, 5⟩ arrivals).foldl (next rcvStep) s).cumSeq = 1 := by
  intro pkt arrivals s
  refine ⟨fun x hx => ?_, ⟨fun i h1 h2 => ?_, fun k hk => ?_⟩, by decide⟩
  · obtain ⟨k, hk, rfl⟩ := List.mem_map.mp hx
    have hk' : k = 2 ∨ k = 1 := by simpa using hk
    refine ⟨⟨k, carries_fullPkt (by decide) (by decide) 97 (by omega) (by omega)⟩,
      show (0 : ℤ) < lWSize by decide, ?_⟩
    show (k : ℤ) ≤ 0 + 10
    omega
  · have hseqs : seqs arrivals = [2, 1] := by decide
    rw [hseqs]
    simp only [List.mem_cons, List.not_mem_nil, or_false]
    omega
  · have hseqs : seqs arrivals = [2, 1] := by decide
    rw [hseqs] at hk
    by_contra hlt
    simpa using hk 3 (by omega) (by omega)

end Wan.Proj1
