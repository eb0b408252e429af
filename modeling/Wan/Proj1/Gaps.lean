import Wan.Proj1.SelectiveRepeat
import Wan.Proj1.Fresh

/-!
# Which gaps are reported

The first early packet makes the receiver ask for every number between the last
one in order and its own. From then on the window holds a pointer to the receive
buffer, which reads as whatever arrived last, so every further early packet is
taken for one already buffered and nothing is asked for.
-/

namespace Wan.Proj1

open Posix Lib

variable {c : RcvCore} {src : Bytes} {f : Fname} {a : SockaddrIn} {k j : ℕ}

def RcvEffect.isNack : RcvEffect → Bool
  | .sendto _ q => q.isNack
  | _ => false

def nackFor (a : SockaddrIn) (wSize : ℤ) (s : ℕ) : RcvEffect :=
  .sendto a { cumSeq := s, dataSize := wSize.bmod (2 ^ 32), isNack := true }

def highest (received : List ℕ) : ℕ := received.foldr max 0

/-- The numbers above `cum` and below the highest one received that have not been
received, in ascending order. -/
def missing (cum : ℕ) (received : List ℕ) : List ℕ :=
  (List.range' (cum + 1) (highest received - (cum + 1))).filter (· ∉ received)

theorem highest_append_of_le {received : List ℕ} (h : ∀ i ∈ received, i ≤ j) :
    highest (received ++ [j]) = j := by
  induction received with
  | nil => exact max_eq_left (Nat.zero_le j)
  | cons i is ih =>
    have hmax : highest (i :: is ++ [j]) = max i (highest (is ++ [j])) := rfl
    rw [hmax, ih fun i' hi' => h i' (List.mem_cons_of_mem _ hi')]
    exact max_eq_right (h i List.mem_cons_self)

theorem missing_of_le {received : List ℕ} (h : ∀ i ∈ received, i ≤ k) (hj : k < j) :
    missing k (received ++ [j]) = List.range' (k + 1) (j - (k + 1)) := by
  rw [missing, highest_append_of_le fun i hi => (h i hi).trans hj.le]
  refine List.filter_eq_self.mpr fun i hi => ?_
  rw [List.mem_range'_1] at hi
  have hnot : i ∉ received ++ [j] := by
    intro hm
    rcases List.mem_append.mp hm with hm | hm
    · have := h i hm
      omega
    · have := List.mem_singleton.mp hm
      omega
  simpa using hnot

theorem nacks_eq_map {w : ℤ} {lo hi : ℕ} :
    nacks w a lo hi = (List.range' (lo + 1) (hi - (lo + 1))).map (nackFor a w) := by
  have hlen : ((hi : ℤ) - (lo + 1)).toNat = hi - (lo + 1) := by omega
  rw [nacks, hlen, List.range'_eq_map_range, List.map_map]
  refine List.map_congr_left fun i _ => ?_
  simp [nackFor]

theorem filter_isNack_nacks {w lo hi : ℤ} :
    (nacks w a lo hi).filter RcvEffect.isNack = nacks w a lo hi := by
  refine List.filter_eq_self.mpr fun o ho => ?_
  obtain ⟨i, -, rfl⟩ := List.mem_map.mp ho
  rfl

theorem settled_of_ok {s : RcvState} (hok : s.core.Ok) : s.Settled where
  idle hs := ⟨(hok.idle hs).1, (hok.idle hs).2.1⟩
  closed hd := by
    have hstart : s.core.rcvStart = true := by
      by_contra hs
      have hidle : s.done = false := (hok.idle (by simpa using hs)).2.1
      simp [hidle] at hd
    exact (hok.closed hstart).mpr hd

theorem window_run {s : RcvState} (hok : s.core.Ok) (es : List RcvEvent) :
    (es.foldl (next rcvStep) s).window = [] ↔
      s.window = [] ∧ Along (next rcvStep) NotBuffered s es :=
  flag_iff_along (I := fun s : RcvState => s.core.Ok) (F := fun s => s.window = [])
    (fun _ e h => next_ok h e) (fun _ e h => window_next (settled_of_ok h) e) hok es

theorem seqs_le_of_notBuffered {s : RcvState} (hok : s.core.Ok) (h : InTransfer a src f s.core k)
    {arrivals : List (NetPkt × AckPkt)} (hdata : ∀ x ∈ arrivals, ∃ j, Carries src f j x.1)
    (hb : Along (next rcvStep) NotBuffered s (arrivalsFrom a arrivals)) :
    ∀ i ∈ seqs arrivals, i ≤ (seqs arrivals).foldl advance k := by
  induction arrivals generalizing s k with
  | nil => simp [seqs]
  | cons x xs ih =>
    obtain ⟨j, hj⟩ := hdata x List.mem_cons_self
    have hseq : x.1.seq.toNat = j := by simp [hj.seq]
    have hnext : InTransfer a src f (next rcvStep s (.datagram a x.1 x.2)).core (advance k j) := by
      rw [next_core hok]
      exact .inr (h.recv hj x.2).1
    have hturn : j ≤ advance k j := by
      have hcum : s.cumSeq = k := h.cumSeq
      have hjs := hj.seq
      have hw := hj.wSize
      have hle := le_advance k j
      rcases hb.1 h.admitted with hs | hs
      · by_cases he : j = k + 1
        · rw [advance, if_pos he]
          exact he.le
        · omega
      · omega
    intro i hi
    simp only [seqs, List.map_cons, List.foldl_cons, hseq] at hi ⊢
    rcases List.mem_cons.mp hi with rfl | hi
    · exact hturn.trans (le_foldl_advance _ _)
    · exact ih (next_ok hok _) hnext (fun y hy => hdata y (List.mem_cons_of_mem _ hy)) hb.2 i hi

/-- What is asked for at an early packet depends on the window alone. -/
theorem InTransfer.early (h : InTransfer a src f c k) {p : NetPkt} (hp : Carries src f j p)
    (hj : k + 1 < j) (junk : AckPkt) :
    (coreRecv c a p junk).2.filter RcvEffect.isNack =
      if c.window = [] then nacks p.wSize a k j else [] := by
  obtain ⟨d, hd, hwin, heq⟩ := h.coreRecv_eq hp junk
  have hcum := hd.cumSeq
  have hseq := hp.seq
  have hearly : d.cumSeq + 1 < p.seq := by omega
  have hopen :
      (if c.rcvStart then [] else [RcvEffect.openFile f]).filter RcvEffect.isNack = [] := by
    split_ifs <;> rfl
  rw [heq, List.filter_append, hopen, List.nil_append, ← hwin]
  split_ifs with hw
  · rw [coreReceive_buffer hearly hw hp.wSize, filter_isNack_nacks, hcum, hseq]
  · rw [coreReceive_drop hearly (.inl hw)]
    rfl

/-- At an early packet, whether or not it has arrived before, the receiver asks for exactly
the numbers missing below the highest one received when its window is empty; and
otherwise for none, which is right only when none is missing. -/
theorem gap_nacks_iff (buf : NetPkt) (past : List RcvEvent) (a : SockaddrIn) (src : Bytes)
    (f : Fname)
    (hidle : (past.foldl (next rcvStep) (.init buf)).rcvStart = false)
    (hnext : (past.foldl (next rcvStep) (.init buf)).senderQ = [] ∨
      (past.foldl (next rcvStep) (.init buf)).senderQ.head? = some a)
    (arrivals : List (NetPkt × AckPkt)) (hdata : ∀ x ∈ arrivals, ∃ k, Carries src f k x.1)
    (pkt : NetPkt) (junk : AckPkt) (hpkt : ∃ k, Carries src f k pkt)
    (hearly : ((past ++ arrivalsFrom a arrivals).foldl (next rcvStep) (.init buf)).cumSeq + 1 <
      pkt.seq) :
    let s := (past ++ arrivalsFrom a arrivals).foldl (next rcvStep) (.init buf)
    let asked := missing s.cumSeq.toNat (seqs arrivals ++ [pkt.seq.toNat])
    (rcvStep s (.datagram a pkt junk)).2.filter RcvEffect.isNack =
        asked.map (nackFor a pkt.wSize) ↔
      s.window = [] ∨ asked = [] := by
  have hok : (past.foldl (next rcvStep) (.init buf)).core.Ok :=
    (rcv_run_core (RcvCore.ok_init buf) past).2.2
  rw [List.foldl_append] at hearly ⊢
  generalize past.foldl (next rcvStep) (.init buf) = r at hidle hnext hok hearly ⊢
  have hstart : InTransfer a src f r.core 0 := .inl ⟨⟨hnext, hidle, hok⟩, rfl⟩
  obtain ⟨hcore, -, hsok⟩ := rcv_run_core hok (arrivalsFrom a arrivals)
  have hin := (hstart.run hdata).1
  rw [← hcore] at hin
  have hturn : ((arrivalsFrom a arrivals).foldl (next rcvStep) r).window = [] →
      ∀ i ∈ seqs arrivals, i ≤ inOrder (seqs arrivals) :=
    fun hw => seqs_le_of_notBuffered hok hstart hdata ((window_run hok _).mp hw).2
  intro s
  obtain ⟨j, hj⟩ := hpkt
  have hcum : s.cumSeq = inOrder (seqs arrivals) := hin.cumSeq
  have hseq : pkt.seq.toNat = j := by simp [hj.seq]
  have hlt : inOrder (seqs arrivals) + 1 < j := by
    have : s.cumSeq + 1 < pkt.seq := hearly
    rw [hcum, hj.seq] at this
    exact_mod_cast this
  rw [out_core hsok, hcum, Int.toNat_natCast, hseq]
  have hsent := hin.early hj hlt junk
  have hwin : s.core.window = s.window := rfl
  by_cases hw : s.window = []
  · rw [if_pos (hwin.trans hw), nacks_eq_map] at hsent
    refine iff_of_true ?_ (.inl hw)
    rw [missing_of_le (hturn hw) (by omega)]
    exact hsent
  · rw [if_neg (hwin ▸ hw)] at hsent
    intro asked
    constructor
    · intro h
      exact .inr (List.map_eq_nil_iff.mp (h.symm.trans hsent))
    · rintro (h | h)
      · exact absurd h hw
      · rw [h]
        exact hsent

theorem carries_five (k : ℕ) (h1 : 1 ≤ k) (h5 : k ≤ 5) : Carries (.replicate (5 * pktDtSize) 97)
    [97] k (fullPkt [97] 97 k (decide (k = 5))) :=
  carries_fullPkt (by decide) (by decide) 97 h1 h5

/-- Of a file of five chunks, packet 4 arrives after packet 1. -/
theorem gap_nacks_first :
    let pkt (k : ℕ) := fullPkt [97] 97 k (decide (k = 5))
    let s := next rcvStep (.init (fullPkt [] 0 0 false)) (.datagram ⟨1, 5⟩ (pkt 1) ⟨0, 0, false⟩)
    (rcvStep s (.datagram ⟨1, 5⟩ (pkt 4) ⟨0, 0, false⟩)).2.filter RcvEffect.isNack =
      [nackFor ⟨1, 5⟩ lWSize 2, nackFor ⟨1, 5⟩ lWSize 3] := by
  intro pkt s
  exact (gap_nacks_iff (fullPkt [] 0 0 false) [] ⟨1, 5⟩ (.replicate (5 * pktDtSize) 97) [97] rfl
    (.inl rfl) [(pkt 1, ⟨0, 0, false⟩)]
    (fun x hx => ⟨1, List.mem_singleton.mp hx ▸ carries_five 1 (by decide) (by decide)⟩) (pkt 4)
    ⟨0, 0, false⟩ ⟨4, carries_five 4 (by decide) (by decide)⟩ (by decide)).mpr (.inl (by decide))

/-- Packets 1, 3 and 5 arrive, in that order and within the sender's window. The
arrival of 5 asks for nothing, though 2 and 4 are missing. -/
theorem second_gap_not_asked_for :
    let pkt (k : ℕ) := fullPkt [97] 97 k (decide (k = 5))
    let arrivals : List (NetPkt × AckPkt) := [1, 3].map fun k => (pkt k, ⟨0, 0, false⟩)
    let s := (arrivalsFrom ⟨1, 5⟩ arrivals).foldl (next rcvStep) (.init (fullPkt [] 0 0 false))
    s.cumSeq + 1 < (pkt 5).seq ∧ (pkt 5).seq ≤ s.cumSeq + (pkt 5).wSize ∧ 5 ∉ seqs arrivals ∧
      (rcvStep s (.datagram ⟨1, 5⟩ (pkt 5) ⟨0, 0, false⟩)).2 = [] ∧
      missing s.cumSeq.toNat (seqs arrivals ++ [5]) = [2, 4] := by
  decide +kernel

end Wan.Proj1
