import Wan.Lib.Jumps
import Wan.Proj2.UdpStream

/-!
# The receiver of the test traffic (udp_stream_rcv.cpp)

`udp_stream_rcv` reads every datagram into the same packet and keeps four figures: how
many came, how many did not follow their predecessor, the last number, and the longest
one-way delay. The first three are `int`s. Delays are exact fractions of a millisecond.
When it reports is up to the events.
-/

namespace Wan.Proj2

open Posix Lib

abbrev streamPktLen : ℕ := 1312

-- ---------------------------------------------------------------------------
-- The packet on the wire
-- ---------------------------------------------------------------------------

def StreamPkt.fields (p : StreamPkt) : List Bytes :=
  [leBytes 4 p.seq, leBytes 4 p.tsSec, leBytes 4 p.tsUsec, p.data.toList]

def StreamPkt.image (p : StreamPkt) : CharArray streamPktLen :=
  ⟨p.fields.flatten, by simp [StreamPkt.fields, length_leBytes, streamPktLen, maxDataLen]⟩

def StreamPkt.ofImage (b : CharArray streamPktLen) : StreamPkt where
  seq := leInt (slice b.toList 0 4)
  tsSec := leInt (slice b.toList 4 4)
  tsUsec := leInt (slice b.toList 8 4)
  data := ⟨slice b.toList 12 maxDataLen, by simp [slice, streamPktLen]⟩

structure StreamPkt.InRange (p : StreamPkt) : Prop where
  seq : toInt p.seq = p.seq
  tsSec : toInt p.tsSec = p.tsSec
  tsUsec : toInt p.tsUsec = p.tsUsec

theorem StreamPkt.ofImage_image {p : StreamPkt} (h : p.InRange) : ofImage p.image = p := by
  have hfield (i : ℕ) (x : ℤ) (off : ℕ) (hi : p.fields[i]? = some (leBytes 4 x))
      (hoff : ((p.fields.take i).map List.length).sum = off) (hx : toInt x = x) :
      leInt (slice p.image.toList off 4) = x := by
    have hslice : slice p.image.toList off 4 = leBytes 4 x :=
      slice_flatten i hi hoff (length_leBytes ..)
    rw [hslice, leInt_leBytes]
    exact hx
  have hseq := hfield 0 p.seq 0 rfl rfl h.seq
  have hsec := hfield 1 p.tsSec 4 rfl (by simp [fields, length_leBytes]) h.tsSec
  have husec := hfield 2 p.tsUsec 8 rfl (by simp [fields, length_leBytes]) h.tsUsec
  have hdata : (ofImage p.image).data = p.data :=
    List.Vector.toList_injective
      (slice_flatten 3 rfl (by simp [fields, length_leBytes]) (List.Vector.toList_length _))
  calc ofImage p.image = ⟨p.seq, p.tsSec, p.tsUsec, (ofImage p.image).data⟩ := by
        rw [← hseq, ← hsec, ← husec]
        rfl
    _ = p := by rw [hdata]

-- ---------------------------------------------------------------------------
-- The receiver
-- ---------------------------------------------------------------------------

structure StreamRcvState where
  rcvPkt : CharArray streamPktLen
  rcvdCount : ℤ
  outOfOrderCount : ℤ
  lastRcvd : ℤ
  maxOneway : ℚ
  startTs : Timeval
  exited : Bool

def StreamRcvState.init (memory : CharArray streamPktLen) : StreamRcvState where
  rcvPkt := memory
  rcvdCount := 0
  outOfOrderCount := 0
  lastRcvd := 0
  maxOneway := 0
  startTs := ⟨0, 0⟩
  exited := false

inductive StreamRcvEvent
  /-- A datagram, and the clock for `start_ts` and for `now`. -/
  | recv (bytes : Bytes) (start now : Timeval)
  | timeout (now : Timeval)

structure StreamReport where
  duration : ℤ
  rcvdCount : ℤ
  outOfOrderCount : ℤ
  lastRcvd : ℤ
  maxOneway : ℚ

def nextInt (x : ℤ) : ℤ := toInt (x + 1)

def oneway (p : StreamPkt) (now : Timeval) : ℚ :=
  (now.tvSec - p.tsSec) * 1000 + (now.tvUsec - p.tsUsec) / 1000

def StreamRcvState.read (s : StreamRcvState) (bytes : Bytes) : StreamPkt :=
  .ofImage (s.rcvPkt.memcpy bytes)

def StreamRcvState.enter (s : StreamRcvState) (bytes : Bytes) (start now : Timeval) :
    StreamRcvState :=
  { s with
    rcvPkt := s.rcvPkt.memcpy bytes
    startTs := if s.rcvdCount = 0 then start else s.startTs
    rcvdCount := nextInt s.rcvdCount
    outOfOrderCount :=
      if (s.read bytes).seq ≠ nextInt s.lastRcvd then nextInt s.outOfOrderCount
      else s.outOfOrderCount
    lastRcvd := (s.read bytes).seq
    maxOneway :=
      if oneway (s.read bytes) now > s.maxOneway ∨ nextInt s.rcvdCount = 1 then
        oneway (s.read bytes) now
      else s.maxOneway }

/-- Without anything received `select` waits for ever, and there is no timeout. -/
def streamRcvStep (s : StreamRcvState) : StreamRcvEvent → StreamRcvState × List StreamReport
  | .recv bytes start now =>
    if s.exited then (s, [])
    else if bytes.length ≤ 0 then ({ s with exited := true }, [])
    else (s.enter bytes start now, [])
  | .timeout now =>
    if s.exited ∨ s.rcvdCount = 0 then (s, [])
    else (s, [⟨duration s.startTs now, s.rcvdCount, s.outOfOrderCount, s.lastRcvd, s.maxOneway⟩])

def entered (s : StreamRcvState) : StreamRcvEvent → List (StreamPkt × Timeval)
  | .recv bytes _ now => if s.exited ∨ bytes.length ≤ 0 then [] else [(s.read bytes, now)]
  | .timeout _ => []

def packetsRead (memory : CharArray streamPktLen) (es : List StreamRcvEvent) :
    List (StreamPkt × Timeval) :=
  gather (next streamRcvStep) entered (.init memory) es

variable {s : StreamRcvState} {e : StreamRcvEvent} {ps : List (StreamPkt × Timeval)}

theorem nextInt_toInt (x : ℤ) : nextInt (toInt x) = toInt (x + 1) := Int.bmod_add_bmod

theorem nextInt_eq {x : ℤ} (hlo : -2 ^ 31 ≤ x) (hhi : x + 1 < 2 ^ 31) : nextInt x = x + 1 :=
  toInt_eq (by omega) hhi

theorem nextInt_iterate (n : ℕ) : nextInt^[n] 0 = toInt n := by
  induction n with
  | zero => rfl
  | succ n ih =>
    rw [Function.iterate_succ_apply', ih, nextInt_toInt]
    rfl

structure Figures (ps : List (StreamPkt × Timeval)) (s : StreamRcvState) : Prop where
  rcvdCount : s.rcvdCount = toInt ps.length
  outOfOrderCount : s.outOfOrderCount = toInt (jumps nextInt 0 (ps.map (·.1.seq)))
  lastRcvd : s.lastRcvd = (ps.map (·.1.seq)).getLast?.getD 0
  range : ∀ q ∈ ps, IntRange q.1.seq
  le_maxOneway : ps.length < 2 ^ 31 → ∀ q ∈ ps, oneway q.1 q.2 ≤ s.maxOneway
  maxOneway_mem : ps ≠ [] → ∃ q ∈ ps, s.maxOneway = oneway q.1 q.2

theorem figures_init (memory : CharArray streamPktLen) : Figures [] (.init memory) where
  rcvdCount := rfl
  outOfOrderCount := rfl
  lastRcvd := rfl
  range := fun _ hq => absurd hq List.not_mem_nil
  le_maxOneway := fun _ _ hq => absurd hq List.not_mem_nil
  maxOneway_mem := fun h => absurd rfl h

theorem streamRcvStep_cases {motive : StreamRcvState → List (StreamPkt × Timeval) → Prop}
    (same : ∀ x, motive { s with exited := x } [])
    (read : ∀ bytes start now, e = .recv bytes start now → s.exited = false → bytes ≠ [] →
      motive (s.enter bytes start now) [(s.read bytes, now)]) :
    motive (next streamRcvStep s e) (entered s e) := by
  cases e with
  | timeout now =>
    have hsame : next streamRcvStep s (.timeout now) = s := by
      simp only [next, streamRcvStep]
      split_ifs <;> rfl
    rw [hsame]
    exact same s.exited
  | recv bytes start now =>
    by_cases hx : s.exited = true
    · have hsame : next streamRcvStep s (.recv bytes start now) = s := by
        simp only [next, streamRcvStep, if_pos hx]
      rw [hsame, entered, if_pos (.inl hx)]
      exact same s.exited
    · by_cases hempty : bytes.length ≤ 0
      · simp only [next, streamRcvStep, if_neg hx, if_pos hempty, entered, if_pos (Or.inr hempty)]
        exact same true
      · simp only [next, streamRcvStep, if_neg hx, if_neg hempty, entered]
        rw [if_neg (by simp [hx, hempty])]
        refine read bytes start now rfl (by simpa using hx) ?_
        rintro rfl
        exact hempty le_rfl

theorem StreamPkt.ofImage_range (b : CharArray streamPktLen) : IntRange (ofImage b).seq := by
  have hlen : (slice b.toList 0 4).length = 4 := by simp [slice, streamPktLen]
  show IntRange (leInt (slice b.toList 0 4))
  rw [leInt, hlen]
  exact toInt_range _

/-- Among fewer than 2^31 packets only the first one makes the count 1. -/
theorem Figures.first (h : Figures ps s) (hlen : ps.length + 1 < 2 ^ 31)
    (hone : nextInt s.rcvdCount = 1) : ps = [] := by
  rw [h.rcvdCount, nextInt_toInt, toInt_eq (by omega) (by omega)] at hone
  exact List.eq_nil_of_length_eq_zero (by omega)

theorem Figures.enter (h : Figures ps s) (bytes : Bytes) (start now : Timeval) :
    Figures (ps ++ [(s.read bytes, now)]) (s.enter bytes start now) := by
  obtain ⟨p, hp⟩ : ∃ p, s.read bytes = p := ⟨_, rfl⟩
  obtain ⟨t, ht⟩ : ∃ t, s.enter bytes start now = t := ⟨_, rfl⟩
  have hmax : t.maxOneway =
      if oneway p now > s.maxOneway ∨ nextInt s.rcvdCount = 1 then oneway p now
      else s.maxOneway := by
    rw [← ht, ← hp]
    rfl
  rw [ht, hp]
  refine ⟨?_, ?_, ?_, ?_, ?_, fun _ => ?_⟩
  · rw [← ht, List.length_append, Nat.cast_add]
    show nextInt s.rcvdCount = _
    rw [h.rcvdCount, nextInt_toInt]
    rfl
  · have hout : t.outOfOrderCount =
        if p.seq = nextInt s.lastRcvd then s.outOfOrderCount else nextInt s.outOfOrderCount := by
      rw [← ht, ← hp]
      exact ite_not ..
    rw [List.map_append, List.map_singleton, jumps_concat, ← h.lastRcvd, hout]
    split_ifs with hnext
    · rw [Nat.add_zero]
      exact h.outOfOrderCount
    · rw [h.outOfOrderCount, nextInt_toInt]
      rfl
  · rw [← ht, ← hp]
    simp [StreamRcvState.enter]
  · intro q hq
    rcases List.mem_append.mp hq with hq | hq
    · exact h.range q hq
    · rw [List.mem_singleton.mp hq, ← hp]
      exact StreamPkt.ofImage_range _
  · intro hlen q hq
    rw [List.length_append, List.length_singleton] at hlen
    rw [hmax]
    rcases List.mem_append.mp hq with hq | hq
    · have hle := h.le_maxOneway (by omega) q hq
      split_ifs with hrepl
      · rcases hrepl with hgt | hone
        · exact hle.trans hgt.le
        · rw [h.first hlen hone] at hq
          exact absurd hq List.not_mem_nil
      · exact hle
    · rw [List.mem_singleton.mp hq]
      split_ifs with hrepl
      · exact le_rfl
      · exact not_lt.mp fun hgt => hrepl (.inl hgt)
  · rw [hmax]
    split_ifs with hrepl
    · exact ⟨(p, now), by simp, rfl⟩
    · have hps : ps ≠ [] := by
        rintro rfl
        refine hrepl (.inr ?_)
        rw [h.rcvdCount]
        rfl
      obtain ⟨q, hq, hval⟩ := h.maxOneway_mem hps
      exact ⟨q, List.mem_append_left _ hq, hval⟩

theorem Figures.step (h : Figures ps s) (e : StreamRcvEvent) :
    Figures (ps ++ entered s e) (next streamRcvStep s e) := by
  refine streamRcvStep_cases (e := e) (motive := fun t qs => Figures (ps ++ qs) t) (fun x => ?_) ?_
  · rw [List.append_nil]
    exact ⟨h.rcvdCount, h.outOfOrderCount, h.lastRcvd, h.range, h.le_maxOneway, h.maxOneway_mem⟩
  · exact fun bytes start now _ _ _ => h.enter bytes start now

theorem figures_run (memory : CharArray streamPktLen) (es : List StreamRcvEvent) :
    Figures (packetsRead memory es) (es.foldl (next streamRcvStep) (.init memory)) := by
  have hrun : Along (next streamRcvStep) (fun _ _ => True) (.init memory) es := along_trivial
  refine hrun.inv_history (J := fun past t => t = past.foldl (next streamRcvStep) (.init memory) ∧
    Figures (packetsRead memory past) t) ⟨rfl, figures_init memory⟩ (fun past t e h _ => ?_) |>.2
  obtain ⟨rfl, h⟩ := h
  refine ⟨by rw [List.foldl_append]; rfl, ?_⟩
  rw [packetsRead, gather_concat]
  exact h.step e

theorem Figures.seq_lt (h : Figures ps s) {k : ℤ} (hk : k ∈ ps.map (·.1.seq)) : k < 2 ^ 31 := by
  obtain ⟨q, hq, rfl⟩ := List.mem_map.mp hk
  exact (h.range q hq).2

theorem Figures.lastRcvd_lt (h : Figures ps s) : s.lastRcvd < 2 ^ 31 := by
  rw [h.lastRcvd]
  cases hlast : (ps.map (·.1.seq)).getLast? with
  | none => decide
  | some k => exact h.seq_lt (List.mem_of_getLast? hlast)

theorem Figures.rcvdCount_eq (h : Figures ps s) (hlen : ps.length < 2 ^ 31) :
    s.rcvdCount = ps.length := by
  rw [h.rcvdCount, toInt_eq (by omega) (by omega)]

theorem Figures.outOfOrderCount_eq (h : Figures ps s) (hlen : ps.length < 2 ^ 31) :
    s.outOfOrderCount = jumps nextInt 0 (ps.map (·.1.seq)) := by
  have hle : jumps nextInt 0 (ps.map (·.1.seq)) ≤ _ := jumps_le_length 0 _
  rw [List.length_map] at hle
  rw [h.outOfOrderCount, toInt_eq (by omega) (by omega)]

theorem Figures.increasing (h : Figures ps s) (hinc : (0 :: ps.map (·.1.seq)).Pairwise (· < ·)) :
    ps.length < 2 ^ 31 ∧
      s.outOfOrderCount = (ps.map (·.1.seq)).countP (fun k => k - 1 ∉ 0 :: ps.map (·.1.seq)) ∧
      s.lastRcvd = s.rcvdCount +
        ((Finset.Ioc 0 s.lastRcvd).filter (· ∉ ps.map (·.1.seq))).card := by
  have hmissing := length_add_missing hinc
  have hlast := h.lastRcvd_lt
  rw [sub_zero, ← h.lastRcvd, List.length_map] at hmissing
  have hlen : ps.length < 2 ^ 31 := by omega
  refine ⟨hlen, ?_, ?_⟩
  · rw [h.outOfOrderCount_eq hlen]
    refine congrArg Nat.cast (jumps_eq_countP hinc fun j hj ⟨k, hk, hlt⟩ => ?_)
    have hk' := h.seq_lt hk
    exact nextInt_eq (by omega) (by omega)
  · rw [h.rcvdCount_eq hlen]
    exact hmissing.symm

/-- In every run of the receiver, whatever datagrams it reads: the count is that of the
packets read, as an `int`, and the largest one-way delay is that of a packet read. Of fewer
than 2^31 packets, none is counted as out of order exactly when they were `1, 2, …` in this
order, and no one-way delay is larger. When the numbers read increase from 1 on, those out
of order are the ones whose predecessor did not come, and the last number exceeds the count
by how many are missing below it. -/
theorem stream_rcv_figures (memory : CharArray streamPktLen) (es : List StreamRcvEvent) :
    let ps := packetsRead memory es
    let seqs := ps.map (·.1.seq)
    let s := es.foldl (next streamRcvStep) (.init memory)
    s.rcvdCount = toInt ps.length ∧
      (ps ≠ [] → ∃ q ∈ ps, s.maxOneway = oneway q.1 q.2) ∧
      (ps.length < 2 ^ 31 → s.rcvdCount = ps.length ∧
        (s.outOfOrderCount = 0 ↔ seqs = (List.range ps.length).map fun i : ℕ => 1 + (i : ℤ)) ∧
        ∀ q ∈ ps, oneway q.1 q.2 ≤ s.maxOneway) ∧
      ((0 :: seqs).Pairwise (· < ·) → ps.length < 2 ^ 31 ∧
        s.outOfOrderCount = seqs.countP (fun k => k - 1 ∉ 0 :: seqs) ∧
        s.lastRcvd = s.rcvdCount + ((Finset.Ioc 0 s.lastRcvd).filter (· ∉ seqs)).card) := by
  intro ps seqs s
  have h : Figures ps s := figures_run memory es
  refine ⟨h.rcvdCount, h.maxOneway_mem, fun hlen => ?_, h.increasing⟩
  refine ⟨h.rcvdCount_eq hlen, ?_, h.le_maxOneway hlen⟩
  have hzero : jumps nextInt 0 seqs = 0 ↔ _ := jumps_eq_zero_iff
  rw [h.outOfOrderCount_eq hlen, Int.natCast_eq_zero, hzero, List.length_map]
  have hrow : (List.range ps.length).map (fun i => nextInt^[i + 1] 0) =
      (List.range ps.length).map fun i : ℕ => 1 + (i : ℤ) := by
    refine List.map_congr_left fun i hi => ?_
    have hi := List.mem_range.mp hi
    rw [nextInt_iterate, toInt_eq (by omega) (by omega)]
    omega
  rw [hrow]

end Wan.Proj2
