import Wan.Lib.Run
import Wan.Proj2.Packet

/-!
# The test traffic (udp_stream.cpp)

`udp_stream` numbers its packets from 1 and holds its rate down to `TARGET_RATE`: when
more bits went out than the time since the start allows, it sleeps for the difference.
The program is a machine that moves on with every reading of the clock, and its sleep
is in what the readings are. An `int` that overflows wraps around.
-/

namespace Wan.Proj2

open Posix Lib

structure Timeval where
  tvSec : ℤ
  tvUsec : ℤ
  deriving DecidableEq, Repr

def Timeval.usec (t : Timeval) : ℤ := t.tvSec * 1000000 + t.tvUsec

abbrev maxDataLen : ℕ := 1300
abbrev targetRate : ℤ := 8
abbrev reportSec : ℤ := 5

structure StreamPkt where
  seq : ℤ
  tsSec : ℤ
  tsUsec : ℤ
  data : CharArray maxDataLen
  deriving DecidableEq

/-- `duration` of the main loop and `diff` of `isleep`, before it is cut to an `int`. -/
def duration (start now : Timeval) : ℤ :=
  (now.tvSec - start.tvSec) * 1000000 + (now.tvUsec - start.tvUsec)

/-- `MAX_DATA_LEN * send_pkt.seq * 8`. -/
def bitsSent (seq : ℤ) : ℤ := toInt (maxDataLen * seq * 8)

/-- `rate > TARGET_RATE`, where a division by 0 gives an infinity. The quotient is the
exact one: only 8 itself is rounded to 8. -/
def TooFast (bits duration : ℤ) : Prop :=
  if duration = 0 then 0 < bits else (targetRate : ℚ) < bits / duration

instance (bits duration : ℤ) : Decidable (TooFast bits duration) :=
  inferInstanceAs (Decidable (if duration = 0 then _ else _))

inductive StreamPc
  /-- Of `start_ts`. -/
  | start
  /-- Of `now`, for the next packet. -/
  | pass
  /-- Of `start` in `isleep`. -/
  | sleep (usec : ℤ)
  /-- Of `now` in `isleep`. -/
  | asleep (usec : ℤ) (start : Timeval)
  | returned
  deriving DecidableEq

structure StreamState where
  pc : StreamPc
  sendPkt : StreamPkt
  startTs : Timeval
  nextReport : ℤ

inductive StreamEffect
  | sendto (pkt : StreamPkt)
  /-- `duration` and the number of packets sent. -/
  | report (duration : ℤ) (seq : ℤ)
  deriving DecidableEq

/-- `memory` is what `send_pkt` holds before anything is written to it. -/
def StreamState.init (memory : StreamPkt) : StreamState where
  pc := .start
  sendPkt := memory
  startTs := ⟨0, 0⟩
  nextReport := reportSec * 1000000

def StreamState.nextMsg (numMsgs : ℤ) (s : StreamState) : StreamState :=
  { s with
    sendPkt := { s.sendPkt with seq := toInt (s.sendPkt.seq + 1) }
    pc := if toInt (s.sendPkt.seq + 1) ≤ numMsgs then .pass else .returned }

def StreamState.stamped (s : StreamState) (now : Timeval) : StreamPkt :=
  { s.sendPkt with
    tsSec := toInt now.tvSec
    tsUsec := toInt now.tvUsec
    data := s.sendPkt.data.memcpy (leBytes 4 s.sendPkt.seq) }

def StreamState.sent (s : StreamState) (now : Timeval) : StreamState :=
  { s with
    sendPkt := s.stamped now
    nextReport :=
      if duration s.startTs now > s.nextReport then s.nextReport + reportSec * 1000000
      else s.nextReport }

def intDelay (seq duration : ℤ) : ℤ := toInt ((bitsSent seq).tdiv targetRate - duration)

def streamStep (numMsgs : ℤ) (s : StreamState) (now : Timeval) : StreamState × List StreamEffect :=
  match s.pc with
  | .start =>
    ({ s with
      startTs := now
      sendPkt := { s.sendPkt with seq := 1 }
      pc := if 1 ≤ numMsgs then .pass else .returned }, [])
  | .pass =>
    let elapsed := duration s.startTs now
    let delay := intDelay s.sendPkt.seq elapsed
    (if TooFast (bitsSent s.sendPkt.seq) elapsed ∧ delay > 0
      then { s.sent now with pc := .sleep delay } else (s.sent now).nextMsg numMsgs,
      .sendto (s.stamped now) ::
        if elapsed > s.nextReport then [.report elapsed s.sendPkt.seq] else [])
  | .sleep usec => (if 0 < usec then { s with pc := .asleep usec now } else s.nextMsg numMsgs, [])
  | .asleep usec start =>
    (if toInt (duration start now) < usec then s else s.nextMsg numMsgs, [])
  | .returned => (s, [])

def packetsOf (out : List StreamEffect) : List StreamPkt :=
  out.filterMap fun
    | .sendto p => some p
    | .report _ _ => none

/-- The program after the first `n` readings of the clock, and what it sent. -/
def streamAt (numMsgs : ℤ) (memory : StreamPkt) (clock : ℕ → Timeval) (n : ℕ) : StreamState :=
  ((List.range n).map clock).foldl (next (streamStep numMsgs)) (.init memory)

def streamSent (numMsgs : ℤ) (memory : StreamPkt) (clock : ℕ → Timeval) (n : ℕ) : List StreamPkt :=
  packetsOf (trace (streamStep numMsgs) (.init memory) ((List.range n).map clock))

/-- The last number whose count of bits an `int` can hold. -/
abbrev pacedMsgs : ℤ := 206488

abbrev unpacedMsgs : ℤ := 412977

variable {numMsgs t₀ now seq elapsed : ℤ} {count : ℕ} {s : StreamState} {reading : Timeval}
  {memory : StreamPkt} {clock : ℕ → Timeval}

-- ---------------------------------------------------------------------------
-- Bits and times
-- ---------------------------------------------------------------------------

theorem duration_eq (start now : Timeval) : duration start now = now.usec - start.usec := by
  rw [duration, Timeval.usec, Timeval.usec]
  ring

theorem bitsSent_eq (h0 : 0 ≤ seq) (h : seq ≤ pacedMsgs) : bitsSent seq = 10400 * seq := by
  have hle : seq ≤ 206488 := h
  have hmul : (maxDataLen : ℤ) * seq * 8 = 10400 * seq := by
    simp only [Nat.cast_ofNat]
    ring
  rw [bitsSent, hmul]
  exact toInt_eq (by omega) (by omega)

theorem bitsSent_neg (h0 : pacedMsgs < seq) (h : seq ≤ unpacedMsgs) : bitsSent seq < 0 := by
  have hlo : 206488 < seq := h0
  have hhi : seq ≤ 412977 := h
  have hmul : (maxDataLen : ℤ) * seq * 8 = 10400 * seq := by
    simp only [Nat.cast_ofNat]
    ring
  have hwrap : 10400 * seq % 4294967296 = 10400 * seq := Int.emod_eq_of_lt (by omega) (by omega)
  rw [bitsSent, hmul, toInt, Int.bmod_def]
  push_cast
  rw [hwrap, if_neg (by omega)]
  omega

theorem bitsSent_lt (seq : ℤ) : bitsSent seq < 2 ^ 31 := by
  have h : (maxDataLen * seq * 8 : ℤ).bmod (2 ^ 32) < ((2 ^ 32 : ℕ) + 1) / 2 :=
    Int.bmod_lt (by decide)
  exact h.trans_le (by decide)

theorem tooFast_iff {bits : ℤ} (h : 0 ≤ elapsed) : TooFast bits elapsed ↔ 8 * elapsed < bits := by
  rw [TooFast]
  split_ifs with h0
  · rw [h0, mul_zero]
  · have hpos : (0 : ℚ) < elapsed := by exact_mod_cast h.lt_of_ne' h0
    rw [lt_div_iff₀ hpos]
    exact_mod_cast Iff.rfl

theorem intDelay_of_tooFast (h : 0 ≤ elapsed) (hfast : TooFast (bitsSent seq) elapsed) :
    intDelay seq elapsed = bitsSent seq / 8 - elapsed := by
  have hlt := (tooFast_iff h).mp hfast
  have hbits := bitsSent_lt seq
  rw [intDelay, Int.tdiv_eq_ediv_of_nonneg (by omega)]
  show toInt (bitsSent seq / 8 - elapsed) = _
  exact toInt_eq (by omega) (by omega)

theorem intDelay_le (h : 0 ≤ elapsed) (hfast : TooFast (bitsSent seq) elapsed) :
    intDelay seq elapsed ≤ 2 ^ 28 := by
  have hbits := bitsSent_lt seq
  rw [intDelay_of_tooFast h hfast]
  omega

theorem intDelay_eq (h : 0 ≤ elapsed) (h0 : 0 ≤ seq) (hseq : seq ≤ pacedMsgs)
    (hfast : TooFast (bitsSent seq) elapsed) : intDelay seq elapsed = 1300 * seq - elapsed := by
  rw [intDelay_of_tooFast h hfast, bitsSent_eq h0 hseq]
  omega

-- ---------------------------------------------------------------------------
-- The rate
-- ---------------------------------------------------------------------------

def Due (t₀ now : ℤ) (count : ℕ) : Prop := count ≤ pacedMsgs → t₀ + 1300 * count ≤ now

/-- Where the program stands between two readings of the clock, with `count` packets
sent since the reading `t₀`: the sleep it is in lasts until the next packet is due. -/
inductive Paced (numMsgs t₀ now : ℤ) (count : ℕ) : StreamPc → ℤ → Prop
  | pass (more : count + 1 ≤ numMsgs) (due : Due t₀ now count) :
      Paced numMsgs t₀ now count .pass (count + 1)
  | sleep {usec : ℤ} (last : count ≤ numMsgs) (due : Due t₀ (now + usec) count)
      (paced : pacedMsgs < count → unpacedMsgs < count) (hpos : 0 < usec) (hle : usec ≤ 2 ^ 28) :
      Paced numMsgs t₀ now count (.sleep usec) count
  | asleep {usec : ℤ} {start : Timeval} (last : count ≤ numMsgs)
      (due : Due t₀ (start.usec + usec) count) (paced : pacedMsgs < count → unpacedMsgs < count)
      (hle : start.usec ≤ now) :
      Paced numMsgs t₀ now count (.asleep usec start) count
  | returned {seq : ℤ} (all : numMsgs.toNat = count) : Paced numMsgs t₀ now count .returned seq

theorem Due.mono {now' : ℤ} (h : Due t₀ now count) (hle : now ≤ now') : Due t₀ now' count :=
  fun hc => (h hc).trans hle

theorem Paced.nextMsg (hnum : numMsgs < 2 ^ 31 - 1) (hseq : s.sendPkt.seq = count)
    (hlast : count ≤ numMsgs) (hdue : Due t₀ now count) :
    Paced numMsgs t₀ now count (s.nextMsg numMsgs).pc (s.nextMsg numMsgs).sendPkt.seq := by
  have hnext : toInt (s.sendPkt.seq + 1) = count + 1 := by
    rw [hseq]
    exact toInt_eq (by omega) (by omega)
  simp only [StreamState.nextMsg, hnext]
  split_ifs with hmore
  · exact .pass hmore hdue
  · exact .returned (by omega)

@[simp] theorem seq_sent (s : StreamState) (now : Timeval) :
    (s.sent now).sendPkt.seq = s.sendPkt.seq := rfl

@[simp] theorem packetsOf_pass (p : StreamPkt) (due : Prop) [Decidable due] (r : StreamEffect)
    (hr : ∀ q, r ≠ .sendto q) : packetsOf (.sendto p :: if due then [r] else []) = [p] := by
  cases r with
  | sendto q => exact absurd rfl (hr q)
  | report elapsed seq => split_ifs <;> rfl

theorem paced_pass (hseq : s.sendPkt.seq = count + 1) (hlast : count + 1 ≤ numMsgs)
    (hnum : numMsgs < 2 ^ 31 - 1) (h0 : s.startTs.usec ≤ reading.usec) (hpc : s.pc = .pass) :
    Paced numMsgs s.startTs.usec reading.usec (count + 1) (next (streamStep numMsgs) s reading).pc
      (next (streamStep numMsgs) s reading).sendPkt.seq := by
  obtain ⟨elapsed, helapsed⟩ : ∃ elapsed, duration s.startTs reading = elapsed := ⟨_, rfl⟩
  have hsince : elapsed = reading.usec - s.startTs.usec := by rw [← helapsed, duration_eq]
  have hnn : 0 ≤ elapsed := by omega
  simp only [next, streamStep, hpc, helapsed, hseq]
  split_ifs with hsleep
  · obtain ⟨hfast, hpos⟩ := hsleep
    have hnow : (s.sent reading).sendPkt.seq = ((count + 1 : ℕ) : ℤ) := by
      rw [seq_sent, hseq]
      push_cast
      rfl
    rw [hnow]
    refine .sleep (by exact_mod_cast hlast) (fun hle => ?_) (fun hgt => ?_) hpos
      (intDelay_le hnn hfast)
    · rw [Nat.cast_add_one] at hle ⊢
      rw [intDelay_eq hnn (by omega) hle hfast]
      omega
    · by_contra hle
      rw [Nat.cast_add_one] at hgt hle
      have hneg : bitsSent (count + 1) < 0 := bitsSent_neg hgt (not_lt.mp hle)
      have hlt := (tooFast_iff hnn).mp hfast
      linarith only [hlt, hneg, hnn]
  · refine Paced.nextMsg hnum (by simp [hseq]) (by exact_mod_cast hlast) ?_
    intro hle
    rw [Nat.cast_add_one] at hle ⊢
    by_contra hearly
    have hfast : TooFast (bitsSent (count + 1)) elapsed := by
      rw [tooFast_iff hnn, bitsSent_eq (by omega) hle]
      omega
    refine hsleep ⟨hfast, ?_⟩
    rw [intDelay_eq hnn (by omega) hle hfast]
    omega

theorem Paced.step (hnum : numMsgs < 2 ^ 31 - 1)
    (h : Paced numMsgs s.startTs.usec now count s.pc s.sendPkt.seq)
    (h0 : s.startTs.usec ≤ now) (hle : now ≤ reading.usec) :
    (next (streamStep numMsgs) s reading).startTs = s.startTs ∧
      Paced numMsgs s.startTs.usec reading.usec
        (count + (packetsOf (streamStep numMsgs s reading).2).length)
        (next (streamStep numMsgs) s reading).pc
        (next (streamStep numMsgs) s reading).sendPkt.seq := by
  generalize hpc : s.pc = pc at h
  generalize hseq : s.sendPkt.seq = seq at h
  cases h with
  | pass more due =>
    have hnext := paced_pass hseq more hnum (h0.trans hle) hpc
    refine ⟨?_, ?_⟩
    · simp only [next, streamStep, hpc]
      split_ifs <;> rfl
    · have hout : packetsOf (streamStep numMsgs s reading).2 = [s.stamped reading] := by
        simp [streamStep, hpc]
      rw [hout]
      exact hnext
  | sleep last due paced hpos hle' =>
    simp only [next, streamStep, hpc, if_pos hpos]
    exact ⟨trivial, hseq ▸ .asleep last (due.mono (by omega)) paced le_rfl⟩
  | @asleep usec start last due paced hstart =>
    simp only [next, streamStep, hpc]
    split_ifs with hearly
    · rw [hpc, hseq]
      exact ⟨rfl, .asleep last due paced (hstart.trans hle)⟩
    · refine ⟨rfl, Paced.nextMsg hnum hseq last (due.mono ?_)⟩
      have hcut := toInt_le (x := duration start reading) (by rw [duration_eq]; omega)
      rw [duration_eq] at hearly hcut
      omega
  | returned all =>
    simp only [next, streamStep, hpc]
    exact ⟨trivial, .returned all⟩

-- ---------------------------------------------------------------------------
-- Runs
-- ---------------------------------------------------------------------------

theorem streamAt_succ (numMsgs : ℤ) (memory : StreamPkt) (clock : ℕ → Timeval) (n : ℕ) :
    streamAt numMsgs memory clock (n + 1) =
      next (streamStep numMsgs) (streamAt numMsgs memory clock n) (clock n) := by
  simp [streamAt, List.range_succ]

theorem streamSent_succ (numMsgs : ℤ) (memory : StreamPkt) (clock : ℕ → Timeval) (n : ℕ) :
    streamSent numMsgs memory clock (n + 1) = streamSent numMsgs memory clock n ++
      packetsOf (streamStep numMsgs (streamAt numMsgs memory clock n) (clock n)).2 := by
  rw [streamSent, List.range_succ, List.map_append, List.map_singleton, trace_concat]
  exact List.filterMap_append

theorem packetsOf_step (numMsgs : ℤ) (s : StreamState) (reading : Timeval) :
    (s.pc = .pass ∧ packetsOf (streamStep numMsgs s reading).2 = [s.stamped reading]) ∨
      (s.pc ≠ .pass ∧ packetsOf (streamStep numMsgs s reading).2 = []) := by
  cases hpc : s.pc with
  | pass => exact .inl ⟨rfl, by simp [streamStep, hpc]⟩
  | _ => exact .inr ⟨by simp, by simp [streamStep, hpc, packetsOf]⟩

theorem paced_run (memory : StreamPkt) (hnum : numMsgs < 2 ^ 31 - 1)
    (hmono : Monotone fun n => (clock n).usec) (n : ℕ) :
    (streamAt numMsgs memory clock (n + 1)).startTs = clock 0 ∧
      Paced numMsgs (clock 0).usec (clock n).usec (streamSent numMsgs memory clock (n + 1)).length
        (streamAt numMsgs memory clock (n + 1)).pc
        (streamAt numMsgs memory clock (n + 1)).sendPkt.seq := by
  induction n with
  | zero =>
    refine ⟨rfl, ?_⟩
    show Paced numMsgs _ _ 0 (if 1 ≤ numMsgs then .pass else .returned) 1
    split_ifs with h
    · exact .pass (by simpa using h) fun _ => by simp
    · exact .returned (by omega)
  | succ n ih =>
    obtain ⟨hstart, h⟩ := ih
    have h0 : (clock 0).usec ≤ (clock n).usec := hmono (Nat.zero_le n)
    have hle : (clock n).usec ≤ (clock (n + 1)).usec := hmono n.le_succ
    rw [← hstart] at h h0 ⊢
    obtain ⟨hsame, hnext⟩ := h.step hnum h0 hle
    rw [streamAt_succ _ _ _ (n + 1), streamSent_succ _ _ _ (n + 1), List.length_append]
    exact ⟨hsame, hnext⟩

theorem streamSent_pass (hnum : numMsgs < 2 ^ 31 - 1) (hmono : Monotone fun n => (clock n).usec)
    {n : ℕ} (hpc : (streamAt numMsgs memory clock n).pc = .pass) :
    (streamAt numMsgs memory clock n).sendPkt.seq =
        (streamSent numMsgs memory clock n).length + 1 ∧
      (streamSent numMsgs memory clock n).length + 1 ≤ numMsgs ∧
      Due (clock 0).usec (clock n).usec (streamSent numMsgs memory clock n).length := by
  cases n with
  | zero => cases hpc
  | succ n =>
    have h := (paced_run memory hnum hmono n).2
    rw [hpc] at h
    generalize (streamAt numMsgs memory clock (n + 1)).sendPkt.seq = seq at h
    cases h with
    | pass more due => exact ⟨rfl, more, due.mono (hmono n.le_succ)⟩

theorem numbered_run (hnum : numMsgs < 2 ^ 31 - 1) (hmono : Monotone fun n => (clock n).usec)
    (n : ℕ) : (streamSent numMsgs memory clock n).map (·.seq) =
      (List.range (streamSent numMsgs memory clock n).length).map fun k : ℕ => (k : ℤ) + 1 := by
  induction n with
  | zero => rfl
  | succ n ih =>
    rw [streamSent_succ]
    rcases packetsOf_step numMsgs (streamAt numMsgs memory clock n) (clock n) with
      ⟨hpc, hout⟩ | ⟨-, hout⟩
    · obtain ⟨hseq, -⟩ := streamSent_pass hnum hmono hpc
      rw [hout, List.map_append, ih, List.length_append, List.length_singleton, List.range_succ,
        List.map_append, List.map_singleton, List.map_singleton, ← hseq]
      rfl
    · rw [hout, List.append_nil]
      exact ih

/-- A clock that does not go back, that is read twice within half an hour, and that
does not stand still for ever. -/
structure Steady (clock : ℕ → Timeval) : Prop where
  mono : Monotone fun n => (clock n).usec
  close : ∀ n, (clock (n + 1)).usec ≤ (clock n).usec + 1800000000
  unbounded : ∀ t, ∃ n, t ≤ (clock n).usec

theorem asleep_stays {usec : ℤ} {start : Timeval} {n : ℕ}
    (hpc : (streamAt numMsgs memory clock n).pc = .asleep usec start) (j : ℕ)
    (hearly : ∀ k, n ≤ k → k < n + j → toInt (duration start (clock k)) < usec) :
    streamAt numMsgs memory clock (n + j) = streamAt numMsgs memory clock n := by
  induction j with
  | zero => rfl
  | succ j ih =>
    have hsame := ih fun k hk hlt => hearly k hk (by omega)
    rw [← Nat.add_assoc, streamAt_succ, hsame]
    simp only [next, streamStep, hpc]
    rw [if_pos (hearly (n + j) (by omega) (by omega))]

theorem sleep_ends (h : Steady clock) {usec : ℤ} {n : ℕ}
    (hpc : (streamAt numMsgs memory clock n).pc = .sleep usec) (hpos : 0 < usec)
    (hle : usec ≤ 2 ^ 28) :
    ∃ m, n ≤ m ∧ streamAt numMsgs memory clock m =
      (streamAt numMsgs memory clock n).nextMsg numMsgs := by
  have hasleep : streamAt numMsgs memory clock (n + 1) =
      { streamAt numMsgs memory clock n with pc := .asleep usec (clock n) } := by
    rw [streamAt_succ]
    simp only [next, streamStep, hpc, if_pos hpos]
  -- the first reading that is late enough
  have hex : ∃ j, (clock n).usec + usec ≤ (clock (n + 1 + j)).usec := by
    obtain ⟨k, hk⟩ := h.unbounded ((clock n).usec + usec)
    exact ⟨k, hk.trans (h.mono (by omega))⟩
  obtain ⟨j, hj, hfirst⟩ : ∃ j, (clock n).usec + usec ≤ (clock (n + 1 + j)).usec ∧
      ∀ i, i < j → (clock (n + 1 + i)).usec < (clock n).usec + usec :=
    ⟨Nat.find hex, Nat.find_spec hex, fun i hi => not_le.mp (Nat.find_min hex hi)⟩
  have hback (k : ℕ) (hk : n ≤ k) : (clock n).usec ≤ (clock k).usec := h.mono hk
  have hstays := asleep_stays (by rw [hasleep]) j fun k hk hlt => by
    have hlate := hfirst (k - (n + 1)) (by omega)
    rw [Nat.add_sub_cancel' hk] at hlate
    have hnn := hback k (by omega)
    rw [duration_eq, toInt_eq (by omega) (by omega)]
    omega
  refine ⟨n + 1 + j + 1, by omega, ?_⟩
  have hprev : (clock (n + j)).usec < (clock n).usec + usec := by
    cases j with
    | zero => simpa using hpos
    | succ i =>
      have := hfirst i i.lt_succ_self
      rwa [show n + (i + 1) = n + 1 + i by omega]
  have hclose := h.close (n + j)
  rw [show n + j + 1 = n + 1 + j by omega] at hclose
  rw [streamAt_succ, hstays, hasleep]
  simp only [next, streamStep]
  rw [if_neg]
  · rfl
  · rw [duration_eq, toInt_eq (by omega) (by omega)]
    omega

theorem length_streamSent_mono (numMsgs : ℤ) (memory : StreamPkt) (clock : ℕ → Timeval) :
    Monotone fun n => (streamSent numMsgs memory clock n).length := by
  refine monotone_nat_of_le_succ fun n => ?_
  rw [streamSent_succ, List.length_append]
  exact Nat.le_add_right _ _

theorem pc_nextMsg (numMsgs : ℤ) (s : StreamState) :
    (s.nextMsg numMsgs).pc = .pass ∨ (s.nextMsg numMsgs).pc = .returned := by
  simp only [StreamState.nextMsg]
  split_ifs
  · exact .inl rfl
  · exact .inr rfl

/-- From a pass or a sleep on, with the messages that are left as the measure. -/
theorem returns_from (hnum : numMsgs < 2 ^ 31 - 1) (h : Steady clock) {left n : ℕ} (hn : n ≠ 0)
    (hpc : (streamAt numMsgs memory clock n).pc = .pass ∧
        2 * (numMsgs.toNat - (streamSent numMsgs memory clock n).length) ≤ left ∨
      (∃ usec, (streamAt numMsgs memory clock n).pc = .sleep usec) ∧
        2 * (numMsgs.toNat - (streamSent numMsgs memory clock n).length) < left) :
    ∃ m, (streamAt numMsgs memory clock m).pc = .returned := by
  induction left using Nat.strong_induction_on generalizing n with
  | _ left ih =>
    obtain ⟨n, rfl⟩ : ∃ n', n = n' + 1 := Nat.exists_eq_succ_of_ne_zero hn
    have hpaced := (paced_run memory hnum h.mono n).2
    generalize hseq : (streamAt numMsgs memory clock (n + 1)).sendPkt.seq = seq at hpaced
    rcases hpc with ⟨hpc, hleft⟩ | ⟨⟨usec, hpc⟩, hleft⟩
    · rw [hpc] at hpaced
      cases hpaced with
      | pass more due =>
        have hlen : (streamSent numMsgs memory clock (n + 1 + 1)).length =
            (streamSent numMsgs memory clock (n + 1)).length + 1 := by
          rw [streamSent_succ _ _ _ (n + 1), List.length_append]
          rcases packetsOf_step numMsgs (streamAt numMsgs memory clock (n + 1)) (clock (n + 1)) with
            ⟨-, hout⟩ | ⟨hne, -⟩
          · rw [hout]
            rfl
          · exact absurd hpc hne
        have hnext0 : n + 1 + 1 ≠ 0 := Nat.add_one_ne_zero (n + 1)
        have hnext := streamAt_succ numMsgs memory clock (n + 1)
        simp only [next, streamStep, hpc] at hnext
        split_ifs at hnext with hsleep
        · refine ih (left - 1) (by omega) hnext0 (.inr ⟨⟨_, by rw [hnext]⟩, ?_⟩)
          omega
        · rcases pc_nextMsg numMsgs ((streamAt numMsgs memory clock (n + 1)).sent (clock (n + 1)))
            with hp | hr
          · refine ih (left - 1) (by omega) hnext0 (.inl ⟨by rw [hnext, hp], ?_⟩)
            omega
          · exact ⟨_, by rw [hnext, hr]⟩
    · rw [hpc] at hpaced
      cases hpaced with
      | sleep last due paced hpos hle =>
        obtain ⟨m, hm, hend⟩ := sleep_ends h hpc hpos hle
        rcases pc_nextMsg numMsgs (streamAt numMsgs memory clock (n + 1)) with hp | hr
        · have hlen : (streamSent numMsgs memory clock (n + 1)).length ≤
              (streamSent numMsgs memory clock m).length :=
            length_streamSent_mono numMsgs memory clock hm
          refine ih (left - 1) (by omega) (n := m) (by omega) (.inl ⟨by rw [hend, hp], ?_⟩)
          omega
        · exact ⟨m, by rw [hend, hr]⟩

theorem returns (hnum : numMsgs < 2 ^ 31 - 1) (h : Steady clock) (memory : StreamPkt) :
    ∃ n, (streamAt numMsgs memory clock n).pc = .returned ∧
      (streamSent numMsgs memory clock n).length = numMsgs.toNat := by
  obtain ⟨n, hn⟩ : ∃ n, (streamAt numMsgs memory clock n).pc = .returned := by
    by_cases hmore : 1 ≤ numMsgs
    · exact returns_from hnum h (n := 1) one_ne_zero (.inl ⟨if_pos hmore, le_rfl⟩)
    · exact ⟨1, if_neg hmore⟩
  refine ⟨n, hn, ?_⟩
  cases n with
  | zero => cases hn
  | succ n =>
    have hpaced := (paced_run memory hnum h.mono n).2
    rw [hn] at hpaced
    cases hpaced with
    | returned all => exact all.symm

/-- Whatever the clock shows, as long as it does not go back: the packets are numbered
from 1, each begins its data with its number and carries the time at which it was sent,
and up to `pacedMsgs` none goes out before the time its predecessors take at the rate.
From there to `unpacedMsgs` one goes out at every reading of the clock. With a clock
that goes on, all of them are sent. -/
theorem stream_paced (numMsgs : ℤ) (hnum : numMsgs < 2 ^ 31 - 1) (memory : StreamPkt)
    (clock : ℕ → Timeval) (hmono : Monotone fun n => (clock n).usec) :
    let sent := streamSent numMsgs memory clock
    (∀ n, (sent n).map (·.seq) = (List.range (sent n).length).map fun k : ℕ => (k : ℤ) + 1) ∧
      (∀ n p, sent (n + 1) = sent n ++ [p] → p.tsSec = toInt (clock n).tvSec ∧
        p.tsUsec = toInt (clock n).tvUsec ∧ p.data.toList.take 4 = leBytes 4 p.seq ∧
        ((sent n).length ≤ pacedMsgs →
          (clock 0).usec + 1300 * (sent n).length ≤ (clock n).usec)) ∧
      (∀ n, pacedMsgs < (sent n).length → (sent n).length ≤ unpacedMsgs →
        (sent n).length < numMsgs → (sent (n + 1)).length = (sent n).length + 1) ∧
      (Steady clock → ∃ n, (streamAt numMsgs memory clock n).pc = .returned ∧
        (sent n).length = numMsgs.toNat) := by
  intro sent
  refine ⟨numbered_run hnum hmono, fun n p hp => ?_, fun n hlo hhi hmore => ?_,
    fun h => returns hnum h memory⟩
  · have hout := streamSent_succ numMsgs memory clock n
    rw [show streamSent numMsgs memory clock (n + 1) = _ from hp] at hout
    have hone := List.append_cancel_left hout
    rcases packetsOf_step numMsgs (streamAt numMsgs memory clock n) (clock n) with
      ⟨hpc, hout⟩ | ⟨-, hout⟩
    · rw [hout] at hone
      obtain rfl := (List.cons.inj hone).1
      refine ⟨rfl, rfl, ?_, (streamSent_pass hnum hmono hpc).2.2⟩
      have hfour := length_leBytes 4 (streamAt numMsgs memory clock n).sendPkt.seq
      have hfit :
          (leBytes 4 (streamAt numMsgs memory clock n).sendPkt.seq).length ≤ maxDataLen := by
        rw [hfour]
        decide
      have htake := CharArray.take_memcpy (streamAt numMsgs memory clock n).sendPkt.data hfit
      rwa [hfour] at htake
    · rw [hout] at hone
      cases hone
  · cases n with
    | zero => exact absurd hlo (by simp [sent, streamSent, trace, packetsOf])
    | succ n =>
      have hpaced := (paced_run memory hnum hmono n).2
      have hpass : (streamAt numMsgs memory clock (n + 1)).pc = .pass := by
        generalize hpc : (streamAt numMsgs memory clock (n + 1)).pc = pc at hpaced ⊢
        generalize (streamAt numMsgs memory clock (n + 1)).sendPkt.seq = seq at hpaced
        cases hpaced with
        | pass more due => rfl
        | sleep last due paced _ _ => exact absurd (paced hlo) (not_lt.mpr hhi)
        | asleep last due paced _ => exact absurd (paced hlo) (not_lt.mpr hhi)
        | returned all =>
          have hlen : (streamSent numMsgs memory clock (n + 1)).length < numMsgs := hmore
          omega
      show (streamSent _ _ _ _).length = _
      rw [streamSent_succ _ _ _ (n + 1), List.length_append]
      rcases packetsOf_step numMsgs (streamAt numMsgs memory clock (n + 1)) (clock (n + 1)) with
        ⟨-, hout⟩ | ⟨hne, -⟩
      · rw [hout]
        rfl
      · exact absurd hpass hne

def everyMs (n : ℕ) : Timeval := ⟨n / 1000, n % 1000 * 1000⟩

theorem usec_everyMs (n : ℕ) : (everyMs n).usec = 1000 * n := by
  show (n / 1000 * 1000000 + n % 1000 * 1000 : ℤ) = _
  omega

theorem monotone_everyMs : Monotone fun n => (everyMs n).usec := fun m n hmn => by
  simp only [usec_everyMs]
  omega

/-- Two packets: the first pass comes after a millisecond, and sleeps. -/
theorem stream_paced_two :
    let sent := streamSent 2 ⟨0, 0, 0, .replicate _ 0⟩ everyMs
    (streamAt 2 ⟨0, 0, 0, .replicate _ 0⟩ everyMs 2).pc = .sleep 300 ∧
      (sent 5).map (fun p => (p.seq, p.tsUsec)) = [(1, 1000), (2, 4000)] ∧
      (∃ n, (sent n).length = 2) ∧ ∀ n p, sent (n + 1) = sent n ++ [p] →
        (sent n).length ≤ pacedMsgs →
          (everyMs 0).usec + 1300 * (sent n).length ≤ (everyMs n).usec := by
  intro sent
  have hsteady : Steady everyMs := by
    refine ⟨monotone_everyMs, fun n => ?_, fun t => ⟨t.toNat, ?_⟩⟩
    · rw [usec_everyMs, usec_everyMs]
      omega
    · rw [usec_everyMs]
      omega
  obtain ⟨-, hsent, -, hends⟩ :=
    stream_paced 2 (by decide) ⟨0, 0, 0, .replicate _ 0⟩ everyMs monotone_everyMs
  obtain ⟨n, -, hn⟩ := hends hsteady
  exact ⟨by decide +kernel, by decide +kernel, ⟨n, hn⟩, fun n p hp => (hsent n p hp).2.2.2⟩

end Wan.Proj2
