import Wan.Proj1.Packet
import Wan.Lib.Loop

/-!
# The TCP receiver (t_rcv.cpp)

One accepted connection, from the pass that first finds it readable to the one that
meets its end. A pass reads a length, then as many bytes as the length announces,
and writes these to the file. Either read may come in any number of pieces, and is
given up when `recv` has nothing more.

As in the sender, the loops give none when their rounds do not suffice, and the
counters are exact. A length that does not fit `mess_buf` makes the program touch
what stands behind it: that is `overrun`.
-/

namespace Wan.Proj1

open Posix

structure Reading (n : ℕ) where
  bytesRead : ℕ
  buf : CharArray n
  calls : ℕ
  stream : Bytes

/-- `while (bytes_read < want)`, left early when `recv` returns nothing. -/
def recvLoop {n : ℕ} (ret : Returns) (want : ℤ) : ℕ → Reading n → Option (Reading n)
  | 0, r => if (r.bytesRead : ℤ) < want then none else some r
  | m + 1, r =>
    if (r.bytesRead : ℤ) < want then
      let got := recv ret r.calls (want - r.bytesRead).toNat r.stream
      let r := { r with calls := r.calls + 1 }
      if got ≤ 0 then some r
      else recvLoop ret want m { r with
        bytesRead := r.bytesRead + got.toNat
        buf := r.buf.memcpyAt r.bytesRead (r.stream.take got.toNat)
        stream := r.stream.drop got.toNat }
    else some r

inductive TRcvStatus
  | valid
  /-- `Clear_sock` was called. -/
  | cleared
  | overrun
  deriving DecidableEq, Repr

structure TRcvState where
  status : TRcvStatus
  rcvStart : Bool
  messLen : CharArray sizeofInt
  messBuf : CharArray maxPktSize
  pdOpen : Bool
  /-- What was written to the file. -/
  written : Bytes
  totalTrans : ℤ
  successTrans : ℤ
  lastRecordBytes : ℤ
  /-- The calls of `recv` so far, and what they have not yet taken. -/
  calls : ℕ
  stream : Bytes
  /-- The `data_len` of every length read. -/
  dataLens : List ℤ

def TRcvState.init (messLen : CharArray sizeofInt) (messBuf : CharArray maxPktSize)
    (stream : Bytes) : TRcvState where
  status := .valid
  rcvStart := false
  messLen := messLen
  messBuf := messBuf
  pdOpen := true
  written := []
  totalTrans := 0
  successTrans := 0
  lastRecordBytes := 0
  calls := 0
  stream := stream
  dataLens := []

def TRcvState.clearSock (s : TRcvState) : TRcvState :=
  { s with lastRecordBytes := 0, rcvStart := false, status := .cleared, pdOpen := false }

/-- `data_len = mess_len - sizeof(mess_len)`, computed unsigned and put into an `int`. -/
def TRcvState.dataLen (s : TRcvState) : ℤ := (leInt s.messLen.toList - sizeofInt).bmod (2 ^ 32)

def TRcvState.writeLen (s : TRcvState) : ℕ :=
  ((leInt s.messLen.toList - sizeofInt) % 2 ^ 64).toNat

def TRcvState.report (s : TRcvState) : TRcvState :=
  if s.totalTrans - s.lastRecordBytes ≥ 10 * megabytes then
    { s with lastRecordBytes := s.totalTrans }
  else s

def TRcvState.writeFrame (bytesRead : ℕ) (s : TRcvState) : TRcvState :=
  if maxPktSize < s.writeLen then { s with status := .overrun }
  else TRcvState.report { s with
    written := s.written ++ s.messBuf.toList.take s.writeLen
    totalTrans := s.totalTrans + bytesRead
    successTrans := s.successTrans + s.dataLen }

def readData (ret : Returns) (rounds : ℕ) (s : TRcvState) : Option TRcvState :=
  let s := { s with dataLens := s.dataLens ++ [s.dataLen] }
  match recvLoop ret s.dataLen rounds ⟨0, s.messBuf, s.calls, s.stream⟩ with
  | none => none
  | some r =>
    let s := { s with messBuf := r.buf, calls := r.calls, stream := r.stream }
    if maxPktSize < r.bytesRead then some { s with status := .overrun }
    else if (r.bytesRead : ℤ) < s.dataLen then some s.clearSock
    else some (s.writeFrame r.bytesRead)

def tRcvPass (ret : Returns) (rounds : ℕ) (s : TRcvState) : Option TRcvState :=
  let s := { s with messBuf := List.Vector.replicate _ 0, rcvStart := true }
  match recvLoop ret sizeofInt rounds ⟨0, s.messLen, s.calls, s.stream⟩ with
  | none => none
  | some r =>
    let s := { s with messLen := r.buf, calls := r.calls, stream := r.stream }
    if r.bytesRead < sizeofInt then some s.clearSock
    else readData ret rounds s

def tRcvMain (ret : Returns) (rounds : ℕ) : ℕ → TRcvState → Option TRcvState
  | 0, s => if s.status = .valid then none else some s
  | m + 1, s =>
    if s.status = .valid then
      match tRcvPass ret rounds s with
      | none => none
      | some s => tRcvMain ret rounds m s
    else some s

-- ---------------------------------------------------------------------------
-- Partial reads
-- ---------------------------------------------------------------------------

variable {n : ℕ} {want : ℤ} {rounds : ℕ}

theorem recvLoop_done (ret : Returns) (r : Reading n) (h : want ≤ r.bytesRead) :
    recvLoop ret want rounds r = some r := by
  cases rounds with
  | zero => rw [recvLoop, if_neg (not_lt.mpr h)]
  | succ m => rw [recvLoop, if_neg (not_lt.mpr h)]

theorem recvLoop_end (ret : Returns) (r : Reading n) (h : r.bytesRead < want)
    (hend : r.stream = []) (hrounds : 0 < rounds) :
    recvLoop ret want rounds r = some { r with calls := r.calls + 1 } := by
  obtain ⟨m, rfl⟩ := Nat.exists_eq_add_of_lt hrounds
  simp [recvLoop, h, hend, recv]

theorem recvLoop_piece (p : Pieces) {chunk rest : Bytes} (r : Reading n) (m : ℕ)
    (hstream : r.stream = chunk ++ rest) (hwant : want = (r.bytesRead + chunk.length : ℕ))
    (hne : chunk ≠ []) :
    ∃ got, 0 < got ∧ got ≤ chunk.length ∧ recvLoop p.ret want (m + 1) r =
      recvLoop p.ret want m ⟨r.bytesRead + got, r.buf.memcpyAt r.bytesRead (chunk.take got),
        r.calls + 1, chunk.drop got ++ rest⟩ := by
  have hlen : 0 < chunk.length := List.length_pos_of_ne_nil hne
  have hmore : r.stream ≠ [] := by simp [hstream, hne]
  have hroom : min (want - r.bytesRead).toNat r.stream.length = chunk.length := by
    rw [hstream, List.length_append]
    omega
  have hpos := p.pos r.calls chunk.length hlen
  have hmax := p.le r.calls chunk.length hlen
  obtain ⟨got, hgot⟩ := Int.eq_ofNat_of_zero_le hpos.le
  have hle : got ≤ chunk.length := by omega
  refine ⟨got, by omega, hle, ?_⟩
  rw [recvLoop, if_pos (by omega)]
  simp only [recv, if_neg hmore, hroom, if_neg (not_le.mpr hpos)]
  rw [hgot, Int.toNat_natCast, hstream, List.take_append_of_le_length hle,
    List.drop_append_of_le_length hle]

theorem recvLoop_nothing (ret : Returns) (r : Reading n) (hwant : want = r.bytesRead) :
    recvLoop ret want rounds r =
      some ⟨r.bytesRead + ([] : Bytes).length, r.buf.memcpyAt r.bytesRead [], r.calls,
        r.stream⟩ := by
  rw [recvLoop_done _ _ hwant.le, CharArray.memcpyAt_nil]
  rfl

/-- However the pieces fall, a read that the stream can satisfy takes exactly the
bytes it wants, in at most as many calls. -/
theorem recvLoop_eq (p : Pieces) {chunk rest : Bytes} (r : Reading n)
    (hstream : r.stream = chunk ++ rest) (hwant : want = (r.bytesRead + chunk.length : ℕ))
    (hfit : r.bytesRead + chunk.length ≤ n) (hrounds : chunk.length ≤ rounds) :
    ∃ calls, recvLoop p.ret want rounds r =
      some ⟨r.bytesRead + chunk.length, r.buf.memcpyAt r.bytesRead chunk, calls, rest⟩ := by
  induction rounds generalizing chunk r with
  | zero =>
    obtain rfl := List.eq_nil_of_length_eq_zero (Nat.le_zero.mp hrounds)
    obtain rfl : r.stream = rest := hstream
    exact ⟨r.calls, recvLoop_nothing _ _ hwant⟩
  | succ m ih =>
    by_cases hnil : chunk = []
    · subst hnil
      obtain rfl : r.stream = rest := hstream
      exact ⟨r.calls, recvLoop_nothing _ _ hwant⟩
    · obtain ⟨got, hpos, hle, hpiece⟩ := recvLoop_piece p r m hstream hwant hnil
      have hgot : (chunk.take got).length = got := by
        rw [List.length_take]
        omega
      have hsum : r.bytesRead + got + (chunk.drop got).length = r.bytesRead + chunk.length := by
        rw [List.length_drop]
        omega
      obtain ⟨calls, heq⟩ := ih ⟨r.bytesRead + got, r.buf.memcpyAt r.bytesRead (chunk.take got),
        r.calls + 1, chunk.drop got ++ rest⟩ rfl (by rw [hwant, hsum]) (by rw [hsum]; exact hfit)
        (by rw [List.length_drop]; omega)
      -- the copy of this call and those of the others lie side by side
      have hcopy := r.buf.memcpyAt_append (show
        r.bytesRead + (chunk.take got ++ chunk.drop got).length ≤ n by
          rw [List.take_append_drop]
          exact hfit)
      rw [hgot, List.take_append_drop] at hcopy
      exact ⟨calls, by rw [hpiece, heq, hsum, hcopy]⟩

-- ---------------------------------------------------------------------------
-- A frame at the front of the stream
-- ---------------------------------------------------------------------------

variable {s : TRcvState} {data rest : Bytes}

theorem TRcvState.report_eq (s : TRcvState) : ∃ l, s.report = { s with lastRecordBytes := l } := by
  unfold TRcvState.report
  split_ifs
  · exact ⟨_, rfl⟩
  · exact ⟨s.lastRecordBytes, rfl⟩

theorem dataLen_of_length (hlen : s.messLen.toList = leBytes sizeofInt
    ((data.length + sizeofInt : ℕ) : ℤ)) (hle : data.length ≤ maxDataLen) :
    s.dataLen = data.length ∧ s.writeLen = data.length := by
  have hbound : data.length ≤ 1396 := hle
  have hint : leInt s.messLen.toList - sizeofInt = data.length := by
    rw [hlen, show sizeofInt = 4 from rfl, leInt_leBytes_four (by omega) (by omega)]
    omega
  constructor
  · rw [TRcvState.dataLen, hint]
    exact Int.bmod_eq_of_le (by omega) (by omega)
  · rw [TRcvState.writeLen, hint]
    omega

theorem readData_eq (p : Pieces) (hlen : s.messLen.toList = leBytes sizeofInt
    ((data.length + sizeofInt : ℕ) : ℤ)) (hle : data.length ≤ maxDataLen)
    (hstream : s.stream = data ++ rest) (hvalid : s.status = .valid)
    (hrounds : maxPktSize ≤ rounds) :
    ∃ t, readData p.ret rounds s = some t ∧ t.status = .valid ∧ t.stream = rest ∧
      t.written = s.written ++ data ∧ t.dataLens = s.dataLens ++ [(data.length : ℤ)] ∧
      t.successTrans = s.successTrans + data.length := by
  obtain ⟨hdata, hwrite⟩ := dataLen_of_length hlen hle
  have hbuf : data.length ≤ maxPktSize := hle.trans (by decide)
  obtain ⟨calls, heq⟩ := recvLoop_eq p ⟨0, s.messBuf, s.calls, s.stream⟩ hstream
    (show s.dataLen = (0 + data.length : ℕ) by rw [hdata, Nat.zero_add])
    (by rw [Nat.zero_add]; exact hbuf) (hbuf.trans hrounds)
  rw [Nat.zero_add] at heq
  obtain ⟨t, ht⟩ : ∃ t, t = { s with
    dataLens := s.dataLens ++ [s.dataLen]
    messBuf := s.messBuf.memcpyAt 0 data
    calls := calls
    stream := rest } := ⟨_, rfl⟩
  have htlen : t.dataLen = data.length := by rw [← hdata, ht]; rfl
  have htwrite : t.writeLen = data.length := by rw [← hwrite, ht]; rfl
  have heq : readData p.ret rounds s = some (t.writeFrame data.length) := by
    simp only [readData]
    rw [show ({ s with dataLens := s.dataLens ++ [s.dataLen] } : TRcvState).dataLen = s.dataLen
      from rfl, heq]
    dsimp only
    rw [← ht, if_neg (not_lt.mpr hbuf), if_neg (by rw [htlen]; exact lt_irrefl _)]
  have htake : t.messBuf.toList.take data.length = data := by
    rw [ht]
    exact s.messBuf.take_memcpyAt_zero hbuf
  obtain ⟨l, hl⟩ := TRcvState.report_eq { t with
    written := t.written ++ t.messBuf.toList.take t.writeLen
    totalTrans := t.totalTrans + data.length
    successTrans := t.successTrans + t.dataLen }
  refine ⟨_, heq, ?_⟩
  rw [TRcvState.writeFrame, if_neg (by rw [htwrite]; exact not_lt.mpr hbuf), hl, htwrite, htlen,
    htake, ht, hdata]
  exact ⟨hvalid, rfl, rfl, rfl, rfl⟩

theorem tRcvPass_length (p : Pieces)
    (hstream : s.stream = leBytes sizeofInt ((data.length + sizeofInt : ℕ) : ℤ) ++ rest)
    (hrounds : maxPktSize ≤ rounds) :
    ∃ u, tRcvPass p.ret rounds s = readData p.ret rounds u ∧
      u.messLen.toList = leBytes sizeofInt ((data.length + sizeofInt : ℕ) : ℤ) ∧
      u.stream = rest ∧ u.status = s.status ∧ u.written = s.written ∧ u.dataLens = s.dataLens ∧
      u.successTrans = s.successTrans := by
  obtain ⟨pre, hpre⟩ : ∃ pre, pre = leBytes sizeofInt ((data.length + sizeofInt : ℕ) : ℤ) :=
    ⟨_, rfl⟩
  have hlen : pre.length = sizeofInt := hpre ▸ length_leBytes _ _
  rw [← hpre] at hstream ⊢
  obtain ⟨calls, heq⟩ := recvLoop_eq p ⟨0, s.messLen, s.calls, s.stream⟩ hstream
    (show ((sizeofInt : ℕ) : ℤ) = (0 + pre.length : ℕ) by rw [hlen, Nat.zero_add])
    (by rw [Nat.zero_add, hlen]) (hlen.le.trans (le_trans (by decide) hrounds))
  rw [Nat.zero_add, hlen] at heq
  have hmess : (s.messLen.memcpyAt 0 pre).toList = pre := by
    have htake := s.messLen.take_memcpyAt_zero hlen.le
    rwa [hlen, List.take_of_length_le (by rw [List.Vector.toList_length])] at htake
  refine ⟨{ s with
    messBuf := List.Vector.replicate _ 0
    rcvStart := true
    messLen := s.messLen.memcpyAt 0 pre
    calls := calls
    stream := rest }, ?_, hmess, rfl, rfl, rfl, rfl, rfl⟩
  rw [tRcvPass]
  dsimp only
  rw [heq]
  exact if_neg (lt_irrefl _)

theorem tRcvPass_frame (p : Pieces) (hle : data.length ≤ maxDataLen)
    (hstream : s.stream = leBytes sizeofInt ((data.length + sizeofInt : ℕ) : ℤ) ++ (data ++ rest))
    (hvalid : s.status = .valid) (hrounds : maxPktSize ≤ rounds) :
    ∃ t, tRcvPass p.ret rounds s = some t ∧ t.status = .valid ∧ t.stream = rest ∧
      t.written = s.written ++ data ∧ t.dataLens = s.dataLens ++ [(data.length : ℤ)] ∧
      t.successTrans = s.successTrans + data.length := by
  obtain ⟨u, hpass, hlen, hrest, hstatus, hwritten, hlens, hsucc⟩ :=
    tRcvPass_length p hstream hrounds
  have hread := readData_eq p hlen hle hrest (hstatus.trans hvalid) hrounds
  rwa [← hpass, hwritten, hlens, hsucc] at hread

theorem tRcvPass_end (p : Pieces) (hend : s.stream = []) (hrounds : maxPktSize ≤ rounds) :
    ∃ t, tRcvPass p.ret rounds s = some t ∧ t.status = .cleared ∧ t.pdOpen = false ∧
      t.written = s.written ∧ t.dataLens = s.dataLens ∧ t.successTrans = s.successTrans := by
  have heq := recvLoop_end p.ret (⟨0, s.messLen, s.calls, s.stream⟩ : Reading sizeofInt)
    (show ((0 : ℕ) : ℤ) < (sizeofInt : ℕ) by decide) hend (lt_of_lt_of_le (by decide) hrounds)
  simp only [tRcvPass, heq]
  exact ⟨_, rfl, rfl, rfl, rfl, rfl, rfl⟩

theorem tRcvMain_eq (ret : Returns) (rounds m : ℕ) (s : TRcvState) :
    tRcvMain ret rounds m s =
      Lib.loopWhile (fun s => s.status = .valid) (tRcvPass ret rounds) m s := by
  induction m generalizing s with
  | zero => rfl
  | succ m ih =>
    rw [tRcvMain, Lib.loopWhile]
    cases tRcvPass ret rounds s with
    | none => rfl
    | some t => simp only [Option.bind_some, ih]

end Wan.Proj1
