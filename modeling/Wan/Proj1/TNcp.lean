import Wan.Proj1.Packet
import Wan.Lib.Loop

/-!
# The TCP sender (t_ncp.cpp)

The benchmark sends the file as frames of at most `MAX_PKT_SIZE` bytes, each with
its own length in front. A frame is handed to `send` piece by piece. The sender
stops after the first frame that `fread` could not fill, which is empty when the
file is a multiple of the frame's data.

The loops take the number of rounds they may make, and give none when these do
not suffice. Times and printing are left out; the counters are exact integers.
-/

namespace Wan.Proj1

open Posix

inductive TNcpStatus
  | running
  /-- `return 0` was reached. -/
  | returned
  /-- `send` failed. -/
  | exited
  deriving DecidableEq, Repr

structure TNcpState where
  pd : FileStream
  /-- The last `fread` came back short. -/
  feof : Bool
  messBuf : CharArray maxPktSize
  totalTrans : ℤ
  successTrans : ℤ
  lastRecordBytes : ℤ
  status : TNcpStatus
  /-- The calls of `send` so far, and the bytes they took. -/
  calls : ℕ
  sent : Bytes

def TNcpState.init (src : Bytes) (messBuf : CharArray maxPktSize) : TNcpState where
  pd := ⟨src, some 0⟩
  feof := false
  messBuf := messBuf
  totalTrans := 0
  successTrans := 0
  lastRecordBytes := 0
  status := .running
  calls := 0
  sent := []

def fillFrame (s : TNcpState) : TNcpState × ℕ :=
  let (read, pd) := s.pd.fread maxDataLen
  let messLen := read.length + sizeofInt
  ({ s with
      pd := pd
      feof := read.length < maxDataLen
      messBuf := (s.messBuf.memcpyAt sizeofInt read).memcpyAt 0 (leBytes sizeofInt messLen) },
    messLen)

/-- `while (bytes_sent < mess_len)`, with `bytes_sent` at its end. -/
def sendLoop (ret : Returns) (messLen : ℕ) : ℕ → ℕ → TNcpState → Option (ℕ × TNcpState)
  | 0, bytesSent, s => if bytesSent < messLen then none else some (bytesSent, s)
  | m + 1, bytesSent, s =>
    if bytesSent < messLen then
      let r := ret s.calls (messLen - bytesSent)
      let s := { s with calls := s.calls + 1 }
      if r < 0 then some (bytesSent, { s with status := .exited })
      else sendLoop ret messLen m (bytesSent + r.toNat)
        { s with sent := s.sent ++ (s.messBuf.toList.drop bytesSent).take r.toNat }
    else some (bytesSent, s)

/-- `strlen(data_mess_ptr)`, which looks for a zero in the data part of the buffer
and goes on into what stands behind it. -/
def strlenData (messBuf : CharArray maxPktSize) (behind : Bytes) : ℕ :=
  ((messBuf.toList.drop sizeofInt ++ behind).takeWhile (· ≠ 0)).length

def TNcpState.report (s : TNcpState) : TNcpState :=
  if s.totalTrans - s.lastRecordBytes ≥ 10 * megabytes then
    { s with lastRecordBytes := s.totalTrans }
  else s

/-- One frame. `behind` is the memory behind `mess_buf`, by the number of calls. -/
def tNcpPass (ret : Returns) (behind : ℕ → Bytes) (rounds : ℕ) (s : TNcpState) :
    Option TNcpState :=
  let (s, messLen) := fillFrame s
  match sendLoop ret messLen rounds 0 s with
  | none => none
  | some (bytesSent, s) =>
    if s.status = .exited then some s
    else
      let s := { s with
        totalTrans := s.totalTrans + bytesSent
        successTrans := s.successTrans + strlenData s.messBuf (behind s.calls) }
      let s := s.report
      some (if s.feof then { s with pd := s.pd.fclose, status := .returned } else s)

def tNcpMain (ret : Returns) (behind : ℕ → Bytes) (rounds : ℕ) :
    ℕ → TNcpState → Option TNcpState
  | 0, s => if s.status = .running then none else some s
  | m + 1, s =>
    if s.status = .running then
      match tNcpPass ret behind rounds s with
      | none => none
      | some s => tNcpMain ret behind rounds m s
    else some s

-- ---------------------------------------------------------------------------
-- The frames of a file
-- ---------------------------------------------------------------------------

def frame (data : Bytes) : Bytes := leBytes sizeofInt ((data.length + sizeofInt : ℕ) : ℤ) ++ data

abbrev frameData (src : Bytes) (k : ℕ) : Bytes := Lib.block maxDataLen src k

def frameCount (src : Bytes) : ℕ := src.length / maxDataLen + 1

def frames (src : Bytes) (k : ℕ) : Bytes :=
  (List.range' 1 k).flatMap fun i => frame (frameData src i)

variable {src : Bytes} {k : ℕ} {s : TNcpState} {behind : ℕ → Bytes} {rounds : ℕ}

theorem frames_succ (src : Bytes) (k : ℕ) :
    frames src (k + 1) = frames src k ++ frame (frameData src (k + 1)) := by
  simp [frames, List.range'_concat, Nat.add_comm]

theorem length_frameData_le (src : Bytes) (k : ℕ) : (frameData src k).length ≤ maxDataLen := by
  rw [Lib.length_block]
  exact min_le_left _ _

def frameBuf (buf : CharArray maxPktSize) (data : Bytes) : CharArray maxPktSize :=
  (buf.memcpyAt sizeofInt data).memcpyAt 0
    (leBytes sizeofInt ((data.length + sizeofInt : ℕ) : ℤ))

theorem toList_frameBuf (buf : CharArray maxPktSize) {data : Bytes} (h : data.length ≤ maxDataLen) :
    (frameBuf buf data).toList = frame data ++ buf.toList.drop (sizeofInt + data.length) := by
  have hlen : (leBytes sizeofInt ((data.length + sizeofInt : ℕ) : ℤ)).length = sizeofInt :=
    length_leBytes _ _
  have hfit : sizeofInt + data.length ≤ maxPktSize := by
    have : maxDataLen + sizeofInt = maxPktSize := rfl
    omega
  have hpre : (buf.toList.take sizeofInt).length = sizeofInt := by
    rw [List.length_take, List.Vector.toList_length]
    rfl
  rw [frameBuf, CharArray.toList_memcpyAt _ (by rw [hlen, Nat.zero_add]; decide), hlen,
    CharArray.toList_memcpyAt _ hfit, List.append_assoc (buf.toList.take sizeofInt), Nat.zero_add,
    List.drop_left' hpre, List.take_zero, List.nil_append, frame, List.append_assoc]

def dataPart (messBuf : CharArray maxPktSize) : Bytes := messBuf.toList.drop sizeofInt

theorem dataPart_frameBuf (buf : CharArray maxPktSize) {data : Bytes}
    (h : data.length ≤ maxDataLen) :
    dataPart (frameBuf buf data) = data ++ (dataPart buf).drop data.length := by
  rw [dataPart, toList_frameBuf buf h, frame, List.append_assoc,
    List.drop_left' (length_leBytes _ _), dataPart, List.drop_drop]

theorem length_frame (data : Bytes) : (frame data).length = data.length + sizeofInt := by
  rw [frame, List.length_append, length_leBytes, Nat.add_comm]

-- ---------------------------------------------------------------------------
-- Sending a frame
-- ---------------------------------------------------------------------------

def callsAfter (ret : Returns) : ℕ → ℕ → ℕ → ℕ
  | 0, _, calls => calls
  | m + 1, left, calls =>
    if left = 0 then calls else callsAfter ret m (left - (ret calls left).toNat) (calls + 1)

theorem callsAfter_rounds (p : Pieces) {left m m' : ℕ} (h : left ≤ m) (h' : left ≤ m')
    (calls : ℕ) : callsAfter p.ret m left calls = callsAfter p.ret m' left calls := by
  induction m generalizing m' left calls with
  | zero =>
    obtain rfl : left = 0 := by omega
    cases m' with
    | zero => rfl
    | succ m' => rw [callsAfter, callsAfter, if_pos rfl]
  | succ m ih =>
    by_cases h0 : left = 0
    · cases m' with
      | zero => rw [callsAfter, callsAfter, if_pos h0]
      | succ m' => rw [callsAfter, callsAfter, if_pos h0, if_pos h0]
    · obtain ⟨j, rfl⟩ : ∃ j, m' = j + 1 := ⟨m' - 1, by omega⟩
      have hpos := p.pos calls left (by omega)
      rw [callsAfter, callsAfter, if_neg h0, if_neg h0]
      exact ih (by omega) (by omega) _

/-- However the pieces fall, the whole of a frame is sent, in at most as many
calls as it has bytes. -/
theorem sendLoop_eq (p : Pieces) {messLen bytesSent : ℕ} (hle : bytesSent ≤ messLen)
    (hrounds : messLen - bytesSent ≤ rounds) (s : TNcpState) :
    sendLoop p.ret messLen rounds bytesSent s = some (messLen, { s with
      calls := callsAfter p.ret rounds (messLen - bytesSent) s.calls
      sent := s.sent ++ (s.messBuf.toList.take messLen).drop bytesSent }) := by
  induction rounds generalizing bytesSent s with
  | zero =>
    obtain rfl : bytesSent = messLen := by omega
    rw [sendLoop, if_neg (lt_irrefl _), List.drop_of_length_le (List.length_take_le _ _),
      List.append_nil, callsAfter]
  | succ m ih =>
    by_cases hlt : bytesSent < messLen
    · have hpos := p.pos s.calls (messLen - bytesSent) (by omega)
      have hmax := p.le s.calls (messLen - bytesSent) (by omega)
      obtain ⟨r, hr⟩ := Int.eq_ofNat_of_zero_le hpos.le
      have heq := ih (show bytesSent + r ≤ messLen by omega) (by omega) { s with
        calls := s.calls + 1
        sent := s.sent ++ (s.messBuf.toList.drop bytesSent).take r }
      simp only [sendLoop, callsAfter, if_pos hlt, if_neg (not_lt.mpr hpos.le)]
      rw [hr, Int.toNat_natCast, heq, if_neg (by omega), List.drop_take, List.drop_take,
        List.append_assoc, Nat.sub_add_eq,
        show messLen - bytesSent = r + (messLen - bytesSent - r) by omega, List.take_add,
        List.drop_drop, Nat.add_sub_cancel_left]
    · obtain rfl : bytesSent = messLen := by omega
      rw [sendLoop, if_neg hlt, List.drop_of_length_le (List.length_take_le _ _), List.append_nil,
        Nat.sub_self, callsAfter, if_pos rfl]

theorem TNcpState.report_frame (s : TNcpState) :
    ∃ l, s.report = { s with lastRecordBytes := l } := by
  unfold TNcpState.report
  split_ifs
  · exact ⟨_, rfl⟩
  · exact ⟨s.lastRecordBytes, rfl⟩

structure Sent (p : Pieces) (behind : ℕ → Bytes) (data : Bytes) (s t : TNcpState) : Prop where
  sent : t.sent = s.sent ++ frame data
  calls : t.calls = callsAfter p.ret maxPktSize (data.length + sizeofInt) s.calls
  buf : dataPart t.messBuf = data ++ (dataPart s.messBuf).drop data.length
  success : t.successTrans = s.successTrans + strlenData t.messBuf (behind t.calls)

theorem sendLoop_frame {data : Bytes} (hle : data.length ≤ maxDataLen) (p : Pieces)
    (hrounds : maxPktSize ≤ rounds) {buf : CharArray maxPktSize}
    (hbuf : s.messBuf = frameBuf buf data) :
    sendLoop p.ret (data.length + sizeofInt) rounds 0 s = some (data.length + sizeofInt, { s with
      calls := callsAfter p.ret maxPktSize (data.length + sizeofInt) s.calls
      sent := s.sent ++ frame data }) := by
  have hbytes : data.length + sizeofInt ≤ maxPktSize := Nat.add_le_add_right hle sizeofInt
  have hsend := sendLoop_eq p (Nat.zero_le (data.length + sizeofInt))
    (show data.length + sizeofInt - 0 ≤ rounds from hbytes.trans hrounds) s
  rwa [Nat.sub_zero, callsAfter_rounds p (hbytes.trans hrounds) hbytes, List.drop_zero, hbuf,
    toList_frameBuf buf hle, List.take_left' (length_frame data), ← hbuf] at hsend

theorem tNcpPass_eq {data : Bytes} {pd : FileStream} (hrun : s.status = .running)
    (hread : s.pd.fread maxDataLen = (data, pd)) (hle : data.length ≤ maxDataLen) (p : Pieces)
    (behind : ℕ → Bytes) (hrounds : maxPktSize ≤ rounds) :
    ∃ t, tNcpPass p.ret behind rounds s = some t ∧ Sent p behind data s t ∧
      (¬ data.length < maxDataLen → t.pd = pd ∧ t.status = .running) ∧
      (data.length < maxDataLen → t.status = .returned) := by
  obtain ⟨u, hu⟩ : ∃ u, u = { s with
    pd := pd
    feof := data.length < maxDataLen
    messBuf := frameBuf s.messBuf data } := ⟨_, rfl⟩
  have hfill : fillFrame s = (u, data.length + sizeofInt) := by
    rw [fillFrame, hread, hu, frameBuf]
  have hsend := sendLoop_frame hle p hrounds (show u.messBuf = frameBuf s.messBuf data by rw [hu])
  obtain ⟨calls, hcalls⟩ : ∃ calls,
      callsAfter p.ret maxPktSize (data.length + sizeofInt) u.calls = calls := ⟨_, rfl⟩
  rw [hcalls] at hsend
  obtain ⟨l, hl⟩ := TNcpState.report_frame { u with
    calls := calls
    sent := u.sent ++ frame data
    totalTrans := u.totalTrans + (data.length + sizeofInt : ℕ)
    successTrans := u.successTrans + strlenData u.messBuf (behind calls) }
  have hcont : ¬ u.status = .exited := by simp [hu, hrun]
  have hpart := dataPart_frameBuf s.messBuf hle
  simp only [tNcpPass, hfill, hsend, if_neg hcont, hl]
  subst hu
  by_cases hshort : data.length < maxDataLen
  · simp only [hshort, decide_true, if_true]
    exact ⟨_, rfl, ⟨rfl, hcalls.symm, hpart, rfl⟩, fun h => absurd trivial h, fun _ => rfl⟩
  · simp only [hshort, decide_false, Bool.false_eq_true, if_false]
    exact ⟨_, rfl, ⟨rfl, hcalls.symm, hpart, rfl⟩, fun _ => ⟨rfl, hrun⟩, fun h => h.elim⟩

-- ---------------------------------------------------------------------------
-- Frame after frame
-- ---------------------------------------------------------------------------

structure Framed (src : Bytes) (k : ℕ) (s : TNcpState) : Prop where
  pd : s.pd = ⟨src, some (k * maxDataLen)⟩
  status : s.status = .running
  sent : s.sent = frames src k

theorem frameData_short_iff (hk : k < frameCount src) :
    (frameData src (k + 1)).length < maxDataLen ↔ k + 1 = frameCount src := by
  have hlen : (frameData src (k + 1)).length = min maxDataLen (src.length - k * maxDataLen) := by
    rw [Lib.length_block, Nat.add_sub_cancel]
  rw [show maxDataLen = 1396 from rfl] at hlen ⊢
  rw [frameCount, show maxDataLen = 1396 from rfl] at hk ⊢
  omega

theorem Framed.pass (h : Framed src k s) (hk : k < frameCount src) (p : Pieces)
    (behind : ℕ → Bytes) (hrounds : maxPktSize ≤ rounds) :
    ∃ t, tNcpPass p.ret behind rounds s = some t ∧ Sent p behind (frameData src (k + 1)) s t ∧
      (k + 1 < frameCount src → Framed src (k + 1) t) ∧
      (k + 1 = frameCount src → t.status = .returned ∧ t.sent = frames src (k + 1)) := by
  have hle := length_frameData_le src (k + 1)
  have hread : s.pd.fread maxDataLen = (frameData src (k + 1),
      ⟨src, some (k * maxDataLen + (frameData src (k + 1)).length)⟩) := by
    rw [h.pd]
    rfl
  obtain ⟨t, ht, hpass, hmore, hlast⟩ := tNcpPass_eq h.status hread hle p behind hrounds
  have hsent : t.sent = frames src (k + 1) := by rw [hpass.sent, h.sent, ← frames_succ]
  refine ⟨t, ht, hpass, fun hlt => ?_, fun hend => ?_⟩
  · have hfull := mt (frameData_short_iff hk).mp hlt.ne
    obtain ⟨hpd, hrun⟩ := hmore hfull
    refine ⟨?_, hrun, hsent⟩
    rw [hpd, le_antisymm hle (not_lt.mp hfull), Nat.succ_mul]
  · exact ⟨hlast ((frameData_short_iff hk).mpr hend), hsent⟩

theorem tNcpMain_eq (ret : Returns) (behind : ℕ → Bytes) (rounds m : ℕ) (s : TNcpState) :
    tNcpMain ret behind rounds m s =
      Lib.loopWhile (fun s => s.status = .running) (tNcpPass ret behind rounds) m s := by
  induction m generalizing s with
  | zero => rfl
  | succ m ih =>
    rw [tNcpMain, Lib.loopWhile]
    cases tNcpPass ret behind rounds s with
    | none => rfl
    | some t => simp only [Option.bind_some, ih]

theorem Framed.main {p : Pieces} {J : ℕ → TNcpState → Prop}
    (hkeep : ∀ k s t, k < frameCount src → J k s →
      Sent p behind (frameData src (k + 1)) s t → J (k + 1) t)
    (h : Framed src 0 s) (hj : J 0 s) (hrounds : maxPktSize ≤ rounds) {m : ℕ}
    (hm : frameCount src ≤ m) :
    ∃ t, tNcpMain p.ret behind rounds m s = some t ∧ t.status = .returned ∧
      t.sent = frames src (frameCount src) ∧ J (frameCount src) t := by
  rw [tNcpMain_eq]
  refine Lib.loopWhile_count (I := fun k s => Framed src k s ∧ J k s) (fun k s h => h.1.status)
    ?_ (Nat.succ_pos _) hm ⟨h, hj⟩
  rintro k s hk ⟨h, hj⟩
  obtain ⟨t, ht, hsent, hmore, hlast⟩ := h.pass hk p behind hrounds
  have hj' := hkeep k s t hk hj hsent
  refine ⟨t, ht, fun hlt => ⟨hmore hlt, hj'⟩, fun hend => ?_⟩
  obtain ⟨hret, hframes⟩ := hlast hend
  have hcount : k + 1 = frameCount src := hend
  exact ⟨by simp [hret], hret, hcount ▸ hframes, hcount ▸ hj'⟩

end Wan.Proj1
