import Wan.Proj1.TNcp
import Wan.Proj1.TRcv

/-!
# The TCP transfer end to end

The connection delivers the bytes the sender handed to `send`, in order and all of
them; how many each call of `send` and `recv` moves is left open. The receiver meets
the frames one by one, so what it has written is the data of the frames so far, and
the last frame brings it to the end of the file.
-/

namespace Wan.Proj1

open Posix

variable {src : Bytes} {k : ℕ} {s : TRcvState} {rounds : ℕ}

/-- Between two passes of the receiver: `k` frames were taken off the stream. -/
structure Unframed (src : Bytes) (k : ℕ) (s : TRcvState) : Prop where
  status : s.status = .valid
  stream : frames src k ++ s.stream = frames src (frameCount src)
  written : s.written = Lib.firstBlocks maxDataLen src k
  lens : ∀ d ∈ s.dataLens, 0 ≤ d ∧ d ≤ maxDataLen
  count : s.dataLens.length = k

theorem frames_add (src : Bytes) (k j : ℕ) : ∃ rest, frames src (k + j) = frames src k ++ rest := by
  induction j with
  | zero => exact ⟨[], (List.append_nil _).symm⟩
  | succ j ih =>
    obtain ⟨rest, hrest⟩ := ih
    exact ⟨rest ++ frame (frameData src (k + j + 1)), by
      rw [← Nat.add_assoc, frames_succ, hrest, List.append_assoc]⟩

theorem Unframed.front (h : Unframed src k s) (hk : k < frameCount src) :
    ∃ rest, s.stream = frame (frameData src (k + 1)) ++ rest ∧
      frames src (k + 1) ++ rest = frames src (frameCount src) := by
  obtain ⟨rest, hrest⟩ := frames_add src (k + 1) (frameCount src - (k + 1))
  rw [Nat.add_sub_cancel' hk] at hrest
  refine ⟨rest, ?_, hrest.symm⟩
  have hsplit := h.stream
  rw [hrest, frames_succ, List.append_assoc] at hsplit
  exact List.append_cancel_left hsplit

theorem Unframed.pass (h : Unframed src k s) (hk : k < frameCount src) (p : Pieces)
    (hrounds : maxPktSize ≤ rounds) :
    ∃ t, tRcvPass p.ret rounds s = some t ∧ Unframed src (k + 1) t ∧
      (s.successTrans = s.written.length → t.successTrans = t.written.length) := by
  obtain ⟨rest, hfront, hrest⟩ := h.front hk
  have hle := length_frameData_le src (k + 1)
  rw [frame, List.append_assoc] at hfront
  obtain ⟨t, ht, hvalid, hstream, hwritten, hlens, hsuccess⟩ :=
    tRcvPass_frame p hle hfront h.status hrounds
  refine ⟨t, ht, ⟨hvalid, hstream ▸ hrest, ?_, ?_, ?_⟩, fun hsize => ?_⟩
  · rw [hwritten, h.written, Lib.firstBlocks_succ]
  · rw [hlens]
    intro d hd
    rcases List.mem_append.mp hd with hold | hnew
    · exact h.lens d hold
    · rw [List.mem_singleton.mp hnew]
      exact ⟨Int.natCast_nonneg _, Int.ofNat_le.mpr hle⟩
  · rw [hlens, List.length_append, h.count]
    rfl
  · rw [hsuccess, hsize, hwritten, List.length_append]
    push_cast
    rfl

theorem firstBlocks_frameCount (src : Bytes) :
    Lib.firstBlocks maxDataLen src (frameCount src) = src := by
  rw [Lib.firstBlocks_eq_take]
  refine List.take_of_length_le ?_
  rw [frameCount, Nat.mul_comm]
  exact (Nat.lt_mul_div_succ src.length (by decide)).le

theorem Unframed.main (h : Unframed src 0 s) (hsize : s.successTrans = s.written.length)
    (p : Pieces) (hrounds : maxPktSize ≤ rounds) {m : ℕ} (hm : frameCount src < m) :
    ∃ t, tRcvMain p.ret rounds m s = some t ∧ t.status = .cleared ∧ t.pdOpen = false ∧
      t.written = src ∧ t.successTrans = src.length ∧ t.dataLens.length = frameCount src ∧
      ∀ d ∈ t.dataLens, 0 ≤ d ∧ d ≤ maxDataLen := by
  rw [tRcvMain_eq]
  refine Lib.loopWhile_count (n := frameCount src + 1)
    (I := fun k s => Unframed src k s ∧ s.successTrans = s.written.length)
    (fun k s h => h.1.status) ?_ (Nat.succ_pos _) hm ⟨h, hsize⟩
  rintro k s hk ⟨h, hsize⟩
  rcases (Nat.le_of_lt_succ hk).lt_or_eq with hlt | rfl
  · obtain ⟨t, ht, hnext, hsize'⟩ := h.pass hlt p hrounds
    exact ⟨t, ht, fun _ => ⟨hnext, hsize' hsize⟩, fun hend => by omega⟩
  · have hend : s.stream = [] := List.append_right_eq_self.mp h.stream
    obtain ⟨t, ht, hcleared, hclosed, hwritten, hlens, hsuccess⟩ := tRcvPass_end p hend hrounds
    have hsrc : s.written = src := h.written.trans (firstBlocks_frameCount src)
    refine ⟨t, ht, fun hno => by omega, fun _ => ⟨by simp [hcleared], hcleared, hclosed,
      hwritten.trans hsrc, ?_, ?_, ?_⟩⟩
    · rw [hsuccess, hsize, hsrc]
    · rw [hlens, h.count]
    · rw [hlens]
      exact h.lens

/-- The two mains on one connection, with whatever the passes of the sender keep. -/
theorem tcp_transfer (src : Bytes) (sendBuf recvBuf : CharArray maxPktSize)
    (messLen : CharArray sizeofInt) (behind : ℕ → Bytes) (sends recvs : Pieces)
    (more extra : ℕ) {J : ℕ → TNcpState → Prop}
    (hkeep : ∀ k s t, k < frameCount src → J k s →
      Sent sends behind (frameData src (k + 1)) s t → J (k + 1) t)
    (hj : J 0 (.init src sendBuf)) :
    ∃ s r,
      tNcpMain sends.ret behind (maxPktSize + more) (frameCount src + extra)
        (.init src sendBuf) = some s ∧ s.status = .returned ∧ J (frameCount src) s ∧
      tRcvMain recvs.ret (maxPktSize + more) (frameCount src + 1 + extra)
        (.init messLen recvBuf s.sent) = some r ∧ r.status = .cleared ∧ r.pdOpen = false ∧
      r.written = src ∧ r.successTrans = src.length ∧ r.dataLens.length = frameCount src ∧
      ∀ d ∈ r.dataLens, 0 ≤ d ∧ d ≤ maxDataLen := by
  have hrounds : maxPktSize ≤ maxPktSize + more := Nat.le_add_right _ _
  have hstart : Framed src 0 (.init src sendBuf) := ⟨by rw [Nat.zero_mul]; rfl, rfl, rfl⟩
  obtain ⟨s, hs, hret, hsent, hj'⟩ := hstart.main hkeep hj hrounds
    (show frameCount src ≤ frameCount src + extra from Nat.le_add_right _ _)
  have haccept : Unframed src 0 (.init messLen recvBuf s.sent) :=
    ⟨rfl, hsent, rfl, by rintro d ⟨⟩, rfl⟩
  obtain ⟨r, hr, hrest⟩ := haccept.main rfl recvs hrounds
    (show frameCount src < frameCount src + 1 + extra by omega)
  exact ⟨s, r, hs, hret, hj', hr, hrest⟩

/-- Whatever the file and however the calls of `send` and `recv` cut the stream, the
sender returns, the receiver reads to the end of the connection, and has then written
the file, through lengths that all fit a frame. No inner loop needs more rounds than
a frame has bytes. -/
theorem framing_round_trip (src : Bytes) (sendBuf recvBuf : CharArray maxPktSize)
    (messLen : CharArray sizeofInt) (behind : ℕ → Bytes) (sends recvs : Pieces)
    (more extra : ℕ) :
    ∃ s r,
      tNcpMain sends.ret behind (maxPktSize + more) (frameCount src + extra)
        (.init src sendBuf) = some s ∧ s.status = .returned ∧
      tRcvMain recvs.ret (maxPktSize + more) (frameCount src + 1 + extra)
        (.init messLen recvBuf s.sent) = some r ∧ r.status = .cleared ∧ r.pdOpen = false ∧
      r.written = src ∧ r.dataLens.length = frameCount src ∧
      ∀ d ∈ r.dataLens, 0 ≤ d ∧ d ≤ maxDataLen := by
  obtain ⟨s, r, hs, hret, -, hr, hcleared, hclosed, hwritten, -, hlens⟩ :=
    tcp_transfer src sendBuf recvBuf messLen behind sends recvs more extra
      (J := fun _ _ => True) (fun _ _ _ _ _ _ => trivial) trivial
  exact ⟨s, r, hs, hret, hr, hcleared, hclosed, hwritten, hlens⟩

-- Three bytes, sent one by one and received two at a time.
example :
    let s := tNcpMain (fun _ _ => 1) (fun _ => []) 7 1 (.init [5, 6, 7] (.replicate _ 0))
    s.map TNcpState.sent = some [7, 0, 0, 0, 5, 6, 7] ∧
      (tRcvMain (fun _ len => (min 2 len : ℕ)) 4 2 (.init (.replicate _ 0) (.replicate _ 0)
        [7, 0, 0, 0, 5, 6, 7])).map TRcvState.written = some [5, 6, 7] := by
  decide +kernel

end Wan.Proj1
