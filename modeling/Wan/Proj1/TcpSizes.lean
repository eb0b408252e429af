import Wan.Proj1.Framing
import Mathlib.Algebra.BigOperators.Intervals

/-!
# The sizes the TCP programs report

`t_rcv` adds up the lengths of the frames, `t_ncp` what `strlen` makes of the buffer:
it misses the bytes of a frame from its first zero on, and without a zero it goes on
behind the frame, over what the frame before left there and over the end of the buffer.
The sizes agree exactly when the two errors are equally large over all frames.
-/

namespace Wan.Proj1

open Posix

variable {src : Bytes} {k : ℕ} {s t : TNcpState} {messBuf : CharArray maxPktSize}
  {behind : ℕ → Bytes} {p : Pieces}

def fromZero (data : Bytes) : ℕ := (data.dropWhile (· ≠ 0)).length

def pastEnd (data after : Bytes) : ℕ := if 0 ∈ data then 0 else (after.takeWhile (· ≠ 0)).length

def dataBefore (messBuf : CharArray maxPktSize) (src : Bytes) : ℕ → Bytes
  | 0 => dataPart messBuf
  | k + 1 => frameData src (k + 1)

def callsAt (p : Pieces) (src : Bytes) : ℕ → ℕ
  | 0 => 0
  | k + 1 =>
    callsAfter p.ret maxPktSize ((frameData src (k + 1)).length + sizeofInt) (callsAt p src k)

/-- What stands behind the data of frame `k + 1` when they are counted: the part of the
buffer they leave, then the memory behind it. -/
def memoryAfter (messBuf : CharArray maxPktSize) (behind : ℕ → Bytes) (p : Pieces) (src : Bytes)
    (k : ℕ) : Bytes :=
  (dataBefore messBuf src k).drop (frameData src (k + 1)).length ++ behind (callsAt p src (k + 1))

theorem strlen_append (data after : Bytes) :
    ((data ++ after).takeWhile (· ≠ 0)).length + fromZero data =
      data.length + pastEnd data after := by
  induction data with
  | nil => simp [fromZero, pastEnd]
  | cons b data ih =>
    by_cases hb : b = 0
    · simp [fromZero, pastEnd, hb]
    · have hmem : (0 : UInt8) ∈ b :: data ↔ 0 ∈ data := by simp [Ne.symm hb]
      simp only [fromZero, pastEnd, hmem, List.cons_append, List.takeWhile_cons,
        List.dropWhile_cons, decide_eq_true hb, if_true, List.length_cons] at ih ⊢
      omega

theorem length_dataPart (messBuf : CharArray maxPktSize) :
    (dataPart messBuf).length = maxDataLen := by
  rw [dataPart, List.length_drop, List.Vector.toList_length]

structure Strlens (messBuf : CharArray maxPktSize) (behind : ℕ → Bytes) (p : Pieces) (src : Bytes)
    (k : ℕ) (s : TNcpState) : Prop where
  calls : s.calls = callsAt p src k
  buf : k < frameCount src → dataPart s.messBuf = dataBefore messBuf src k
  total : s.successTrans + (∑ i ∈ Finset.range k, fromZero (frameData src (i + 1)) : ℕ) =
    (Lib.firstBlocks maxDataLen src k).length +
      (∑ i ∈ Finset.range k,
        pastEnd (frameData src (i + 1)) (memoryAfter messBuf behind p src i) : ℕ)

theorem strlens_init (src : Bytes) (messBuf : CharArray maxPktSize) (behind : ℕ → Bytes)
    (p : Pieces) : Strlens messBuf behind p src 0 (.init src messBuf) where
  calls := rfl
  buf := fun _ => rfl
  total := rfl

theorem Strlens.sent (h : Strlens messBuf behind p src k s) (hk : k < frameCount src)
    (hsent : Sent p behind (frameData src (k + 1)) s t) :
    Strlens messBuf behind p src (k + 1) t where
  calls := by rw [hsent.calls, h.calls, callsAt]
  buf := by
    intro hmore
    -- the frame is full and leaves nothing of the one before
    have hfull := mt (frameData_short_iff hk).mp hmore.ne
    rw [hsent.buf, dataBefore, List.drop_of_length_le, List.append_nil]
    rw [length_dataPart]
    exact not_lt.mp hfull
  total := by
    have hcalls : t.calls = callsAt p src (k + 1) := by rw [hsent.calls, h.calls, callsAt]
    have hstrlen : strlenData t.messBuf (behind t.calls) =
        ((frameData src (k + 1) ++
          memoryAfter messBuf behind p src k).takeWhile (· ≠ 0)).length := by
      rw [strlenData, ← dataPart, hsent.buf, h.buf hk, hcalls, List.append_assoc, memoryAfter]
    have hframe := strlen_append (frameData src (k + 1)) (memoryAfter messBuf behind p src k)
    have hblocks : Lib.firstBlocks maxDataLen src (k + 1) =
        Lib.firstBlocks maxDataLen src k ++ frameData src (k + 1) := Lib.firstBlocks_succ k
    have htotal := h.total
    rw [hsent.success, hstrlen, Finset.sum_range_succ, Finset.sum_range_succ, hblocks,
      List.length_append]
    push_cast at htotal ⊢
    omega

/-- Whatever the file, the buffers and the memory behind them, and however the calls of
`send` and `recv` cut the stream: both programs come to the end, `t_rcv` reports the length
of the file, and both do exactly when the bytes from the first zero of each frame on are
as many as the bytes counted behind the frames without a zero. -/
theorem size_agreement_iff (src : Bytes) (sendBuf recvBuf : CharArray maxPktSize)
    (messLen : CharArray sizeofInt) (behind : ℕ → Bytes) (sends recvs : Pieces)
    (more extra : ℕ) :
    ∃ s r,
      tNcpMain sends.ret behind (maxPktSize + more) (frameCount src + extra)
        (.init src sendBuf) = some s ∧ s.status = .returned ∧
      tRcvMain recvs.ret (maxPktSize + more) (frameCount src + 1 + extra)
        (.init messLen recvBuf s.sent) = some r ∧ r.status = .cleared ∧
      r.successTrans = src.length ∧
      ((s.successTrans = src.length ∧ r.successTrans = src.length) ↔
        ∑ k ∈ Finset.range (frameCount src), fromZero (frameData src (k + 1)) =
          ∑ k ∈ Finset.range (frameCount src),
            pastEnd (frameData src (k + 1)) (memoryAfter sendBuf behind sends src k)) := by
  obtain ⟨s, r, hs, hret, hstrlens, hr, hcleared, -, -, hsize, -⟩ :=
    tcp_transfer src sendBuf recvBuf messLen behind sends recvs more extra
      (fun k s t hk h hsent => Strlens.sent h hk hsent) (strlens_init src sendBuf behind sends)
  refine ⟨s, r, hs, hret, hr, hcleared, hsize, ?_⟩
  have htotal := hstrlens.total
  rw [firstBlocks_frameCount] at htotal
  rw [and_iff_left hsize]
  omega

/-- A file of one zero byte, which `t_ncp` does not count; and one byte that is read into
a buffer without a zero, where the count goes on to its end. -/
theorem sizes_disagree :
    let send (src : Bytes) (fill : UInt8) :=
      tNcpMain (fun _ len => len) (fun _ => [0]) 5 1 (.init src (.replicate _ fill))
    let receive (s : TNcpState) :=
      tRcvMain (fun _ len => len) 4 2 (.init (.replicate _ 0) (.replicate _ 0) s.sent)
    (send [0] 0).map TNcpState.successTrans = some 0 ∧
      ((send [0] 0).bind receive).map TRcvState.successTrans = some 1 ∧
      (send [97] 7).map TNcpState.successTrans = some 1396 ∧
      ((send [97] 7).bind receive).map TRcvState.successTrans = some 1 := by
  decide +kernel

end Wan.Proj1
