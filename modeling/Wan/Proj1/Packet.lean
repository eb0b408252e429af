import Wan.Posix
import Wan.Lib.Blocks

/-!
# Packets and chunks (utils/packet.h, utils/file_helper.cpp)

`net_pkt` carries one chunk of the file from `ncp` to `rcv`; `ack_pkt` carries
acknowledgments back. `fetchNext` fills a packet from the source stream and
closes both streams with the packet that reaches the end of the file.
`long long` and `int` fields are integers: sequence numbers stay below the
number of chunks of one file.
-/

namespace Wan.Proj1

open Posix

abbrev maxPktSize : ℕ := 1400
abbrev sizeofInt : ℕ := 4
abbrev maxDataLen : ℕ := maxPktSize - sizeofInt
abbrev pktDtSize : ℕ := 1355
abbrev megabytes : ℤ := 1000000
abbrev lWSize : ℤ := 10
abbrev wWSize : ℤ := 45

structure NetPkt where
  data : CharArray pktDtSize
  dFname : CharArray 20
  seq : ℤ
  wSize : ℤ
  dtSize : ℤ
  pid : ℤ
  isEnd : Bool
  deriving DecidableEq

structure AckPkt where
  cumSeq : ℤ
  dataSize : ℤ
  isNack : Bool
  deriving DecidableEq, Repr

def NetPkt.header (p : NetPkt) : Bytes :=
  p.dFname.toList ++ leBytes 8 p.seq ++ leBytes 8 p.wSize ++ leBytes 4 p.dtSize ++
    leBytes 4 p.pid ++ [if p.isEnd then 1 else 0]

def NetPkt.image (p : NetPkt) : Bytes := p.data.toList ++ p.header

abbrev sizeofNetPkt : ℤ := 1400

theorem NetPkt.length_image (p : NetPkt) : (p.image.length : ℤ) = sizeofNetPkt := by
  simp [NetPkt.image, NetPkt.header, leBytes, sizeofNetPkt]

/-- What `pd.write(pkt->data, pkt->dt_size)` writes: a count larger than the
data field goes on into the fields packed behind it. -/
def NetPkt.payload (p : NetPkt) : Bytes := p.image.take p.dtSize.toNat

theorem NetPkt.payload_of_le {p : NetPkt} (h : p.dtSize ≤ pktDtSize) :
    p.payload = p.data.toList.take p.dtSize.toNat := by
  have hlen : p.dtSize.toNat ≤ p.data.toList.length := by
    rw [List.Vector.toList_length]
    omega
  exact List.take_append_of_le_length hlen

/-- The string at `pkt->d_fname`, which ends where a byte 0 is, in the field or
behind it. -/
def NetPkt.name (p : NetPkt) : Bytes := p.header.takeWhile (· ≠ 0)

/-- `strcpy(pkt->d_fname, name)`: a name that does not fit goes on into the fields
packed behind it. What it writes behind the packet is not followed. -/
def NetPkt.strcpy (p : NetPkt) (name : Bytes) : NetPkt :=
  let copied := name ++ [0]
  { p with
    dFname := p.dFname.strcpy name
    seq := overlay 8 p.seq (slice copied 20 8)
    wSize := overlay 8 p.wSize (slice copied 28 8)
    dtSize := overlay 4 p.dtSize (slice copied 36 4)
    pid := overlay 4 p.pid (slice copied 40 4)
    isEnd := match copied[44]? with
      | some b => b ≠ 0
      | none => p.isEnd }

theorem NetPkt.name_eq {p : NetPkt} {buf : CharArray 20} {name : Bytes}
    (hp : p.dFname = buf.strcpy name) (hnul : 0 ∉ name) (h : name.length < 20) : p.name = name := by
  simp only [NetPkt.name, NetPkt.header, hp, CharArray.toList_strcpy buf h, List.append_assoc]
  rw [← List.append_assoc name]
  exact takeWhile_terminated hnul _

theorem NetPkt.strcpy_of_short (p : NetPkt) {name : Bytes} (h : name.length < 20) :
    p.strcpy name = { p with dFname := p.dFname.strcpy name } := by
  have hnil (off len : ℕ) (hoff : 20 ≤ off) : slice (name ++ [0]) off len = [] := by
    rw [slice, List.drop_of_length_le, List.take_nil]
    rw [List.length_append, List.length_singleton]
    omega
  have hnone : (name ++ [0])[44]? = none := by
    rw [List.getElem?_eq_none_iff, List.length_append, List.length_singleton]
    omega
  simp only [NetPkt.strcpy, hnone]
  rw [hnil 20 8 (by decide), hnil 28 8 (by decide), hnil 36 4 (by decide), hnil 40 4 (by decide),
    overlay_nil (by decide), overlay_nil (by decide), overlay_nil (by decide),
    overlay_nil (by decide)]

def fetchNext (wSize : ℤ) (f fEnd : FileStream) (pkt : NetPkt) :
    FileStream × FileStream × NetPkt :=
  let pkt := { pkt with wSize := wSize }
  -- bound check for last packet
  let pkt := { pkt with dtSize :=
    if fEnd.ftell - f.ftell < pktDtSize then fEnd.ftell - f.ftell else pktDtSize }
  -- read from disk
  let (read, f) := f.fread pkt.dtSize.toNat
  let pkt := { pkt with data := pkt.data.memcpy read }
  -- check if last pkt
  if f.ftell ≥ fEnd.ftell then (f.fclose, fEnd.fclose, { pkt with isEnd := true })
  else (f, fEnd, { pkt with isEnd := false })

-- ---------------------------------------------------------------------------
-- Chunks of a file
-- ---------------------------------------------------------------------------

abbrev chunk (src : Bytes) (k : ℕ) : Bytes := Lib.block pktDtSize src k

/-- The number of the last chunk: an empty file has one empty chunk. -/
abbrev lastChunk (src : Bytes) : ℕ := Lib.blockCount pktDtSize src

abbrev chunks (src : Bytes) (k : ℕ) : Bytes := Lib.firstBlocks pktDtSize src k

theorem chunks_lastChunk (src : Bytes) : chunks src (lastChunk src) = src :=
  Lib.firstBlocks_blockCount (by decide)

theorem lt_lastChunk_iff {src : Bytes} {k : ℕ} (hk : 1 ≤ k) :
    k < lastChunk src ↔ k * pktDtSize < src.length :=
  Lib.lt_blockCount_iff (by decide) hk

structure Carries (src fname : Bytes) (k : ℕ) (p : NetPkt) : Prop where
  seq : p.seq = k
  payload : p.payload = chunk src k
  dtSize : p.dtSize = (chunk src k).length
  name : p.name = fname
  wSize : 0 < p.wSize
  isEnd : p.isEnd = decide (k = lastChunk src)
  pos : 1 ≤ k
  le : k ≤ lastChunk src

def fullPkt (fname : Bytes) (byte : UInt8) (seq : ℤ) (isEnd : Bool) : NetPkt where
  data := .replicate _ byte
  dFname := CharArray.strcpy (.replicate _ 0) fname
  seq := seq
  wSize := lWSize
  dtSize := pktDtSize
  pid := 1
  isEnd := isEnd

theorem carries_fullPkt {fname : Bytes} (hnul : 0 ∉ fname) (hfit : fname.length < 20)
    (byte : UInt8) {n k : ℕ} (hk : 1 ≤ k) (hn : k ≤ n) :
    Carries (.replicate (n * pktDtSize) byte) fname k (fullPkt fname byte k (decide (k = n))) := by
  have hlast : lastChunk (.replicate (n * pktDtSize) byte) = n := by
    simp only [Lib.blockCount, List.length_replicate, pktDtSize]
    omega
  have hchunk : chunk (.replicate (n * pktDtSize) byte) k = .replicate pktDtSize byte := by
    simp only [Lib.block, List.drop_replicate, List.take_replicate, pktDtSize]
    congr 1
    omega
  exact {
    seq := rfl
    payload := by
      rw [hchunk, NetPkt.payload_of_le le_rfl]
      exact List.take_of_length_le (List.length_replicate ..).le
    dtSize := by
      rw [hchunk, List.length_replicate]
      rfl
    name := NetPkt.name_eq rfl hnul hfit
    wSize := show (0 : ℤ) < lWSize by decide
    isEnd := by rw [hlast]; rfl
    pos := hk
    le := hn.trans_eq hlast.symm }

end Wan.Proj1
