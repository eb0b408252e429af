import Wan.Proj1.NcpWindow
import Wan.Usage

/-!
# The packet header in memory

`fill_win` ends with a `strcpy` of the destination name into the 20 bytes of
`d_fname`. The name comes from the command line, where nothing bounds it, and the
number, the window size, the length, the process id and the end mark lie right
behind those 20 bytes. Here the copy is one of bytes in memory; as long as it stays in
the packet, it is the one the model of the sender makes field by field
(`fillPkt_nextPkt`).
-/

namespace Wan.Proj1

open Posix

-- ---------------------------------------------------------------------------
-- The command line
-- ---------------------------------------------------------------------------

structure Target where
  dFname : Bytes
  serverIP : Bytes
  port : ℤ
  deriving DecidableEq

/-- What `Usage` takes from its last argument, unless it prints the help text or has no
port to read. -/
def usage (argv4 : Bytes) : Option Target :=
  match ncpTarget argv4 with
  | .parsed (dFname, serverIP, port) => some ⟨dFname, serverIP, port⟩
  | _ => none

theorem dFname_usage {argv4 : CString} {t : Target} (h : usage argv4 = some t) : 0 ∉ t.dFname := by
  obtain ⟨argv4, hnul⟩ := argv4
  simp only [usage, ncpTarget] at h
  cases hfirst : strtok delims argv4 with
  | none => simp [hfirst] at h
  | some first =>
    cases hsecond : strtok delims first.2 with
    | none => simp [hfirst, hsecond] at h
    | some second =>
      cases hthird : strtok delims second.2 with
      | none => simp [hfirst, hsecond, hthird] at h
      | some third =>
        simp only [hfirst, hsecond, hthird, Option.some.injEq] at h
        rw [← h]
        exact fun h0 => hnul (strtok_subset hfirst h0)

-- ---------------------------------------------------------------------------
-- The layout
-- ---------------------------------------------------------------------------

abbrev PktImage := CharArray maxPktSize

def NetPkt.fields (p : NetPkt) : List Bytes :=
  [p.data.toList, p.dFname.toList, leBytes 8 p.seq, leBytes 8 p.wSize, leBytes 4 p.dtSize,
    leBytes 4 p.pid, [if p.isEnd then 1 else 0]]

theorem NetPkt.image_eq (p : NetPkt) : p.image = p.fields.flatten := by
  simp [NetPkt.image, NetPkt.header, NetPkt.fields]

def NetPkt.toImage (p : NetPkt) : PktImage := ⟨p.image, Int.ofNat.inj p.length_image⟩

def NetPkt.ofImage (b : PktImage) : NetPkt where
  data := ⟨slice b.toList 0 pktDtSize, by simp [slice, maxPktSize, pktDtSize]⟩
  dFname := ⟨slice b.toList 1355 20, by simp [slice, maxPktSize]⟩
  seq := leInt (slice b.toList 1375 8)
  wSize := leInt (slice b.toList 1383 8)
  dtSize := leInt (slice b.toList 1391 4)
  pid := leInt (slice b.toList 1395 4)
  isEnd := slice b.toList 1399 1 ≠ [0]

/-- The string at `d_fname`, which ends where a byte 0 is, in the field or not. -/
def nameAt (b : PktImage) : Bytes := (b.toList.drop 1355).takeWhile (· ≠ 0)

theorem NetPkt.ofImage_toImage {p : NetPkt} (hseq : -2 ^ 63 ≤ p.seq ∧ p.seq < 2 ^ 63)
    (hw : -2 ^ 63 ≤ p.wSize ∧ p.wSize < 2 ^ 63) (hdt : -2 ^ 31 ≤ p.dtSize ∧ p.dtSize < 2 ^ 31)
    (hpid : -2 ^ 31 ≤ p.pid ∧ p.pid < 2 ^ 31) : NetPkt.ofImage p.toImage = p := by
  have field {off len : ℕ} {field : Bytes} (i : ℕ) (hi : p.fields[i]? = some field)
      (hoff : ((p.fields.take i).map List.length).sum = off) (hlen : field.length = len) :
      slice p.toImage.toList off len = field := by
    show slice p.image off len = field
    rw [p.image_eq]
    exact slice_flatten i hi hoff hlen
  have hdata : (ofImage p.toImage).data = p.data := by
    apply List.Vector.toList_injective
    exact field 0 rfl (by simp) (List.Vector.toList_length _)
  have hname : (ofImage p.toImage).dFname = p.dFname := by
    apply List.Vector.toList_injective
    exact field 1 rfl (by simp [fields]) (List.Vector.toList_length _)
  have hseq' : (ofImage p.toImage).seq = p.seq := by
    show leInt _ = _
    rw [field 2 rfl (by simp [fields]) (length_leBytes ..)]
    exact leInt_leBytes_eight hseq.1 hseq.2
  have hw' : (ofImage p.toImage).wSize = p.wSize := by
    show leInt _ = _
    rw [field 3 rfl (by simp [fields, length_leBytes]) (length_leBytes ..)]
    exact leInt_leBytes_eight hw.1 hw.2
  have hdt' : (ofImage p.toImage).dtSize = p.dtSize := by
    show leInt _ = _
    rw [field 4 rfl (by simp [fields, length_leBytes]) (length_leBytes ..)]
    exact leInt_leBytes_four hdt.1 hdt.2
  have hpid' : (ofImage p.toImage).pid = p.pid := by
    show leInt _ = _
    rw [field 5 rfl (by simp [fields, length_leBytes]) (length_leBytes ..)]
    exact leInt_leBytes_four hpid.1 hpid.2
  have hend : (ofImage p.toImage).isEnd = p.isEnd := by
    have hmark : slice p.toImage.toList 1399 1 = [if p.isEnd then 1 else 0] :=
      field 6 rfl (by simp [fields, length_leBytes]) rfl
    show decide (slice _ 1399 1 ≠ [0]) = _
    rw [hmark]
    cases p.isEnd <;> rfl
  cases p with | mk data dFname seq wSize dtSize pid isEnd =>
  rw [NetPkt.mk.injEq]
  exact ⟨hdata, hname, hseq', hw', hdt', hpid', hend⟩

-- ---------------------------------------------------------------------------
-- Filling a packet
-- ---------------------------------------------------------------------------

/-- What `fetch_next` and `fill_win` leave in the block of memory: the name is
copied last. -/
def fillPkt (isLAN : Bool) (pd pdEnd : FileStream) (block : NetPkt) (seq pid : ℤ) (name : Bytes) :
    PktImage :=
  let pkt := (fetchNext (if isLAN then lWSize else wWSize) pd pdEnd block).2.2
  let pkt := { pkt with seq := seq, pid := pid }
  pkt.toImage.memcpyAt 1355 (name ++ [0])

def copyOver (src dst : Bytes) : Bytes := src.take dst.length ++ dst.drop src.length

theorem copyOver_append (src a b : Bytes) :
    copyOver src (a ++ b) = copyOver src a ++ copyOver (src.drop a.length) b := by
  rcases le_total src.length a.length with h | h
  · have hnil : src.drop a.length = [] := List.drop_of_length_le h
    simp only [copyOver, hnil, List.take_nil, List.length_nil, List.drop_zero, List.nil_append]
    rw [List.take_of_length_le (h.trans (by simp)), List.take_of_length_le h,
      List.drop_append_of_le_length h, List.append_assoc]
  · have hnil : a.drop src.length = [] := List.drop_of_length_le h
    simp only [copyOver, hnil, List.append_nil, List.length_append, List.length_drop]
    rw [← List.append_assoc, List.take_add, List.drop_append, hnil, List.nil_append]

theorem copyOver_slice (src dst : Bytes) {off w : ℕ} (hw : dst.length = w) :
    copyOver (slice src off w) dst = copyOver (src.drop off) dst := by
  rcases le_total (src.drop off).length w with h | h
  · rw [slice, List.take_of_length_le h]
  · have hfull : (slice src off w).length = w := by rw [slice, List.length_take, min_eq_left h]
    rw [copyOver, copyOver, List.drop_of_length_le (hw.trans hfull.symm).le,
      List.drop_of_length_le (hw.trans_le h), List.append_nil, List.append_nil, hw, slice,
      List.take_take, min_self]

theorem copyOver_leBytes (src : Bytes) (x : ℤ) (off w : ℕ) :
    leBytes w (overlay w x (slice src off w)) = copyOver (src.drop off) (leBytes w x) := by
  have hlen : (slice src off w).length ≤ w := by
    rw [slice, List.length_take]
    exact min_le_left _ _
  rw [leBytes_overlay hlen, ← copyOver_slice src (leBytes w x) (length_leBytes w x), copyOver,
    length_leBytes, List.take_of_length_le hlen]

theorem toImage_strcpy (p : NetPkt) {name : Bytes} (h : name.length < 45) :
    p.toImage.memcpyAt 1355 (name ++ [0]) = (p.strcpy name).toImage := by
  obtain ⟨copied, hcopied⟩ : ∃ copied, name ++ [0] = copied := ⟨_, rfl⟩
  have hlen : copied.length ≤ 45 := by
    rw [← hcopied, List.length_append, List.length_singleton]
    omega
  have hdata : p.data.toList.length = 1355 := List.Vector.toList_length _
  have hlast : copied[44]? = none ∨ copied[44]? = some 0 := by
    rw [← hcopied]
    rcases Nat.lt_or_ge name.length 44 with hlt | hge
    · left
      rw [List.getElem?_eq_none_iff, List.length_append, List.length_singleton]
      omega
    · right
      obtain hlen44 : name.length = 44 := by omega
      rw [List.getElem?_append_right hlen44.le, hlen44]
      rfl
  have hname : (p.dFname.strcpy name).toList = copyOver copied p.dFname.toList := by
    show List.take 20 _ = _
    rw [hcopied, copyOver, List.Vector.toList_length, List.take_append, List.take_of_length_le
      (l := p.dFname.toList.drop _)]
    rw [List.length_drop, List.Vector.toList_length]
  have hend : [if (p.strcpy name).isEnd then (1 : UInt8) else 0] =
      copyOver (copied.drop 44) [if p.isEnd then 1 else 0] := by
    simp only [NetPkt.strcpy, hcopied]
    rcases hlast with hnone | hzero
    · rw [hnone, List.drop_of_length_le (List.getElem?_eq_none_iff.mp hnone)]
      rfl
    · obtain ⟨hlt, hget⟩ := List.getElem?_eq_some_iff.mp hzero
      rw [hzero, List.drop_eq_getElem_cons hlt, hget]
      simp [copyOver]
  -- field after field, the copy goes on where the one before ended
  have hflat : (p.strcpy name).image =
      p.data.toList ++ copyOver copied (p.fields.drop 1).flatten := by
    rw [NetPkt.image_eq]
    simp only [NetPkt.fields, List.drop_succ_cons, List.drop_zero, List.flatten_cons,
      List.flatten_nil, List.append_nil, copyOver_append, List.drop_drop, List.Vector.toList_length,
      length_leBytes, hend]
    rw [← hname]
    simp only [NetPkt.strcpy, hcopied, copyOver_leBytes, Nat.reduceAdd]
  have himage : p.image = p.data.toList ++ (p.fields.drop 1).flatten := by
    rw [NetPkt.image_eq]
    rfl
  have hbehind : (p.fields.drop 1).flatten.length = 45 := by
    simp [NetPkt.fields, length_leBytes]
  apply List.Vector.toList_injective
  rw [hcopied, CharArray.toList_memcpyAt _ (by simp only [maxPktSize]; omega)]
  show List.take 1355 p.image ++ _ ++ List.drop _ p.image = NetPkt.image _
  rw [hflat, himage, List.take_left' hdata, ← List.drop_drop, List.drop_left' hdata, copyOver,
    hbehind, List.take_of_length_le hlen, List.append_assoc]

theorem fillPkt_nextPkt (env : NcpEnv) (s : NcpState) (h : env.dFname.1.length < 45) :
    fillPkt env.isLAN s.pd s.pdEnd (env.malloc s.pktCnt.toNat) s.pktCnt env.pid env.dFname =
      (nextPkt env s).2.2.toImage :=
  toImage_strcpy _ h

structure HeaderKept (isLAN : Bool) (src : Bytes) (k : ℕ) (seq pid : ℤ) (name : Bytes)
    (b : PktImage) : Prop where
  data : (NetPkt.ofImage b).data.toList.take (chunk src k).length = chunk src k
  dtSize : (NetPkt.ofImage b).dtSize = (chunk src k).length
  wSize : (NetPkt.ofImage b).wSize = if isLAN then lWSize else wWSize
  isEnd : (NetPkt.ofImage b).isEnd = decide (k = lastChunk src)
  seq : (NetPkt.ofImage b).seq = seq
  pid : (NetPkt.ofImage b).pid = pid
  name : nameAt b = name

theorem nameAt_memcpyAt (b : PktImage) {name : Bytes} (hnul : 0 ∉ name) (h : name.length < 20) :
    nameAt (b.memcpyAt 1355 (name ++ [0])) = name := by
  have hlen : (b.toList.take 1355).length = 1355 := by simp [maxPktSize]
  rw [nameAt, CharArray.toList_memcpyAt _ (by simp [maxPktSize]; omega), List.append_assoc,
    List.drop_left' hlen, List.append_assoc, List.takeWhile_append_of_pos fun a ha => by
      simp only [ne_eq, decide_eq_true_eq]
      rintro rfl
      exact hnul ha]
  simp

theorem headerKept_of_short {isLAN : Bool} {src : Bytes} {k : ℕ} (hk : 1 ≤ k)
    (hle : k ≤ lastChunk src) (block : NetPkt) (seq : Int64) (pid : Int32) {name : Bytes}
    (hnul : 0 ∉ name) (h : name.length < 20) :
    HeaderKept isLAN src k seq.toInt pid.toInt name
      (fillPkt isLAN (pdAt src k) (pdEndAt src k) block seq.toInt pid.toInt name) := by
  have hchunk : (chunk src k).length ≤ pktDtSize := by
    rw [Lib.length_block]
    exact min_le_left _ _
  have hwin : -2 ^ 63 ≤ (if isLAN then lWSize else wWSize) ∧
      (if isLAN then lWSize else wWSize) < 2 ^ 63 := by
    cases isLAN <;> decide
  have hback : NetPkt.ofImage (fillPkt isLAN (pdAt src k) (pdEndAt src k) block seq.toInt
      pid.toInt name) =
      { data := block.data.memcpy (chunk src k)
        dFname := block.dFname.strcpy name
        seq := seq.toInt
        wSize := if isLAN then lWSize else wWSize
        dtSize := (chunk src k).length
        pid := pid.toInt
        isEnd := decide (k = lastChunk src) } := by
    rw [fillPkt, toImage_strcpy _ (by omega), NetPkt.strcpy_of_short _ h, fetchNext_at hk hle]
    refine NetPkt.ofImage_toImage ⟨seq.le_toInt, seq.toInt_lt⟩ hwin ⟨?_, ?_⟩
      ⟨pid.le_toInt, pid.toInt_lt⟩
    · exact le_trans (by decide) (Int.natCast_nonneg _)
    · exact lt_of_le_of_lt (Int.ofNat_le.mpr hchunk) (by decide)
  refine ⟨?_, ?_, ?_, ?_, ?_, ?_, nameAt_memcpyAt _ hnul h⟩
  · rw [hback]
    exact CharArray.take_memcpy block.data hchunk
  all_goals rw [hback]

/-- The byte of the name behind the field is the low byte of the number, whatever
the number was. -/
theorem seq_of_long {name : Bytes} (h : 20 ≤ name.length) :
    ∃ c : UInt8, ∀ isLAN pd pdEnd block seq pid,
      (NetPkt.ofImage (fillPkt isLAN pd pdEnd block seq pid name)).seq % 256 = c.toNat := by
  have hname : 20 < (name ++ [0]).length := by
    rw [List.length_append, List.length_singleton]
    omega
  refine ⟨(name ++ [0])[20], fun isLAN pd pdEnd block seq pid => ?_⟩
  obtain ⟨b, hb⟩ : ∃ b : PktImage,
      fillPkt isLAN pd pdEnd block seq pid name = b.memcpyAt 1355 (name ++ [0]) := ⟨_, rfl⟩
  have hfront : (b.toList.take 1355).length = 1355 := by simp [maxPktSize]
  have hget : (b.memcpyAt 1355 (name ++ [0])).toList[1375]? = (name ++ [0])[20]? := by
    show (List.take maxPktSize _)[1375]? = _
    rw [List.getElem?_take_of_lt (by decide), List.append_assoc,
      List.getElem?_append_right (by omega), hfront, List.getElem?_append_left (by omega)]
  have hlen : 1375 < (b.memcpyAt 1355 (name ++ [0])).toList.length := by
    rw [List.Vector.toList_length]
    decide
  rw [List.getElem?_eq_getElem hname, List.getElem?_eq_getElem hlen] at hget
  rw [hb]
  show leInt (((b.memcpyAt 1355 (name ++ [0])).toList.drop 1375).take 8) % 256 = _
  rw [List.drop_eq_getElem_cons hlen, Option.some.inj hget, List.take_succ_cons]
  exact leInt_cons_emod _ _

/-- For every name the command line can give: whatever the file, the chunk, the
memory, the number and the process id are, the header is read back as it was
filled, exactly when the name fits its field with the byte 0 behind it. -/
theorem header_round_trip (argv4 : CString) (t : Target) (ht : usage argv4 = some t) :
    (∀ (isLAN : Bool) (src : Bytes) (k : ℕ), 1 ≤ k → k ≤ lastChunk src →
      ∀ (block : NetPkt) (seq : Int64) (pid : Int32),
        HeaderKept isLAN src k seq.toInt pid.toInt t.dFname
          (fillPkt isLAN (pdAt src k) (pdEndAt src k) block seq.toInt pid.toInt t.dFname)) ↔
      t.dFname.length < 20 := by
  constructor
  · intro hall
    by_contra hlong
    -- two numbers that differ in the byte that is overwritten
    obtain ⟨c, hc⟩ := seq_of_long (not_lt.mp hlong)
    have hseq (seq : Int64) : seq.toInt % 256 = c.toNat := by
      rw [← (hall true [] 1 le_rfl le_rfl
        ⟨.replicate _ 0, .replicate _ 0, 0, 0, 0, 0, false⟩ seq 0).seq]
      exact hc ..
    exact absurd ((hseq 1).trans (hseq 2).symm) (by decide)
  · intro hshort isLAN src k hk hle block seq pid
    exact headerKept_of_short hk hle block seq pid (dFname_usage ht) hshort

/-- `a@1:2`. -/
theorem header_round_trip_a :
    usage [97, 64, 49, 58, 50] = some ⟨[97], [49], 2⟩ ∧
      HeaderKept true [1, 2, 3] 1 7 9 [97] (fillPkt true (pdAt [1, 2, 3] 1) (pdEndAt [1, 2, 3] 1)
        ⟨.replicate _ 0, .replicate _ 0, 0, 0, 0, 0, false⟩ 7 9 [97]) :=
  ⟨by decide, (header_round_trip ⟨[97, 64, 49, 58, 50], by decide⟩ ⟨[97], [49], 2⟩
    (by decide)).mpr (by decide) true [1, 2, 3] 1 le_rfl (by decide) _ 7 9⟩

/-- The name has 20 letters: the byte 0 behind it is written over the number 1. -/
theorem header_overwritten :
    let name : Bytes := List.replicate 20 97
    let b := fillPkt true (pdAt [1, 2, 3] 1) (pdEndAt [1, 2, 3] 1)
      ⟨.replicate _ 0, .replicate _ 0, 0, 0, 0, 0, false⟩ 1 9 name
    usage (name ++ [64, 49, 58, 50]) = some ⟨name, [49], 2⟩ ∧ (NetPkt.ofImage b).seq = 0 ∧
      ¬ HeaderKept true [1, 2, 3] 1 1 9 name b :=
  ⟨by decide +kernel, by decide +kernel, fun h => absurd h.seq (by decide +kernel)⟩

end Wan.Proj1
