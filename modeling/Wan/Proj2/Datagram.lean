import Wan.Proj2.Cache

/-!
# From one application to the other

A datagram is read into a buffer of `MAX_PKT_LEN` bytes and copied into the data
field of a packet, which is 20 bytes shorter. The packet is sent as it lies in
memory. The receiver hands `dt_size` bytes from its data field on to its own
application: what does not fit the field is written behind the packet on one side
and read from behind it on the other.
-/

namespace Wan.Proj2

open Posix Lib

abbrev maxPktLen : ℕ := 1400

variable {s : RtSrvState} {apps : List Bytes} {bytes : Bytes} {q : NetPkt}

-- ---------------------------------------------------------------------------
-- The packet on the wire
-- ---------------------------------------------------------------------------

def NetPkt.fields (p : NetPkt) : List Bytes :=
  [leBytes 8 p.senderTS, leBytes 8 p.seq, leBytes 4 p.dtSize, p.data.toList]

def NetPkt.image (p : NetPkt) : CharArray maxPktLen :=
  ⟨p.fields.flatten, by simp [NetPkt.fields, length_leBytes, maxPktLen, dataLen]⟩

def NetPkt.ofImage (b : CharArray maxPktLen) : NetPkt where
  senderTS := leInt (slice b.toList 0 8)
  seq := leNat (slice b.toList 8 8)
  dtSize := leInt (slice b.toList 16 4)
  data := ⟨slice b.toList 20 dataLen, by simp [slice, maxPktLen]⟩

theorem NetPkt.seq_ofImage (p : NetPkt) : (NetPkt.ofImage p.image).seq = p.seq % 2 ^ 64 := by
  have h : slice p.image.toList 8 8 = leBytes 8 p.seq :=
    slice_flatten 1 rfl (by simp [fields, length_leBytes]) (length_leBytes ..)
  have hval := leNat_leBytes 8 p.seq
  show leNat _ = _
  rw [h]
  omega

theorem NetPkt.dtSize_ofImage (p : NetPkt) :
    (NetPkt.ofImage p.image).dtSize = p.dtSize.bmod (256 ^ 4) := by
  have h : slice p.image.toList 16 4 = leBytes 4 p.dtSize :=
    slice_flatten 2 rfl (by simp [fields, length_leBytes]) (length_leBytes ..)
  show leInt _ = _
  rw [h, leInt_leBytes]

theorem NetPkt.data_ofImage (p : NetPkt) : (NetPkt.ofImage p.image).data = p.data := by
  apply List.Vector.toList_injective
  exact slice_flatten 3 rfl (by simp [fields, length_leBytes]) (List.Vector.toList_length _)

/-- What the application is handed, with the bytes behind the packet. -/
def NetPkt.datagram (p : NetPkt) (behind : ℕ → UInt8) : Bytes :=
  p.data.toList.take p.dtSize.toNat ++ (List.range (p.dtSize.toNat - dataLen)).map behind

/-- The data field holds as much of the datagram as fits, and `dt_size` its
length. -/
structure Holds (bytes : Bytes) (p : NetPkt) : Prop where
  dtSize : p.dtSize = bytes.length
  data : p.data.toList.take bytes.length = bytes.take dataLen
  length : bytes.length ≤ maxPktLen

theorem Holds.dtSize_ofImage (h : Holds bytes q) :
    (NetPkt.ofImage q.image).dtSize = bytes.length := by
  have hlen : bytes.length ≤ 1400 := h.length
  rw [NetPkt.dtSize_ofImage, h.dtSize]
  exact Int.bmod_eq_of_le (by omega) (by omega)

theorem Holds.datagram (h : Holds bytes q) (behind : ℕ → UInt8) :
    (NetPkt.ofImage q.image).datagram behind =
      bytes.take dataLen ++ (List.range (bytes.length - dataLen)).map behind := by
  rw [NetPkt.datagram, h.dtSize_ofImage, NetPkt.data_ofImage, Int.toNat_natCast, h.data]

theorem Holds.datagram_iff (h : Holds bytes q) :
    (∀ behind, (NetPkt.ofImage q.image).datagram behind = bytes) ↔ bytes.length ≤ dataLen := by
  constructor
  · intro hall
    by_contra hlen
    -- the first byte that did not fit, and memory that holds another one
    have hlt : dataLen < bytes.length := not_le.mp hlen
    have hget := congrArg (·[dataLen]?) (hall fun _ => bytes[dataLen] + 1)
    simp only [h.datagram] at hget
    rw [List.getElem?_append_right (by simp), List.length_take, min_eq_left hlt.le, Nat.sub_self,
      List.getElem?_map, List.getElem?_range (by omega), List.getElem?_eq_getElem hlt] at hget
    simp at hget
  · intro hlen behind
    rw [h.datagram, Nat.sub_eq_zero_of_le hlen, List.take_of_length_le hlen]
    simp

-- ---------------------------------------------------------------------------
-- The server
-- ---------------------------------------------------------------------------

def Framed (apps : List Bytes) (p : NetPkt) : Prop :=
  1 ≤ p.seq ∧ ∃ bytes, apps[p.seq - 1]? = some bytes ∧ Holds bytes p

theorem Framed.append (h : Framed apps q) (more : List Bytes) :
    Framed (apps ++ more) q := by
  obtain ⟨hpos, bytes, hget, hholds⟩ := h
  refine ⟨hpos, bytes, ?_, hholds⟩
  rw [List.getElem?_append_left (List.getElem?_eq_some_iff.mp hget).1]
  exact hget

theorem holds_cachedPkt (s : RtSrvState) (d : NetPkt) (hlen : bytes.length ≤ maxPktLen) :
    Holds bytes (s.cachedPkt d bytes) where
  dtSize := rfl
  data := CharArray.take_memcpy_min d.data bytes
  length := hlen

structure Framing (apps : List Bytes) (s : RtSrvState) : Prop where
  count : s.cacheSeq = apps.length + 1
  window : ∀ k q, s.window.find? k = some q → Framed apps q

theorem Framing.step (h : Framing apps s) {e : RtSrvEvent}
    (hlen : ∀ bytes, e.app = some bytes → bytes.length ≤ maxPktLen) :
    Framing (apps ++ accepted s e) (rtSrvStep s e).1 := by
  cases rtSrvStep_cache s e with
  | same hcount hwin =>
    rw [accepted, if_pos hcount, List.append_nil]
    exact ⟨hcount.trans h.count, fun k q hq => h.window k q (hwin k q hq)⟩
  | added bytes d happ hcount hwin =>
    rw [accepted, if_neg (by simp [hcount]), happ]
    refine ⟨by simp [hcount, h.count], fun k q hq => ?_⟩
    rcases hwin k q hq with ⟨rfl, rfl⟩ | hq
    · refine ⟨by simp [RtSrvState.cachedPkt, h.count], bytes, ?_,
        holds_cachedPkt s d (hlen bytes happ)⟩
      simp [RtSrvState.cachedPkt, h.count]
    · exact (h.window k q hq).append _

def taken (sinPort : UInt16) (es : List RtSrvEvent) : List Bytes :=
  gather (next rtSrvStep) accepted (.init sinPort) es

theorem framing_run (sinPort : UInt16) (es : List RtSrvEvent)
    (hlen : ∀ e ∈ es, ∀ bytes, e.app = some bytes → bytes.length ≤ maxPktLen) :
    Framing (taken sinPort es) (es.foldl (next rtSrvStep) (.init sinPort)) ∧
      ∀ dst q, .data dst q ∈ trace rtSrvStep (.init sinPort) es → Framed (taken sinPort es) q := by
  induction es using List.reverseRecOn with
  | nil =>
    exact ⟨⟨rfl, fun k q hq => by simp [RtSrvState.init] at hq⟩,
      fun dst q hm => absurd hm List.not_mem_nil⟩
  | append_singleton es e ih =>
    obtain ⟨hframe, hsent⟩ := ih fun e' he' => hlen e' (List.mem_append_left _ he')
    have htaken : taken sinPort (es ++ [e]) =
        taken sinPort es ++ accepted (es.foldl (next rtSrvStep) (.init sinPort)) e := gather_concat
    rw [htaken, trace_concat, List.foldl_append]
    refine ⟨hframe.step (hlen e (by simp)), fun dst q hm => ?_⟩
    rcases List.mem_append.mp hm with hm | hm
    · exact (hsent dst q hm).append _
    · obtain ⟨p, -, -, hw⟩ := rtSrvStep_data hm
      exact (hframe.window _ q hw).append _

/-- In every run of the server on datagrams that fit its buffer: a packet it has
in its cache or has sent holds the datagram of its number, and what the receiver
makes of its bytes is the same number and the same length, and the same datagram
for its application whatever lies behind the packet in its memory, exactly when
the datagram fits the data field. -/
theorem datagram_round_trip (sinPort : UInt16) (es : List RtSrvEvent)
    (hlen : ∀ e ∈ es, ∀ bytes, e.app = some bytes → bytes.length ≤ maxPktLen) (q : NetPkt)
    (hq : (∃ k, (es.foldl (next rtSrvStep) (.init sinPort)).window.find? k = some q) ∨
      ∃ dst, .data dst q ∈ trace rtSrvStep (.init sinPort) es) :
    ∃ bytes, (taken sinPort es)[q.seq - 1]? = some bytes ∧
      ((∀ behind, (NetPkt.ofImage q.image).seq = q.seq % 2 ^ 64 ∧
          (NetPkt.ofImage q.image).dtSize = bytes.length ∧
          (NetPkt.ofImage q.image).datagram behind = bytes) ↔ bytes.length ≤ dataLen) := by
  obtain ⟨hframe, hsent⟩ := framing_run sinPort es hlen
  obtain ⟨-, bytes, hget, hholds⟩ : Framed (taken sinPort es) q := by
    rcases hq with ⟨k, hk⟩ | ⟨dst, hm⟩
    · exact hframe.window k q hk
    · exact hsent dst q hm
  refine ⟨bytes, hget, ?_⟩
  rw [← hholds.datagram_iff]
  exact forall_congr' fun behind =>
    ⟨fun h => h.2.2, fun h => ⟨q.seq_ofImage, hholds.dtSize_ofImage, h⟩⟩

/-- A datagram of two bytes is cached and requested. -/
theorem datagram_round_trip_two :
    let es : List RtSrvEvent := [⟨.idle, some [7, 8], 0, zeroPkt⟩,
      ⟨.msg ⟨1, 5⟩ ⟨1, true⟩, none, 3, zeroPkt⟩]
    let q : NetPkt := ⟨0, 1, 2, (CharArray.memcpy zeroPkt.data [7, 8])⟩
    .data ⟨1, 5⟩ q ∈ trace rtSrvStep (.init 0) es ∧
      ∃ bytes, (taken 0 es)[q.seq - 1]? = some bytes ∧
        ((∀ behind, (NetPkt.ofImage q.image).seq = q.seq % 2 ^ 64 ∧
            (NetPkt.ofImage q.image).dtSize = bytes.length ∧
            (NetPkt.ofImage q.image).datagram behind = bytes) ↔ bytes.length ≤ dataLen) := by
  intro es q
  have hm : .data ⟨1, 5⟩ q ∈ trace rtSrvStep (.init 0) es := by decide +kernel
  refine ⟨hm, datagram_round_trip 0 es (fun e he bytes happ => ?_) q (.inr ⟨_, hm⟩)⟩
  simp only [es, List.mem_cons, List.not_mem_nil, or_false] at he
  rcases he with rfl | rfl
  · obtain rfl := Option.some.inj happ
    decide
  · cases happ

/-- Of a datagram of 1381 bytes the last is lost, and replaced by what lies behind
the packet. -/
theorem datagram_cut :
    let bytes : Bytes := List.replicate 1381 7
    let es : List RtSrvEvent := [⟨.idle, some bytes, 0, zeroPkt⟩,
      ⟨.msg ⟨1, 5⟩ ⟨1, true⟩, none, 3, zeroPkt⟩]
    bytes.length ≤ maxPktLen ∧ taken 0 es = [bytes] ∧
      trace rtSrvStep (.init 0) es = [.data ⟨1, 5⟩ ⟨0, 1, 1381, .replicate _ 7⟩] ∧
      (NetPkt.ofImage (NetPkt.image ⟨0, 1, 1381, .replicate _ 7⟩)).datagram (fun _ => 0) ≠
        bytes := by
  decide +kernel

end Wan.Proj2
