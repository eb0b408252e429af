import Wan.Proj1.RcvCore

/-!
# What one datagram can make the receiver do

The number of bytes written and the number of NACKs are taken from the packet, and
nothing checks them: `dt_size` may reach beyond the data field, and the NACKs run
from `cum_seq` to whatever number the packet has. `effect_bounded_iff` says which
packets do no more than a packet of the sender could.

A negative `dt_size` writes nothing, but it leaves the stream in a bad state in
which later writes are lost, until the next `open`. Since packets are arbitrary
here this is kept, beside the state of the program.
-/

namespace Wan.Proj1

open Posix Lib

variable {c : RcvCore} {pkt : NetPkt} {src fromAddr : SockaddrIn} {junk : AckPkt}

-- ---------------------------------------------------------------------------
-- The output stream
-- ---------------------------------------------------------------------------

def RcvEffect.isOpen : RcvEffect → Bool
  | .openFile _ => true
  | _ => false

def RcvEffect.isSend : RcvEffect → Bool
  | .sendto _ _ => true
  | _ => false

def RcvEffect.isWrite : RcvEffect → Bool
  | .write _ _ => true
  | _ => false

def RcvEffect.bytes : RcvEffect → Bytes
  | .write _ bytes => bytes
  | _ => []

def badAfter (bad : Bool) (e : RcvEvent) (out : List RcvEffect) : Bool :=
  let bad := bad && !out.any (·.isOpen)
  match e with
  | .datagram _ pkt _ => bad || (out.any (·.isWrite) && decide (pkt.dtSize < 0))
  | _ => bad

def pdStep (s : RcvState × Bool) (e : RcvEvent) : RcvState × Bool :=
  ((rcvStep s.1 e).1, badAfter s.2 e (rcvStep s.1 e).2)

def appended (bad : Bool) (out : List RcvEffect) : Bytes :=
  if bad && !out.any (·.isOpen) then [] else out.flatMap RcvEffect.bytes

/-- At most the data field is appended, from the data field, and at most
`max(1, w_size)` replies are sent. -/
def Bounded (bad : Bool) (pkt : NetPkt) (out : List RcvEffect) : Prop :=
  (∃ n ≤ pktDtSize, appended bad out = pkt.data.toList.take n) ∧
    ((out.countP (·.isSend) : ℕ) : ℤ) ≤ max 1 pkt.wSize

/-- A packet that is not turned away: if it is the next one and its data will be
written, `dt_size` is within the data field; if it opens a gap that NACKs are sent
for, the gap is no longer than `w_size`. -/
def Modest (s : RcvState) (bad : Bool) (src : SockaddrIn) (pkt : NetPkt) : Prop :=
  src ∉ s.senderQ ∨ s.senderQ.head? = some src →
    (pkt.seq = s.cumSeq + 1 → s.done = false → (s.rcvStart = true → bad = false) →
        pkt.dtSize ≤ pktDtSize) ∧
      (s.cumSeq + 1 < pkt.seq → s.window = [] → 0 < pkt.wSize →
        pkt.seq - s.cumSeq - 1 ≤ pkt.wSize)

-- ---------------------------------------------------------------------------
-- A packet that is handled
-- ---------------------------------------------------------------------------

theorem payload_within_iff (pkt : NetPkt) :
    (∃ n ≤ pktDtSize, pkt.payload = pkt.data.toList.take n) ↔ pkt.dtSize ≤ pktDtSize := by
  constructor
  · rintro ⟨n, hn, heq⟩
    have himage : pkt.image.length = 1400 := Int.ofNat.inj pkt.length_image
    have hlen := congrArg List.length heq
    rw [NetPkt.payload, List.length_take, himage, List.length_take,
      List.Vector.toList_length] at hlen
    simp only [pktDtSize] at hn hlen ⊢
    omega
  · intro h
    exact ⟨pkt.dtSize.toNat, by omega, NetPkt.payload_of_le h⟩

theorem length_nacks (wSize : ℤ) (fromAddr : SockaddrIn) (lo hi : ℤ) :
    (nacks wSize fromAddr lo hi).length = (hi - (lo + 1)).toNat := by
  simp [nacks]

theorem mem_nacks {wSize lo hi : ℤ} {o : RcvEffect} (h : o ∈ nacks wSize fromAddr lo hi) :
    ∃ p, o = .sendto fromAddr p := by
  obtain ⟨i, -, rfl⟩ := List.mem_map.mp h
  exact ⟨_, rfl⟩

theorem coreReceive_effects (pkt : NetPkt) (fromAddr : SockaddrIn) (junk : AckPkt)
    (hc : c.pd = none ↔ c.done = true) :
    let out := (coreReceive c pkt fromAddr junk).2
    out.any (·.isOpen) = false ∧
      out.flatMap RcvEffect.bytes =
        (if pkt.seq = c.cumSeq + 1 ∧ c.done = false then pkt.payload else []) ∧
      (((out.countP (·.isSend) : ℕ) : ℤ) ≤ max 1 pkt.wSize ↔
        (c.cumSeq + 1 < pkt.seq → c.window = [] → 0 < pkt.wSize →
          pkt.seq - c.cumSeq - 1 ≤ pkt.wSize)) := by
  refine coreReceive_cases (motive := fun r => r.2.any (·.isOpen) = false ∧
    r.2.flatMap RcvEffect.bytes =
      (if pkt.seq = c.cumSeq + 1 ∧ c.done = false then pkt.payload else []) ∧
    (((r.2.countP (·.isSend) : ℕ) : ℤ) ≤ max 1 pkt.wSize ↔
      (c.cumSeq + 1 < pkt.seq → c.window = [] → 0 < pkt.wSize →
        pkt.seq - c.cumSeq - 1 ≤ pkt.wSize))) ?_ ?_ ?_ ?_ ?_ ?_
  · intro h
    refine ⟨rfl, ?_, iff_of_true (le_max_left _ _) fun h' => by omega⟩
    rw [if_neg (by omega)]
    rfl
  · intro h hp
    refine ⟨rfl, ?_, iff_of_true (le_max_left _ _) fun h' => by omega⟩
    rw [if_neg (by simp [hc.mp hp])]
    rfl
  · intro f h hp he
    have hd : c.done = false := by simpa [hp] using hc
    refine ⟨rfl, ?_, iff_of_true (le_max_left _ _) fun h' => by omega⟩
    rw [if_pos ⟨h, hd⟩]
    simp [RcvEffect.bytes]
  · intro f h hp he
    have hd : c.done = false := by simpa [hp] using hc
    refine ⟨rfl, ?_, iff_of_true (le_max_left _ _) fun h' => by omega⟩
    rw [if_pos ⟨h, hd⟩]
    simp [RcvEffect.bytes]
  · intro h hw hpos
    refine ⟨List.any_eq_false.mpr fun o ho => ?_, ?_, ?_⟩
    · obtain ⟨p, rfl⟩ := mem_nacks ho
      exact Bool.false_ne_true
    · rw [if_neg (by omega)]
      refine List.flatMap_eq_nil_iff.mpr fun o ho => ?_
      obtain ⟨p, rfl⟩ := mem_nacks ho
      rfl
    · have hall : (nacks pkt.wSize fromAddr c.cumSeq pkt.seq).countP (·.isSend) =
          (pkt.seq - (c.cumSeq + 1)).toNat := by
        rw [List.countP_eq_length.mpr, length_nacks]
        intro o ho
        obtain ⟨p, rfl⟩ := mem_nacks ho
        rfl
      rw [hall]
      simp only [h, hw, hpos, forall_const]
      omega
  · intro h hdrop
    refine ⟨rfl, ?_, iff_of_true (le_trans zero_le_one (le_max_left _ _)) fun _ hw hpos => ?_⟩
    · rw [if_neg (by omega)]
      rfl
    · rcases hdrop with hdrop | hdrop
      · exact absurd hw hdrop
      · omega

theorem coreReceive_bounded_iff (fromAddr : SockaddrIn) (junk : AckPkt) (bad : Bool)
    (hc : c.pd = none ↔ c.done = true) :
    Bounded bad pkt (coreReceive c pkt fromAddr junk).2 ↔
      (pkt.seq = c.cumSeq + 1 → c.done = false → bad = false → pkt.dtSize ≤ pktDtSize) ∧
        (c.cumSeq + 1 < pkt.seq → c.window = [] → 0 < pkt.wSize →
          pkt.seq - c.cumSeq - 1 ≤ pkt.wSize) := by
  obtain ⟨hopen, hbytes, hsends⟩ := coreReceive_effects pkt fromAddr junk hc
  refine and_congr ?_ hsends
  rw [appended, hopen, hbytes]
  by_cases hw : bad = false ∧ pkt.seq = c.cumSeq + 1 ∧ c.done = false
  · rw [if_neg (by simp [hw.1]), if_pos hw.2, payload_within_iff]
    exact ⟨fun h _ _ _ => h, fun h => h hw.2.1 hw.2.2 hw.1⟩
  · refine iff_of_true ⟨0, Nat.zero_le _, ?_⟩ fun hseq hd hb => absurd ⟨hb, hseq, hd⟩ hw
    cases bad with
    | true => rfl
    | false =>
      rw [if_neg (by simp), if_neg fun hw' => hw ⟨rfl, hw'⟩]
      rfl

theorem bounded_openFile {bad : Bool} {f : Fname} {out : List RcvEffect} :
    Bounded bad pkt (.openFile f :: out) ↔ Bounded false pkt out := by
  simp [Bounded, appended, RcvEffect.isOpen, RcvEffect.isSend, RcvEffect.bytes]

-- ---------------------------------------------------------------------------
-- Any datagram
-- ---------------------------------------------------------------------------

theorem coreRecv_bounded_iff {s : RcvState} (hok : s.core.Ok) (bad : Bool) :
    Bounded bad pkt (coreRecv s.core src pkt junk).2 ↔ Modest s bad src pkt := by
  unfold coreRecv
  by_cases hblk : src ∈ s.core.senderQ ∧ s.core.senderQ.head? ≠ some src
  · rw [if_pos hblk]
    refine iff_of_true ⟨⟨0, Nat.zero_le _, ?_⟩, le_max_left _ _⟩ fun hadm => ?_
    · simp [appended, RcvEffect.bytes]
    · rcases hadm with hadm | hadm
      · exact absurd hblk.1 hadm
      · exact absurd hadm hblk.2
  rw [if_neg hblk]
  have hadm : src ∉ s.senderQ ∨ s.senderQ.head? = some src :=
    (not_and_or.mp hblk).imp_right not_not.mp
  have hmodest : Modest s bad src pkt ↔
      (pkt.seq = s.cumSeq + 1 → s.done = false → (s.rcvStart = true → bad = false) →
          pkt.dtSize ≤ pktDtSize) ∧
        (s.cumSeq + 1 < pkt.seq → s.window = [] → 0 < pkt.wSize →
          pkt.seq - s.cumSeq - 1 ≤ pkt.wSize) :=
    ⟨fun h => h hadm, fun h _ => h⟩
  rw [hmodest]
  cases hst : s.rcvStart with
  | true =>
    rw [if_pos (by exact hst)]
    simp only [forall_const]
    exact coreReceive_bounded_iff _ _ bad (hok.closed hst)
  | false =>
    obtain ⟨-, hd, -⟩ := hok.idle hst
    have hopened : some pkt.name = none ↔ s.core.done = true := by simp [hd]
    rw [if_neg (by simp [RcvState.core, hst])]
    simp only [Bool.false_eq_true, false_implies, forall_const]
    refine (bounded_openFile.trans (coreReceive_bounded_iff _ _ false hopened)).trans ?_
    simp only [forall_const]
    rfl

theorem fst_pdStep (es : List RcvEvent) (s : RcvState) (bad : Bool) :
    (es.foldl pdStep (s, bad)).1 = es.foldl (next rcvStep) s := by
  induction es generalizing s bad with
  | nil => rfl
  | cons e es ih => exact ih _ _

/-- In every state the receiver can reach, and for every datagram whatever its
fields hold: it appends at most a data field of the packet's own data and is
answered with at most `max(1, w_size)` replies, exactly when it is turned away, or
asks for no more than that. -/
theorem effect_bounded_iff (buf : NetPkt) (past : List RcvEvent) (src : SockaddrIn) (pkt : NetPkt)
    (junk : AckPkt) :
    let s := past.foldl pdStep (.init buf, false)
    Bounded s.2 pkt (rcvStep s.1 (.datagram src pkt junk)).2 ↔ Modest s.1 s.2 src pkt := by
  intro s
  have hok : s.1.core.Ok := by
    rw [show s.1 = _ from fst_pdStep past _ _]
    exact (rcv_run_core (RcvCore.ok_init buf) past).2.2
  rw [out_core hok]
  exact coreRecv_bounded_iff hok s.2

/-- The first packet asks for 1356 bytes: the byte behind the data field is written
to the file. Packet 3 comes first instead, with a window of 1: two replies. -/
theorem effect_unbounded :
    let long : NetPkt := { fullPkt [97] 7 1 false with dtSize := 1356 }
    let ahead : NetPkt := { fullPkt [97] 7 3 false with wSize := 1 }
    appended false
        (rcvStep (.init (fullPkt [] 0 0 false)) (.datagram ⟨1, 5⟩ long ⟨0, 0, false⟩)).2 =
        .replicate 1355 7 ++ [97] ∧
      ¬ Bounded false ahead
        (rcvStep (.init (fullPkt [] 0 0 false)) (.datagram ⟨1, 5⟩ ahead ⟨0, 0, false⟩)).2 := by
  refine ⟨by decide +kernel, fun h => absurd h.2 ?_⟩
  decide +kernel

end Wan.Proj1
