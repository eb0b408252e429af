import Wan.Proj1.RcvCore
import Wan.Lib.InOrder

/-!
# One transfer at the receiver

`Receiving a src f c k`: sender `a` is at the head, chunks `1..k` of `src` are in
its file `f`, and the file is open until the last of them. Each packet that
carries a chunk keeps this, with `k` moved on exactly by the next chunk, and
answers with acknowledgments that never promise more than `k`.
-/

namespace Wan.Proj1

open Posix Lib

variable {c : RcvCore} {src : Bytes} {f : Fname} {a b : SockaddrIn} {k j : ℕ} {p : NetPkt}
  {junk : AckPkt}

def written (f : Fname) (out : List RcvEffect) : Bytes :=
  out.flatMap fun
    | .write g bytes => if g = f then bytes else []
    | _ => []

@[simp] theorem written_nil : written f [] = [] := rfl

@[simp] theorem written_append (out out' : List RcvEffect) :
    written f (out ++ out') = written f out ++ written f out' := List.flatMap_append

@[simp] theorem written_sendto (q : AckPkt) (out : List RcvEffect) :
    written f (.sendto b q :: out) = written f out := rfl

@[simp] theorem written_openFile (g : Fname) (out : List RcvEffect) :
    written f (.openFile g :: out) = written f out := rfl

@[simp] theorem written_close (g : Fname) (out : List RcvEffect) :
    written f (.close g :: out) = written f out := rfl

@[simp] theorem written_write (bytes : Bytes) (out : List RcvEffect) :
    written f (.write f bytes :: out) = bytes ++ written f out := by
  simp [written]

theorem written_nacks {wSize lo hi : ℤ} : written f (nacks wSize b lo hi) = [] := by
  simp [written, nacks, List.flatMap_map]

structure Receiving (a : SockaddrIn) (src : Bytes) (f : Fname) (c : RcvCore) (k : ℕ) : Prop where
  head : c.senderQ.head? = some a
  started : c.rcvStart = true
  cumSeq : c.cumSeq = k
  done : c.done = decide (k = lastChunk src)
  pd : c.pd = if k = lastChunk src then none else some f
  le : k ≤ lastChunk src

theorem Receiving.open_iff (h : Receiving a src f c k) {g : Fname} :
    c.pd = some g ↔ k < lastChunk src ∧ g = f := by
  have := h.le
  rw [h.pd]
  split_ifs with hk
  · simp [hk]
  · simp only [Option.some.injEq, eq_comm (a := g)]
    exact ⟨fun hg => ⟨by omega, hg⟩, And.right⟩

theorem Receiving.receive (h : Receiving a src f c k) (hp : Carries src f j p) (b : SockaddrIn)
    (junk : AckPkt) :
    Receiving a src f (coreReceive c p b junk).1 (advance k j) ∧
      written f (coreReceive c p b junk).2 = if j = k + 1 then chunk src j else [] := by
  have hseq := hp.seq
  have hcum := h.cumSeq
  have hsame (hne : j ≠ k + 1) : advance k j = k := if_neg hne
  have hmove (he : j = k + 1) : advance k j = k + 1 := if_pos he
  refine coreReceive_cases (motive := fun r => Receiving a src f r.1 (advance k j) ∧
    written f r.2 = if j = k + 1 then chunk src j else []) ?_ ?_ ?_ ?_ ?_ ?_
  · intro hold
    have hne : j ≠ k + 1 := by omega
    rw [hsame hne, if_neg hne]
    exact ⟨h, rfl⟩
  · -- the file is closed only at the last chunk, which has no successor
    intro hnext hpd
    have hk : ¬ k < lastChunk src := fun hk => by
      simp [(h.open_iff (g := f)).mpr ⟨hk, rfl⟩] at hpd
    have := hp.le
    omega
  · intro g hnext hpd hend
    obtain ⟨hk, rfl⟩ := h.open_iff.mp hpd
    have hj : j = k + 1 := by omega
    have hne : k + 1 ≠ lastChunk src := by simpa [hp.isEnd, hj] using hend
    rw [hmove hj, if_pos hj]
    refine ⟨⟨h.head, h.started, by simp [hseq, hj], ?_, ?_, hk⟩, by simp [hp.payload]⟩
    · simp [h.done, hk.ne, hne]
    · simp [hpd, hne]
  · intro g hnext hpd hend
    obtain ⟨hk, rfl⟩ := h.open_iff.mp hpd
    have hj : j = k + 1 := by omega
    have hlast : k + 1 = lastChunk src := by simpa [hp.isEnd, hj] using hend
    rw [hmove hj, if_pos hj]
    exact ⟨⟨h.head, h.started, by simp [hseq, hj], by simp [hlast], by simp [hlast], hk⟩,
      by simp [hp.payload]⟩
  · intro hfut _ _
    have hne : j ≠ k + 1 := by omega
    rw [hsame hne, if_neg hne, written_nacks]
    exact ⟨⟨h.head, h.started, h.cumSeq, h.done, h.pd, h.le⟩, rfl⟩
  · intro hfut _
    have hne : j ≠ k + 1 := by omega
    rw [hsame hne, if_neg hne]
    exact ⟨h, rfl⟩

def Promises (k : ℕ) (q : AckPkt) : Prop := 0 ≤ q.cumSeq ∧ (q.isNack = false → q.cumSeq ≤ k)

theorem Promises.mono {q : AckPkt} (h : Promises k q) (hle : k ≤ j) : Promises j q :=
  ⟨h.1, fun hq => (h.2 hq).trans (by omega)⟩

theorem Receiving.acks (h : Receiving a src f c k) (hp : Carries src f j p) (b : SockaddrIn)
    (junk : AckPkt) :
    ∀ d q, .sendto d q ∈ (coreReceive c p b junk).2 → d = b ∧ Promises (advance k j) q := by
  have hseq := hp.seq
  have hcum := h.cumSeq
  have hle := le_advance k j
  -- an acknowledgment of the next chunk
  have hack (hnext : p.seq = c.cumSeq + 1) {d : SockaddrIn} {q : AckPkt}
      (hd : d = b) (hq : q = ⟨p.seq, p.dtSize, false⟩) : d = b ∧ Promises (advance k j) q := by
    subst hq
    refine ⟨hd, ?_, fun _ => ?_⟩
    · show 0 ≤ p.seq
      omega
    · show p.seq ≤ _
      rw [advance, if_pos (by omega)]
      omega
  refine coreReceive_cases
    (motive := fun r => ∀ d q, .sendto d q ∈ r.2 → d = b ∧ Promises (advance k j) q)
    ?_ ?_ ?_ ?_ ?_ ?_
  · intro hold d q hm
    obtain ⟨rfl, rfl⟩ : d = b ∧ q = { junk with cumSeq := c.cumSeq, isNack := false } := by
      simpa using hm
    refine ⟨rfl, ?_, fun _ => ?_⟩
    · show 0 ≤ c.cumSeq
      omega
    · show c.cumSeq ≤ _
      omega
  · intro hnext _ d q hm
    obtain ⟨hd, hq⟩ : d = b ∧ q = _ := by simpa using hm
    exact hack hnext hd hq
  · intro g hnext _ _ d q hm
    obtain ⟨hd, hq⟩ : d = b ∧ q = _ := by simpa using hm
    exact hack hnext hd hq
  · intro g hnext _ _ d q hm
    obtain ⟨hd, hq⟩ : d = b ∧ q = _ := by simpa using hm
    exact hack hnext hd hq
  · intro hfut _ _ d q hm
    obtain ⟨i, -, hi⟩ := List.mem_map.mp hm
    obtain ⟨rfl, rfl⟩ := RcvEffect.sendto.inj hi
    refine ⟨rfl, ?_, fun hn => by cases hn⟩
    show 0 ≤ c.cumSeq + 1 + i
    omega
  · intro _ _ d q hm
    simp at hm

theorem chunks_advance (src : Bytes) (k j : ℕ) :
    chunks src k ++ (if j = k + 1 then chunk src j else []) = chunks src (advance k j) := by
  unfold advance
  split_ifs with hj
  · rw [hj]
    exact (firstBlocks_succ k).symm
  · exact List.append_nil _

def RcvEffect.file? : RcvEffect → Option Fname
  | .sendto _ _ => none
  | .openFile g => some g
  | .write g _ => some g
  | .close g => some g

theorem coreReceive_file {e : RcvEffect} (he : e ∈ (coreReceive c p b junk).2) :
    (∀ g, e ≠ .openFile g) ∧ (e.file? = none ∨ e.file? = c.pd) := by
  revert he
  refine coreReceive_cases
    (motive := fun r => e ∈ r.2 → (∀ g, e ≠ .openFile g) ∧ (e.file? = none ∨ e.file? = c.pd))
    ?_ ?_ ?_ ?_ ?_ ?_
  · intro _ he
    obtain rfl := List.mem_singleton.mp he
    exact ⟨nofun, .inl rfl⟩
  · intro _ _ he
    obtain rfl := List.mem_singleton.mp he
    exact ⟨nofun, .inl rfl⟩
  · intro f _ hpd _ he
    rw [hpd]
    rcases List.mem_pair.mp he with rfl | rfl
    · exact ⟨nofun, .inl rfl⟩
    · exact ⟨nofun, .inr rfl⟩
  · intro f _ hpd _ he
    rw [hpd]
    rcases List.mem_cons.mp he with rfl | he
    · exact ⟨nofun, .inl rfl⟩
    · rcases List.mem_pair.mp he with rfl | rfl
      · exact ⟨nofun, .inr rfl⟩
      · exact ⟨nofun, .inr rfl⟩
  · intro _ _ _ he
    obtain ⟨i, -, rfl⟩ := List.mem_map.mp he
    exact ⟨nofun, .inl rfl⟩
  · intro _ _ he
    simp at he

-- ---------------------------------------------------------------------------
-- From the first packet on
-- ---------------------------------------------------------------------------

structure Waiting (a : SockaddrIn) (c : RcvCore) : Prop where
  next : c.senderQ = [] ∨ c.senderQ.head? = some a
  idle : c.rcvStart = false
  ok : c.Ok

/-- The state of a transfer after `k` chunks, before or after its first packet. -/
def InTransfer (a : SockaddrIn) (src : Bytes) (f : Fname) (c : RcvCore) (k : ℕ) : Prop :=
  (Waiting a c ∧ k = 0) ∨ Receiving a src f c k

theorem InTransfer.cumSeq (h : InTransfer a src f c k) : c.cumSeq = k := by
  rcases h with ⟨hw, rfl⟩ | hr
  · exact (hw.ok.idle hw.idle).2.2
  · exact hr.cumSeq

theorem InTransfer.eq_zero (h : InTransfer a src f c k) (hs : c.rcvStart = false) : k = 0 := by
  rcases h with ⟨-, hk⟩ | hr
  · exact hk
  · simp [hr.started] at hs

theorem InTransfer.done (h : InTransfer a src f c k) : c.done = decide (k = lastChunk src) := by
  rcases h with ⟨hw, rfl⟩ | hr
  · have hlast : 0 ≠ lastChunk src := (Nat.lt_of_lt_of_le zero_lt_one one_le_blockCount).ne
    rw [(hw.ok.idle hw.idle).2.1, decide_eq_false hlast]
  · exact hr.done

theorem InTransfer.admitted (h : InTransfer a src f c k) (hm : a ∈ c.senderQ) :
    c.senderQ.head? = some a := by
  rcases h with ⟨hw, -⟩ | hr
  · rcases hw.next with hq | hq
    · simp [hq] at hm
    · exact hq
  · exact hr.head

theorem Waiting.openPd (h : Waiting a c) (src : Bytes) (f : Fname) :
    Receiving a src f { c with senderQ := joined c.senderQ a, pd := some f, rcvStart := true } 0 ∧
      (joined c.senderQ a).headD a = a := by
  obtain ⟨-, hd, hcum⟩ := h.ok.idle h.idle
  have hlast : 0 ≠ lastChunk src := (Nat.lt_of_lt_of_le zero_lt_one one_le_blockCount).ne
  have hhead : (joined c.senderQ a).head? = some a := by
    rcases h.next with hq | hq
    · simp [joined, hq]
    · exact joined_head? hq a
  refine ⟨⟨hhead, rfl, by simpa using hcum, by simp [hd, hlast], by simp [hlast], by omega⟩, ?_⟩
  simp [List.headD_eq_head?_getD, hhead]

/-- Whether or not the transfer has started, a packet from `a` that carries a
chunk reaches HANDLE RECEIVE with the file open, opened first if it is the first
one. -/
theorem InTransfer.coreRecv_eq (h : InTransfer a src f c k) (hp : Carries src f j p)
    (junk : AckPkt) : ∃ d, Receiving a src f d k ∧ d.window = c.window ∧ coreRecv c a p junk =
      ((coreReceive d p a junk).1,
        (if c.rcvStart then [] else [.openFile f]) ++ (coreReceive d p a junk).2) := by
  have hnot : ¬ (a ∈ c.senderQ ∧ c.senderQ.head? ≠ some a) :=
    fun hturned => hturned.2 (h.admitted hturned.1)
  rcases h with ⟨hw, rfl⟩ | hr
  · obtain ⟨hopen, hfrom⟩ := hw.openPd src f
    refine ⟨_, hopen, rfl, ?_⟩
    simp only [coreRecv, if_neg hnot, hw.idle, Bool.false_eq_true, ↓reduceIte, hp.name, hfrom]
    rfl
  · have hmem : a ∈ c.senderQ := List.mem_of_mem_head? hr.head
    have hadm : joined c.senderQ a = c.senderQ := if_pos hmem
    exact ⟨c, hr, rfl, by simp [coreRecv, hr.head, hadm, ← hr.started]⟩

theorem InTransfer.recv (h : InTransfer a src f c k) (hp : Carries src f j p) (junk : AckPkt) :
    Receiving a src f (coreRecv c a p junk).1 (advance k j) ∧
      written f (coreRecv c a p junk).2 = (if j = k + 1 then chunk src j else []) ∧
      ∀ d q, .sendto d q ∈ (coreRecv c a p junk).2 → d = a ∧ Promises (advance k j) q := by
  obtain ⟨d, hd, -, heq⟩ := h.coreRecv_eq hp junk
  obtain ⟨h1, h2⟩ := hd.receive hp a junk
  have h3 := hd.acks hp a junk
  rw [heq]
  refine ⟨h1, ?_, fun d' q hm => h3 d' q ?_⟩
  · rw [written_append, h2]
    split_ifs <;> simp
  · rcases List.mem_append.mp hm with hm | hm
    · split_ifs at hm <;> simp at hm
    · exact hm

end Wan.Proj1
