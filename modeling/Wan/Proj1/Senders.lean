import Wan.Proj1.Net
import Wan.Proj1.Admission

/-!
# Any number of senders

Every sender has its own address and its own two channels. When the receiver asks
for a packet again, the sender looks it up in its window and follows what
`find_if` returns without a check, so a NACK has to name a packet that is there:
one that was read, and that no acknowledgment has removed.

Five things break this. A destination name that does not fit `d_fname` is copied over
the number of every packet. A message that tells a sender to wait or calls it is
taken for a NACK when the field `is_nack`, which it leaves unset, reads true. The
first packet of a newcomer asks the sender at the head for packets it may not have
reached. An acknowledgment may overtake a NACK that was sent before it. And a
sender that joins the queue again, because the receiver dropped it before it had
returned, is asked for everything from the start.
-/

namespace Wan.Proj1

open Posix Lib

variable {ι : Type*}

structure Senders (ι : Type*) where
  env : ι → NcpEnv
  addr_inj : Function.Injective fun i => (env i).addr

structure Sender where
  ncp : NcpState
  toRcv : List NetPkt
  toNcp : List AckPkt
  /-- The numbers of the acknowledgments it handled. -/
  confirmed : List ℤ

structure Nets (ι : Type*) where
  sender : ι → Sender
  rcv : RcvState

def Nets.init (S : Senders ι) (buf : NetPkt) : Nets ι where
  sender := fun i => ⟨.init (S.env i), [], [], []⟩
  rcv := .init buf

inductive NetsEvent (ι : Type*)
  | ncpTimeout (i : ι)
  | rcvTimeout (junk : AckPkt)
  | deliverRcv (i : ι) (k : ℕ) (junk : AckPkt)
  | deliverNcp (i : ι) (k : ℕ)
  | loseRcv (i : ι) (k : ℕ)
  | loseNcp (i : ι) (k : ℕ)
  | duplicateRcv (i : ι) (k : ℕ)
  | duplicateNcp (i : ι) (k : ℕ)
  deriving DecidableEq

def Sender.ncpDo (env : NcpEnv) (s : Sender) (e : NcpEvent) : Sender :=
  { s with
    ncp := (ncpStep env s.ncp e).1
    toRcv := s.toRcv ++ (ncpStep env s.ncp e).2 }

def Sender.handle (env : NcpEnv) (s : Sender) (q : AckPkt) : Sender :=
  { s.ncpDo env (.ack q) with
    confirmed := if q.isNack then s.confirmed else s.confirmed ++ [q.cumSeq] }

def Sender.hear (env : NcpEnv) (s : Sender) (out : List RcvEffect) : Sender :=
  { s with toNcp := s.toNcp ++ acksTo env.addr out }

def Nets.update [DecidableEq ι] (s : Nets ι) (i : ι) (t : Sender) : Nets ι :=
  { s with sender := Function.update s.sender i t }

def Nets.rcvDo (S : Senders ι) (s : Nets ι) (e : RcvEvent) : Nets ι where
  sender := fun i => (s.sender i).hear (S.env i) (rcvStep s.rcv e).2
  rcv := (rcvStep s.rcv e).1

def netsStep [DecidableEq ι] (S : Senders ι) (s : Nets ι) : NetsEvent ι → Nets ι
  | .ncpTimeout i => s.update i ((s.sender i).ncpDo (S.env i) .timeout)
  | .rcvTimeout junk => s.rcvDo S (.timeout junk)
  | .deliverRcv i k junk =>
    match (s.sender i).toRcv[k]? with
    | none => s
    | some p =>
      (s.update i { s.sender i with toRcv := Channel.lose (s.sender i).toRcv k }).rcvDo S
        (.datagram (S.env i).addr p junk)
  | .deliverNcp i k =>
    match (s.sender i).toNcp[k]? with
    | none => s
    | some q => s.update i
        ({ s.sender i with toNcp := Channel.lose (s.sender i).toNcp k }.handle (S.env i) q)
  | .loseRcv i k => s.update i { s.sender i with toRcv := Channel.lose (s.sender i).toRcv k }
  | .loseNcp i k => s.update i { s.sender i with toNcp := Channel.lose (s.sender i).toNcp k }
  | .duplicateRcv i k =>
    s.update i { s.sender i with toRcv := Channel.duplicate (s.sender i).toRcv k }
  | .duplicateNcp i k =>
    s.update i { s.sender i with toNcp := Channel.duplicate (s.sender i).toNcp k }

def NackFound (s : Nets ι) : NetsEvent ι → Prop
  | .deliverNcp i k => ∀ q ∈ (s.sender i).toNcp[k]?, (s.sender i).ncp.status = .running →
      q.isNack = true → ∃ p ∈ (s.sender i).ncp.window, p.seq = q.cumSeq
  | _ => True

instance (s : Nets ι) : DecidablePred (NackFound s)
  | .deliverNcp i k => inferInstanceAs (Decidable (∀ q ∈ (s.sender i).toNcp[k]?,
      (s.sender i).ncp.status = .running → q.isNack = true →
        ∃ p ∈ (s.sender i).ncp.window, p.seq = q.cumSeq))
  | .ncpTimeout _ => .isTrue trivial
  | .rcvTimeout _ => .isTrue trivial
  | .deliverRcv .. => .isTrue trivial
  | .loseRcv .. => .isTrue trivial
  | .loseNcp .. => .isTrue trivial
  | .duplicateRcv .. => .isTrue trivial
  | .duplicateNcp .. => .isTrue trivial

def RcvState.called (s : RcvState) : List SockaddrIn :=
  if s.done then s.senderQ.tail else s.senderQ

/-- The messages that leave `is_nack` unset do not read as NACKs; a newcomer whose
packet makes the receiver ask the sender at the head is not ahead of that sender;
and a NACK is handled before any acknowledgment of the packet it asks for. -/
def Orderly (S : Senders ι) (s : Nets ι) : NetsEvent ι → Prop
  | .rcvTimeout junk => s.rcv.called ≠ [] → junk.isNack = false
  | .deliverRcv i k junk => ∀ p ∈ (s.sender i).toRcv[k]?,
      if (S.env i).addr ∈ s.rcv.senderQ then
        s.rcv.senderQ.head? ≠ some (S.env i).addr → junk.isNack = false
      else s.rcv.window = [] → s.rcv.cumSeq + 1 < p.seq →
        ∀ h, s.rcv.senderQ.head? = some (S.env h).addr → p.seq ≤ (s.sender h).ncp.pktCnt
  | .deliverNcp i k => ∀ q ∈ (s.sender i).toNcp[k]?, q.isNack = true →
      ∀ c ∈ (s.sender i).confirmed, c < q.cumSeq
  | _ => True

instance [Fintype ι] (S : Senders ι) (s : Nets ι) : DecidablePred (Orderly S s)
  | .rcvTimeout junk => inferInstanceAs (Decidable (s.rcv.called ≠ [] → junk.isNack = false))
  | .deliverRcv i k junk => inferInstanceAs (Decidable (∀ p ∈ (s.sender i).toRcv[k]?,
      if (S.env i).addr ∈ s.rcv.senderQ then
        s.rcv.senderQ.head? ≠ some (S.env i).addr → junk.isNack = false
      else s.rcv.window = [] → s.rcv.cumSeq + 1 < p.seq →
        ∀ h, s.rcv.senderQ.head? = some (S.env h).addr → p.seq ≤ (s.sender h).ncp.pktCnt))
  | .deliverNcp i k => inferInstanceAs (Decidable (∀ q ∈ (s.sender i).toNcp[k]?,
      q.isNack = true → ∀ c ∈ (s.sender i).confirmed, c < q.cumSeq))
  | .ncpTimeout _ => .isTrue trivial
  | .loseRcv .. => .isTrue trivial
  | .loseNcp .. => .isTrue trivial
  | .duplicateRcv .. => .isTrue trivial
  | .duplicateNcp .. => .isTrue trivial

-- ---------------------------------------------------------------------------
-- One sender
-- ---------------------------------------------------------------------------

variable {env : NcpEnv} {s t : Sender} {q : AckPkt}

structure Sender.Inv (env : NcpEnv) (s : Sender) : Prop where
  sending : ∃ b n, Sending env s.ncp b n ∧ (b = 1 ∨ ∃ c ∈ s.confirmed, (b : ℤ) ≤ c + 1)
  data : ∀ p ∈ s.toRcv, ∃ k : ℕ, 1 ≤ k ∧ (k : ℤ) < s.ncp.pktCnt ∧ p = ncpPkt env k
  nacks : ∀ q ∈ s.toNcp, q.isNack = true → 1 ≤ q.cumSeq ∧ q.cumSeq < s.ncp.pktCnt
  alive : s.ncp.status ≠ .faulted

theorem Sender.inv_init (hname : env.NameFits) : Sender.Inv env ⟨.init env, [], [], []⟩ where
  sending := ⟨1, 1, sending_init hname, .inl rfl⟩
  data := by simp
  nacks := by simp
  alive := by simp [NcpState.init]

theorem Sender.Inv.channels (h : s.Inv env) (toRcv : List NetPkt) (toNcp : List AckPkt)
    (hr : ∀ p ∈ toRcv, p ∈ s.toRcv) (hn : ∀ q ∈ toNcp, q ∈ s.toNcp) :
    Sender.Inv env { s with toRcv := toRcv, toNcp := toNcp } where
  sending := h.sending
  data := fun p hp => h.data p (hr p hp)
  nacks := fun q hq => h.nacks q (hn q hq)
  alive := h.alive

/-- A NACK for a packet that was read and that no acknowledgment covers finds it. -/
theorem Sender.Inv.found (h : s.Inv env) (hpos : 1 ≤ q.cumSeq)
    (hread : q.cumSeq < s.ncp.pktCnt) (hfresh : ∀ c ∈ s.confirmed, c < q.cumSeq) :
    ∃ p ∈ s.ncp.window, p.seq = q.cumSeq := by
  obtain ⟨b, n, hs, hb⟩ := h.sending
  have hfront : (b : ℤ) ≤ q.cumSeq := by
    rcases hb with rfl | ⟨c, hc, hle⟩
    · exact hpos
    · have := hfresh c hc
      omega
  rw [hs.pktCnt] at hread
  obtain ⟨k, hk⟩ := Int.eq_ofNat_of_zero_le (show 0 ≤ q.cumSeq by omega)
  refine ⟨ncpPkt env k, ?_, (ncpPkt_seq hs.fits k).trans hk.symm⟩
  rw [hs.window, mem_pkts]
  exact ⟨k, by omega, by omega, rfl⟩

theorem Sender.Inv.ncpDo (h : s.Inv env) {e : NcpEvent} {confirmed : List ℤ}
    (hle : s.confirmed ⊆ confirmed)
    (hack : ∀ q, e = .ack q → q.isNack = false → q.cumSeq ∈ confirmed)
    (hnack : ∀ q, e = .ack q → q.isNack = true → ∃ p ∈ s.ncp.window, p.seq = q.cumSeq) :
    Sender.Inv env { s.ncpDo env e with confirmed := confirmed } := by
  obtain ⟨b, n, hs, hb⟩ := h.sending
  obtain ⟨b', n', hs', hn, hout, hfront, -⟩ := hs.step e
  have hcnt : s.ncp.pktCnt ≤ (ncpStep env s.ncp e).1.pktCnt := by
    rw [hs.pktCnt, hs'.pktCnt]
    exact Int.ofNat_le.mpr hn
  refine ⟨⟨b', n', hs', ?_⟩, ?_, ?_, ?_⟩
  · rcases hfront with rfl | ⟨q, rfl, hq, hle'⟩
    · rcases hb with rfl | ⟨c, hc, hbc⟩
      · exact .inl rfl
      · exact .inr ⟨c, hle hc, hbc⟩
    · exact .inr ⟨q.cumSeq, hack q rfl hq, hle'⟩
  · intro p hp
    rcases List.mem_append.mp hp with hp | hp
    · obtain ⟨k, h1, hk, rfl⟩ := h.data p hp
      exact ⟨k, h1, hk.trans_le hcnt, rfl⟩
    · obtain ⟨k, h1, hk, rfl⟩ := hout p hp
      refine ⟨k, h1, ?_, rfl⟩
      show (k : ℤ) < (ncpStep env s.ncp e).1.pktCnt
      rw [hs'.pktCnt]
      exact Int.ofNat_lt.mpr hk
  · intro q hq hn
    obtain ⟨hpos, hread⟩ := h.nacks q hq hn
    exact ⟨hpos, hread.trans_le hcnt⟩
  · intro hf
    rcases ncpStep_faulted hf with hf | ⟨q, rfl, -, hn, hnone⟩
    · exact h.alive hf
    · obtain ⟨p, hp, hseq⟩ := hnack q rfl hn
      exact hnone p hp hseq

theorem Sender.Inv.timeout (h : s.Inv env) : (s.ncpDo env .timeout).Inv env :=
  h.ncpDo (List.Subset.refl _) (by rintro q ⟨⟩) (by rintro q ⟨⟩)

theorem Sender.Inv.handle (h : s.Inv env)
    (hfound : q.isNack = true → ∃ p ∈ s.ncp.window, p.seq = q.cumSeq) :
    (s.handle env q).Inv env := by
  refine h.ncpDo ?_ ?_ ?_
  · split_ifs
    · exact List.Subset.refl _
    · exact List.subset_append_left _ _
  · rintro _ ⟨⟩ hn
    rw [if_neg (by simp [hn])]
    exact List.mem_append_right _ List.mem_cons_self
  · rintro _ ⟨⟩ hn
    exact hfound hn

theorem Sender.Inv.hear (h : s.Inv env) {out : List RcvEffect}
    (hout : ∀ q, .sendto env.addr q ∈ out → q.isNack = true →
      1 ≤ q.cumSeq ∧ q.cumSeq < s.ncp.pktCnt) : (s.hear env out).Inv env where
  sending := h.sending
  data := h.data
  nacks := by
    intro q hq hn
    rcases List.mem_append.mp hq with hq | hq
    · exact h.nacks q hq hn
    · exact hout q (mem_acksTo.mp hq) hn
  alive := h.alive

-- ---------------------------------------------------------------------------
-- The NACKs the receiver sends
-- ---------------------------------------------------------------------------

variable {c : RcvCore} {dst src fromAddr : SockaddrIn} {pkt : NetPkt} {junk : AckPkt}

theorem coreTimeout_out (s : RcvState) (junk : AckPkt) : (coreTimeout s.core junk).2 =
    s.called.head?.toList.map fun head =>
      .sendto head { junk with cumSeq := if s.done then 0 else s.cumSeq } := by
  unfold coreTimeout RcvState.called
  cases hd : s.done with
  | true => simp [RcvState.core, hd]
  | false => simp [RcvState.core, hd]

theorem coreTimeout_nack {s : RcvState} (h : .sendto dst q ∈ (coreTimeout s.core junk).2)
    (hn : q.isNack = true) : s.called ≠ [] ∧ junk.isNack = true := by
  rw [coreTimeout_out] at h
  obtain ⟨head, hhead, heq⟩ := List.mem_map.mp h
  obtain ⟨-, rfl⟩ := RcvEffect.sendto.inj heq
  refine ⟨?_, hn⟩
  rintro hnil
  simp [hnil] at hhead

-- ---------------------------------------------------------------------------
-- All of them
-- ---------------------------------------------------------------------------

variable {S : Senders ι} {net : Nets ι} {i : ι}

structure Nets.Inv (S : Senders ι) (net : Nets ι) : Prop where
  sender : ∀ i, (net.sender i).Inv (S.env i)
  ok : net.rcv.core.Ok
  nonneg : 0 ≤ net.rcv.cumSeq

theorem Nets.inv_init (hname : ∀ i, (S.env i).NameFits) (buf : NetPkt) :
    (Nets.init S buf).Inv S where
  sender := fun i => Sender.inv_init (hname i)
  ok := RcvCore.ok_init buf
  nonneg := le_rfl

theorem Nets.Inv.update [DecidableEq ι] (h : net.Inv S) (ht : t.Inv (S.env i)) :
    (net.update i t).Inv S where
  sender := by
    intro j
    by_cases hj : j = i
    · subst hj
      simpa [Nets.update] using ht
    · simpa [Nets.update, hj] using h.sender j
  ok := h.ok
  nonneg := h.nonneg

theorem Nets.Inv.rcvDo (h : net.Inv S) (e : RcvEvent)
    (hout : ∀ i q, .sendto (S.env i).addr q ∈ (coreStep net.rcv.core e).2 → q.isNack = true →
      1 ≤ q.cumSeq ∧ q.cumSeq < (net.sender i).ncp.pktCnt) : (net.rcvDo S e).Inv S where
  sender := by
    intro i
    refine (h.sender i).hear fun q hq => hout i q ?_
    rwa [out_core h.ok] at hq
  ok := next_ok h.ok e
  nonneg := by
    have hcum : (net.rcvDo S e).rcv.cumSeq = (coreStep net.rcv.core e).1.cumSeq :=
      congrArg RcvCore.cumSeq (next_core h.ok e)
    rw [hcum]
    exact coreStep_cumSeq_nonneg h.nonneg e

theorem Nets.update_ncp [DecidableEq ι] (net : Nets ι) (i : ι) (t : Sender)
    (ht : t.ncp = (net.sender i).ncp) (j : ι) :
    ((net.update i t).sender j).ncp = (net.sender j).ncp := by
  by_cases hj : j = i
  · subst hj
    simpa [Nets.update] using ht
  · simp [Nets.update, hj]

theorem Nets.Inv.deliver (h : net.Inv S) {p : NetPkt} (hread : p.seq < (net.sender i).ncp.pktCnt)
    (hunset : (S.env i).addr ∈ net.rcv.senderQ → net.rcv.senderQ.head? ≠ some (S.env i).addr →
      junk.isNack = false)
    (hahead : (S.env i).addr ∉ net.rcv.senderQ → net.rcv.window = [] →
      net.rcv.cumSeq + 1 < p.seq → ∀ h, net.rcv.senderQ.head? = some (S.env h).addr →
        p.seq ≤ (net.sender h).ncp.pktCnt) :
    (net.rcvDo S (.datagram (S.env i).addr p junk)).Inv S := by
  refine h.rcvDo _ fun j q hq hn => ?_
  have hnonneg := h.nonneg
  rcases coreRecv_sendto hq with ⟨hmem, hwait, -, rfl⟩ | ⟨hserved, hhead, -, hnack⟩
  · rw [show _ = false from hunset hmem hwait] at hn
    cases hn
  · obtain ⟨hw, hlo, hhi⟩ := hnack hn
    have hlo' : net.rcv.cumSeq < q.cumSeq := hlo
    refine ⟨by omega, ?_⟩
    by_cases hji : j = i
    · subst hji
      exact hhi.trans hread
    · -- the packet is not the head's own, so it came from a newcomer
      have hne : (S.env j).addr ≠ (S.env i).addr := fun heq => hji (S.addr_inj heq)
      have hold := head?_of_joined hhead hne
      have hnew : (S.env i).addr ∉ net.rcv.senderQ := by
        intro hmem
        rw [show net.rcv.core.senderQ.head? = _ from hserved hmem] at hold
        exact hne (Option.some.inj hold).symm
      exact hhi.trans_le (hahead hnew hw (by omega) j hold)

theorem Nets.Inv.nackFound (h : net.Inv S) {e : NetsEvent ι} (he : Orderly S net e) :
    NackFound net e := by
  cases e with
  | deliverNcp i k =>
    intro q hq _ hn
    obtain ⟨hpos, hread⟩ := (h.sender i).nacks q (List.mem_of_getElem? hq) hn
    exact (h.sender i).found hpos hread (he q hq hn)
  | _ => trivial

theorem Nets.Inv.step [DecidableEq ι] (h : net.Inv S) {e : NetsEvent ι} (he : Orderly S net e) :
    (netsStep S net e).Inv S := by
  cases e with
  | ncpTimeout i => exact h.update (h.sender i).timeout
  | rcvTimeout junk =>
    refine h.rcvDo _ fun i q hq hn => ?_
    obtain ⟨hcalled, hjunk⟩ := coreTimeout_nack hq hn
    simp [he hcalled] at hjunk
  | deliverRcv i k junk =>
    cases hp : (net.sender i).toRcv[k]? with
    | none =>
      simp only [netsStep, hp]
      exact h
    | some p =>
      simp only [netsStep, hp]
      obtain ⟨_, _, hs, -⟩ := (h.sender i).sending
      obtain ⟨j, -, hj, rfl⟩ := (h.sender i).data p (List.mem_of_getElem? hp)
      have hcond := he _ hp
      have hunset (hmem : (S.env i).addr ∈ net.rcv.senderQ) :
          net.rcv.senderQ.head? ≠ some (S.env i).addr → junk.isNack = false := by
        rwa [if_pos hmem] at hcond
      have h' := h.update ((h.sender i).channels (Channel.lose (net.sender i).toRcv k)
        (net.sender i).toNcp (fun p => Channel.mem_of_mem_lose) (fun q hq => hq))
      have hncp := Nets.update_ncp net i
        { net.sender i with toRcv := Channel.lose (net.sender i).toRcv k } rfl
      refine h'.deliver ?_ hunset fun hnew hw hfut a ha => ?_
      · rw [hncp, ncpPkt_seq hs.fits]
        exact hj
      · rw [if_neg (show (S.env i).addr ∉ net.rcv.senderQ from hnew)] at hcond
        rw [hncp]
        exact hcond hw hfut a ha
  | deliverNcp i k =>
    cases hq : (net.sender i).toNcp[k]? with
    | none =>
      simp only [netsStep, hq]
      exact h
    | some q =>
      simp only [netsStep, hq]
      have h' := (h.sender i).channels (net.sender i).toRcv (Channel.lose (net.sender i).toNcp k)
        (fun p hp => hp) (fun q => Channel.mem_of_mem_lose)
      refine h.update (h'.handle fun hn => ?_)
      obtain ⟨hpos, hread⟩ := (h.sender i).nacks q (List.mem_of_getElem? hq) hn
      exact h'.found hpos hread (he q hq hn)
  | loseRcv i k =>
    exact h.update ((h.sender i).channels _ _ (fun p => Channel.mem_of_mem_lose) (fun q hq => hq))
  | loseNcp i k =>
    exact h.update ((h.sender i).channels _ _ (fun p hp => hp) (fun q => Channel.mem_of_mem_lose))
  | duplicateRcv i k =>
    exact h.update ((h.sender i).channels _ _ (fun p => Channel.mem_of_mem_duplicate)
      (fun q hq => hq))
  | duplicateNcp i k =>
    exact h.update ((h.sender i).channels _ _ (fun p hp => hp)
      (fun q => Channel.mem_of_mem_duplicate))

/-- In every orderly run of senders whose destination names fit, every NACK that a sender
handles names a packet in its window, and no sender goes on from the end of its window. -/
theorem nack_lookup [DecidableEq ι] (S : Senders ι) (hname : ∀ i, (S.env i).NameFits)
    (buf : NetPkt) (es : List (NetsEvent ι))
    (horderly : Along (netsStep S) (Orderly S) (.init S buf) es) :
    Along (netsStep S) NackFound (.init S buf) es ∧
      ∀ i, ((es.foldl (netsStep S) (.init S buf)).sender i).ncp.status ≠ .faulted := by
  constructor
  · exact horderly.strengthen (I := Nets.Inv S) (Nets.inv_init hname buf)
      (fun _ _ h he => h.step he) fun _ _ h he => h.nackFound he
  · intro i
    exact ((horderly.inv (Nets.inv_init hname buf) fun _ _ h he => h.step he).sender i).alive

def twoSenders : Senders Bool where
  env := fun i => {
    isLAN := true
    src := .replicate 1356 (if i then 97 else 98)
    dFname := ⟨[if i then 97 else 98], by cases i <;> decide⟩
    pid := 1
    addr := ⟨if i then 1 else 2, 5⟩
    malloc := fun _ => fullPkt [] 0 0 false
    blocked0 := false }
  addr_inj := by
    intro i j h
    cases i <;> cases j <;> first | rfl | cases h

/-- The second packet of the first sender arrives before its first one, the other
sender joins, and then the NACK for the first packet is handled. -/
theorem nack_lookup_first :
    let es : List (NetsEvent Bool) := [.ncpTimeout true, .ncpTimeout true, .ncpTimeout false,
      .deliverRcv true 2 ⟨0, 0, false⟩, .deliverRcv false 0 ⟨0, 0, false⟩, .deliverNcp true 0]
    let s := es.dropLast.foldl (netsStep twoSenders) (.init twoSenders (fullPkt [] 0 0 false))
    (s.sender true).toNcp[0]? = some ⟨1, lWSize, true⟩ ∧
      Along (netsStep twoSenders) NackFound (.init twoSenders (fullPkt [] 0 0 false)) es := by
  intro es s
  have h := nack_lookup twoSenders (by decide) (fullPkt [] 0 0 false) es (by decide +kernel)
  exact ⟨by decide +kernel, h.1⟩

/-- The acknowledgment of packet 1 overtakes the NACK for it. -/
theorem nack_overtaken :
    let es : List (NetsEvent Bool) := [.ncpTimeout true, .ncpTimeout true,
      .deliverRcv true 2 ⟨0, 0, false⟩, .deliverRcv true 0 ⟨0, 0, false⟩, .deliverNcp true 1]
    let s := es.foldl (netsStep twoSenders) (.init twoSenders (fullPkt [] 0 0 false))
    (s.sender true).toNcp[0]? = some ⟨1, lWSize, true⟩ ∧
      ¬ NackFound s (.deliverNcp true 0) ∧
      ((netsStep twoSenders s (.deliverNcp true 0)).sender true).ncp.status = .faulted := by
  decide +kernel

end Wan.Proj1
