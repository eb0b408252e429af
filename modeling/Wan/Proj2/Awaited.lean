import Wan.Proj2.Recovery

/-!
# The packet the receiver waits for

When the packet with number `cum_seq` arrives, `cum_seq` moves to the next missing
number and the one before that is acknowledged. One number is taken for something
else first: the one that means refusal, at which the receiver leaves. A server that
has cached enough datagrams sends that number as data, and the receiver comes to
wait for it.
-/

namespace Wan.Proj2

open Posix Lib

variable {s : RtNet} {a : SockaddrIn} {e : RtNetEvent} {n : ℕ}

/-- On the packet it waits for, the receiver moves `cum_seq` to the next missing
number and acknowledges the one before that; the delivery step comes after. -/
def ScansOn (r : RtRcvState) (pkt : NetPkt) (clock : ℕ → ℤ) : Prop :=
  ∃ t : RtRcvState, IsLeast {k | r.cumSeq < k ∧ k ∉ r.window.keys} t.cumSeq ∧
    rtRcvStep r (.recv pkt clock) =
      ((deliver t clock).1, .sendto ⟨t.cumSeq - 1, false⟩ :: (deliver t clock).2)

theorem rtRcvStep_refused {r : RtRcvState} {pkt : NetPkt} {clock : ℕ → ℤ}
    (hx : r.exited = false) (hb : pkt.seq = blockedSeq) :
    rtRcvStep r (.recv pkt clock) =
      ({ r with totalPkts := r.totalPkts + 1, exited := true }, []) := by
  rw [rtRcvStep, if_neg (by simp [hx])]
  simp only [rtRcvRecv, if_pos hb]

theorem scansOn_iff {r : RtRcvState} {pkt : NetPkt} {clock : ℕ → ℤ}
    (hheld : ∀ k ∈ r.window.keys, k < r.cumSeq + wSize) (hx : r.exited = false)
    (hc : 1 ≤ r.cumSeq) (hseq : pkt.seq = r.cumSeq) :
    ScansOn r pkt clock ↔ r.cumSeq ≠ blockedSeq := by
  constructor
  · rintro ⟨t, -, hstep⟩ hb
    -- a receiver that leaves acknowledges nothing
    rw [rtRcvStep_refused hx (hseq.trans hb)] at hstep
    cases congrArg Prod.snd hstep
  · intro hb
    obtain ⟨c, hleast, hscan⟩ :=
      sequential_least (r := { r with totalPkts := r.totalPkts + 1 }) hheld
    refine ⟨cachePkt { r with totalPkts := r.totalPkts + 1, cumSeq := c } pkt
      (toMS (clock 0 - pkt.senderTS)), hleast, ?_⟩
    rw [rtRcvStep_phaseII hx (hseq.trans_ne hb) (fun h0 => by omega),
      phaseII_sequential (by exact hseq), hscan]
    rfl

/-- In every run of one server and one receiver in which the replies' number reads
0: no data packet in flight and no packet held is `W_SIZE` or more ahead of
`cum_seq`; the packet `cum_seq` waits for makes it move to the next missing
number, and the one before that is acknowledged, exactly when that packet does not
have the number that means refusal; and `cum_seq` never goes back. -/
theorem request_window (a : SockaddrIn) (sinPort : UInt16) (es : List RtNetEvent)
    (hzero : Along (rtNetStep a) (fun s e => RepliesZero (rtNetStep a s e)) (.init sinPort) es) :
    let s := es.foldl (rtNetStep a) (.init sinPort)
    (∀ dst q, .data dst q ∈ s.toRcv → q.seq < s.rcv.cumSeq + wSize) ∧
      (∀ k ∈ s.rcv.window.keys, k < s.rcv.cumSeq + wSize) ∧
      (∀ o ∈ s.toRcv, ∀ clock, s.rcv.exited = false → 1 ≤ s.rcv.cumSeq →
        o.pkt.seq = s.rcv.cumSeq →
          (ScansOn s.rcv o.pkt clock ↔ s.rcv.cumSeq ≠ blockedSeq)) ∧
      ∀ e, s.rcv.cumSeq ≤ (rtNetStep a s e).rcv.cumSeq := by
  intro s
  have hinit : Requested (.init sinPort) ∧ RepliesZero (.init sinPort) :=
    ⟨requested_init sinPort, fun o ho => absurd ho List.not_mem_nil⟩
  obtain ⟨h, -⟩ : Requested s ∧ RepliesZero s :=
    hzero.inv (I := fun s => Requested s ∧ RepliesZero s) hinit fun s e h he => ⟨h.1.step h.2, he⟩
  exact ⟨h.data, h.held, fun o _ clock hx hc hseq => scansOn_iff h.held hx hc hseq,
    fun e => cumSeq_le_rtNetStep h e⟩

/-- The run up to the arrival of number 1 of two datagrams, with number 2 held. -/
theorem request_window_two :
    let es : List RtNetEvent := [.rcvTimeout fun _ => 0, .srvPass (some 0) none 0 zeroPkt,
      .deliverRcv 0 fun _ => 0, .srvPass none (some [7]) 0 zeroPkt,
      .srvPass none (some [8]) 0 zeroPkt, .srvPass (some 1) none 0 zeroPkt,
      .srvPass (some 0) none 0 zeroPkt, .deliverRcv 0 fun _ => 0]
    let s := es.foldl (rtNetStep ⟨1, 5⟩) (.init 0)
    s.rcv.cumSeq = 1 ∧ s.rcv.window.keys = [2] ∧ s.toRcv.map (·.pkt.seq) = [1] ∧
      ∀ k ∈ s.rcv.window.keys, k < s.rcv.cumSeq + wSize := by
  intro es
  have hzero : Along (rtNetStep ⟨1, 5⟩) (fun s e => RepliesZero (rtNetStep ⟨1, 5⟩ s e)) (.init 0)
      es := by decide +kernel
  obtain ⟨-, hheld, -⟩ := request_window ⟨1, 5⟩ 0 es hzero
  exact ⟨by decide +kernel, by decide +kernel, by decide +kernel, hheld⟩

-- ---------------------------------------------------------------------------
-- Every number is awaited in some run
-- ---------------------------------------------------------------------------

structure Abreast (a : SockaddrIn) (n : ℕ) (s : RtNet) : Prop where
  serving : Serving a s
  cumSeq : s.rcv.cumSeq = n
  cacheSeq : s.srv.cacheSeq = n

structure Asks (a : SockaddrIn) (n m : ℕ) (s : RtNet) : Prop where
  serving : Serving a s
  cumSeq : s.rcv.cumSeq = n
  cacheSeq : s.srv.cacheSeq = m
  running : s.rcv.exited = false
  asked : ⟨n, true⟩ ∈ s.toSrv

structure Awaited (a : SockaddrIn) (n : ℕ) (s : RtNet) : Prop where
  serving : Serving a s
  cumSeq : s.rcv.cumSeq = n
  cacheSeq : s.srv.cacheSeq = n + 1
  running : s.rcv.exited = false
  flight : ∃ dst q, .data dst q ∈ s.toRcv ∧ q.seq = n

/-- From `s` a run leads to a state with `P` on which all datagrams fit and the
replies carry the number 0. -/
def Leads (a : SockaddrIn) (P : RtNet → Prop) (s : RtNet) : Prop :=
  ∃ es : List RtNetEvent, Along (rtNetStep a) (Tame a) s es ∧ P (es.foldl (rtNetStep a) s)

theorem Leads.trans {P Q : RtNet → Prop} (h : Leads a P s) (hpq : ∀ t, P t → Leads a Q t) :
    Leads a Q s := by
  obtain ⟨es, hes, hp⟩ := h
  obtain ⟨fs, hfs, hq⟩ := hpq _ hp
  exact ⟨es ++ fs, along_append.mpr ⟨hes, hfs⟩, by rwa [List.foldl_append]⟩

theorem Serving.leads {P : RtNet → Prop} (h : Serving a s) (hfit : AppFits e) (hfresh : e.FreshZero)
    (hp : P (rtNetStep a s e)) : Leads a P s :=
  ⟨[e], ⟨⟨hfit, h.zero.step hfresh⟩, trivial⟩, hp⟩

theorem Serving.silent_tame {now : ℤ} (h : Serving a s) {es : List RtNetEvent}
    (hes : ∀ e ∈ es, e.Silent now) : Along (rtNetStep a) (Tame a) s es := by
  induction es generalizing s with
  | nil => trivial
  | cons e es ih =>
    obtain ⟨he, hes⟩ := List.forall_mem_cons.mp hes
    exact ⟨⟨he.fits, h.zero.step he.freshZero⟩, ih (h.silent he) hes⟩

theorem Advances.abreast (hadv : Advances a 0 s) (h : Serving a s)
    (hn : s.srv.cacheSeq = s.rcv.cumSeq + 1) : Leads a (Abreast a (s.rcv.cumSeq + 1)) s := by
  obtain ⟨later, hsilent, hlt, hserving, -, hcount⟩ := hadv.first h
  refine ⟨later, h.silent_tame hsilent, hserving, ?_,
    hcount.trans hn⟩
  have hahead := hserving.kept.ahead
  omega

theorem Abreast.notHeld (h : Abreast a n s) (h1 : 1 ≤ n) : n ∉ s.rcv.window.keys := by
  intro hk
  obtain ⟨p, hp⟩ := OrdMap.mem_keys.mp hk
  obtain ⟨hseq, h0 | hsent⟩ := h.serving.kept.stock.window n p hp
  · omega
  · -- what is held was given
    have hgiven := hsent.2.1
    rw [h.cacheSeq] at hgiven
    omega

theorem Abreast.ask (h : Abreast a n s) (h1 : 1 ≤ n) (hn : n ≤ blockedSeq) :
    Leads a (Asks a n n) s := by
  have hcum := h.cumSeq
  have hnear : n < s.rcv.cumSeq + wSize := by
    rw [hcum]
    exact Nat.lt_add_of_pos_right (by decide)
  have hsilent : (RtNetEvent.rcvTimeout fun _ => 0).Silent 0 := fun _ => le_rfl
  have hserving := h.serving.silent hsilent
  have hcount : (rtNetStep a s (.rcvTimeout fun _ => 0)).srv.cacheSeq = n := h.cacheSeq
  -- the pass cannot move on past what is given
  have hmono := cumSeq_le_rtNetStep (a := a) h.serving.requested (.rcvTimeout fun _ => 0)
  have hahead := hserving.kept.ahead
  exact h.serving.leads hsilent.fits hsilent.freshZero
    ⟨hserving, by omega, hcount, hserving.running (hcount.le.trans hn),
      nack_rcvTimeout (h.serving.running (h.cacheSeq.le.trans hn)) (h.notHeld h1) hcum.le hnear _⟩

theorem Asks.give (h : Asks a n n s) : Leads a (Asks a n (n + 1)) s := by
  have hfit : AppFits (.srvPass none (some [7]) 0 zeroPkt) := by simp [AppFits, Fits]
  have hcount : (rtSrvStep s.srv ⟨.idle, some [7], 0, zeroPkt⟩).1.cacheSeq = n + 1 := by
    simp [rtSrvStep, receiveApp, handleApp, h.serving.kept.range.running, h.cacheSeq]
  exact h.serving.leads hfit rfl
    ⟨h.serving.step ⟨hfit, h.serving.zero.step rfl⟩, h.cumSeq, hcount, h.running, h.asked⟩

theorem Asks.send (h : Asks a n (n + 1) s) (h1 : 1 ≤ n) : Leads a (Awaited a n) s := by
  obtain ⟨i, hrcv, o, ho, hseq, hdata⟩ := h.serving.answered h.asked rfl h.cumSeq.le
    (h.cacheSeq ▸ Nat.lt_succ_self n)
  obtain ⟨dst, q, rfl⟩ := hdata (Nat.one_le_iff_ne_zero.mp h1)
  have hsilent : (RtNetEvent.srvPass (some i) none 0 zeroPkt).Silent 0 := ⟨rfl, rfl⟩
  exact h.serving.leads hsilent.fits hsilent.freshZero
    ⟨h.serving.silent hsilent, hrcv ▸ h.cumSeq, (cacheSeq_silent hsilent).trans h.cacheSeq,
      hrcv ▸ h.running, dst, q, ho, hseq⟩

theorem Abreast.offer (h : Abreast a n s) (h1 : 1 ≤ n) (hn : n ≤ blockedSeq) :
    Leads a (Awaited a n) s :=
  ((h.ask h1 hn).trans fun _ ht => ht.give).trans fun _ ht => ht.send h1

theorem Awaited.next (h : Awaited a n s) (hn : n < blockedSeq) : Leads a (Abreast a (n + 1)) s := by
  obtain ⟨hserving, rfl, hcount, -, dst, q, hm, hseq⟩ := h
  exact (hserving.coming (by omega) hm hseq.ge 0).abreast hserving hcount

/-- Up to the one that means refusal, every number is awaited in some run. -/
theorem every_number_awaited (a : SockaddrIn) (sinPort : UInt16) (h1 : 1 ≤ n)
    (hn : n ≤ blockedSeq) : Leads a (Awaited a n) (.init sinPort) := by
  have hinit := serving_init a sinPort
  induction n, h1 using Nat.le_induction with
  | base =>
    obtain ⟨hgap, hnear, hgiven⟩ := hinit.phaseI rfl
    have hadv := hinit.missing (show 1 ≤ blockedSeq by decide) hgap le_rfl hnear hgiven 0
    exact (hadv.abreast hinit rfl).trans fun t ht => ht.offer le_rfl hn
  | succ n h1 ih =>
    exact (ih (by omega)).trans fun t ht => (ht.next hn).trans fun u hu => hu.offer (by omega) hn

/-- The receiver waits for number 0xffffffff and the datagram with that number
arrives: it leaves, acknowledges nothing and does not move on. -/
theorem awaited_number_refused : ∃ es : List RtNetEvent,
    Along (rtNetStep ⟨1, 5⟩) (fun s e => RepliesZero (rtNetStep ⟨1, 5⟩ s e)) (.init 0) es ∧
      let s := es.foldl (rtNetStep ⟨1, 5⟩) (.init 0)
      s.rcv.exited = false ∧ ∃ dst q, .data dst q ∈ s.toRcv ∧ q.seq = s.rcv.cumSeq ∧
        ∀ clock, ¬ ScansOn s.rcv q clock ∧ (rtRcvStep s.rcv (.recv q clock)).1.exited = true ∧
          (rtRcvStep s.rcv (.recv q clock)).1.cumSeq = s.rcv.cumSeq ∧
          (rtRcvStep s.rcv (.recv q clock)).2 = [] := by
  obtain ⟨es, htame, hserving, hcum, -, hx, dst, q, hm, hseq⟩ :=
    every_number_awaited (n := blockedSeq) ⟨1, 5⟩ 0 (by decide) le_rfl
  refine ⟨es, htame.mono fun _ _ he => he.2, hx, dst, q, hm, hseq.trans hcum.symm, fun clock => ?_⟩
  refine ⟨fun hscan => ?_, ?_⟩
  · exact (scansOn_iff hserving.requested.held hx (by rw [hcum]; decide)
      (hseq.trans hcum.symm)).mp hscan hcum
  · rw [rtRcvStep_refused hx hseq]
    exact ⟨rfl, rfl, rfl⟩

end Wan.Proj2
