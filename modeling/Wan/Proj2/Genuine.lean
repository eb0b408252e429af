import Wan.Proj2.RtNet

/-!
# What is delivered is what was sent

Every packet the receiver holds or delivers carries the datagram of its number,
provided it takes none of the server's replies for data. It does so with every
reply that arrives after the first packet: a reply is told from data only by
`cum_seq` being 0.
-/

namespace Wan.Proj2

open Posix Lib

variable {s : RtNet} {a : SockaddrIn} {e : RtNetEvent}

/-- A reply to a connection request is handed to the receiver before anything
else was, or makes it leave. -/
def ReplyInTime (s : RtNet) : RtNetEvent → Prop :=
  RcvReads (fun o => o.isReply = true →
    s.rcv.exited = true ∨ o.pkt.seq = blockedSeq ∨ s.rcv.cumSeq = 0) s

instance (s : RtNet) : DecidablePred (ReplyInTime s) := RcvReads.decidable _ s

def ReplyDropped (a : SockaddrIn) (s : RtNet) : RtNetEvent → Prop
  | .deliverRcv i clock => ∀ dst q, s.toRcv[i]? = some (.reply dst q) →
      (rtNetStep a s (.deliverRcv i clock)).delivered = s.delivered ∧
        (rtNetStep a s (.deliverRcv i clock)).rcv.window = s.rcv.window ∧
        ((rtNetStep a s (.deliverRcv i clock)).rcv.cumSeq = s.rcv.cumSeq ∨
          (s.rcv.cumSeq = 0 ∧ (rtNetStep a s (.deliverRcv i clock)).rcv.cumSeq = 1))
  | _ => True

structure Genuine (s : RtNet) : Prop where
  cached : Cached s.apps s.srv
  stock : Stocked (Numbered s.apps) s.rcv
  data : ∀ dst q, .data dst q ∈ s.toRcv → Numbered s.apps q
  refused : ∀ dst q, .reject dst q ∈ s.toRcv → q.seq = blockedSeq
  delivered : ∀ q ∈ s.delivered, Numbered s.apps q

theorem genuine_init (sinPort : UInt16) : Genuine (.init sinPort) where
  cached := cached_init sinPort
  stock := stocked_init
  data := fun _ _ hm => absurd hm List.not_mem_nil
  refused := fun _ _ hm => absurd hm List.not_mem_nil
  delivered := fun _ hm => absurd hm List.not_mem_nil

theorem Genuine.channels (h : Genuine s) {toRcv : List RtSrvEffect} {toSrv : List AckPkt}
    (hr : ∀ o ∈ toRcv, o ∈ s.toRcv) : Genuine { s with toRcv := toRcv, toSrv := toSrv } where
  cached := h.cached
  stock := h.stock
  data := fun dst q hm => h.data dst q (hr _ hm)
  refused := fun dst q hm => h.refused dst q (hr _ hm)
  delivered := h.delivered

theorem Genuine.srvDo (h : Genuine s) {e : RtSrvEvent} (hfit : Fits e.app) :
    Genuine (s.srvDo e) := by
  obtain ⟨hcached, hdata⟩ := h.cached.step hfit
  obtain ⟨-, hreject, -⟩ := rtSrvStep_phaseI s.srv e
  have hmono : ∀ q, Numbered s.apps q → Numbered (s.apps ++ accepted s.srv e) q :=
    fun q hq => hq.append _
  refine ⟨hcached, h.stock.mono hmono, fun dst q hm => ?_, fun dst q hm => ?_,
    fun q hq => hmono q (h.delivered q hq)⟩
  · rcases List.mem_append.mp hm with hm | hm
    · exact hmono q (h.data dst q hm)
    · exact hmono q (hdata dst q hm)
  · rcases List.mem_append.mp hm with hm | hm
    · exact h.refused dst q hm
    · exact (hreject dst q hm).1

theorem Genuine.rcvDo (h : Genuine s) {e : RtRcvEvent} (he : Welcome (Numbered s.apps) s.rcv e) :
    Genuine (s.rcvDo e) := by
  obtain ⟨hstock, -, -, hdeliver⟩ := h.stock.step he
  refine ⟨h.cached, hstock, h.data, h.refused, fun q hq => ?_⟩
  rcases List.mem_append.mp hq with hq | hq
  · exact h.delivered q hq
  · exact hdeliver q (mem_deliveriesOf.mp hq)

theorem Genuine.step (h : Genuine s) (hfit : AppFits e) (he : ReplyInTime s e) :
    Genuine (rtNetStep a s e) := by
  refine rtNetStep_cases (motive := fun s => Genuine s) ?_ ?_ ?_ ?_
  · rintro toSrv client app now fresh - - ⟨i, rfl⟩
    exact (h.channels (fun _ ho => ho)).srvDo hfit
  · rintro toRcv i clock o hsub rfl ho
    refine (h.channels hsub).rcvDo fun pkt clock' heq => ?_
    obtain ⟨rfl, -⟩ := RtRcvEvent.recv.inj heq
    have hm := List.mem_of_getElem? ho
    cases o with
    | reject dst q => exact .inr (.inl (h.refused dst q hm))
    | reply dst q =>
      rcases he _ ho rfl with hx | hb | h0
      · exact .inl hx
      · exact .inr (.inl hb)
      · exact .inr (.inr (.inl h0))
    | data dst q => exact .inr (.inr (.inr (h.data dst q hm)))
  · rintro clock rfl
    exact h.rcvDo fun pkt clock' heq => nomatch heq
  · exact fun toRcv toSrv hr _ => h.channels hr

theorem rtRcvStep_dropped {r : RtRcvState} {q : NetPkt} {Q : NetPkt → Prop}
    (h : Stocked Q r) (hq : r.exited = true ∨ q.seq = blockedSeq ∨ r.cumSeq = 0) (clock : ℕ → ℤ) :
    (rtRcvStep r (.recv q clock)).2 = [] ∧
      (rtRcvStep r (.recv q clock)).1.window = r.window ∧
      ((rtRcvStep r (.recv q clock)).1.cumSeq = r.cumSeq ∨
        (r.cumSeq = 0 ∧ (rtRcvStep r (.recv q clock)).1.cumSeq = 1)) := by
  refine rtRcvStep_cases (motive := fun t => t.2 = [] ∧ t.1.window = r.window ∧
    (t.1.cumSeq = r.cumSeq ∨ (r.cumSeq = 0 ∧ t.1.cumSeq = 1))) ?_ ?_ ?_ ?_ ?_
  · exact ⟨rfl, rfl, .inl rfl⟩
  · exact fun _ _ _ _ => ⟨rfl, rfl, .inl rfl⟩
  · exact fun _ _ _ h0 _ => ⟨rfl, rfl, .inr ⟨h0, rfl⟩⟩
  · intro pkt clock' heq hx hb hphase
    obtain ⟨rfl, -⟩ := RtRcvEvent.recv.inj heq
    rcases hq with hx' | hb' | h0
    · simp [hx] at hx'
    · exact absurd hb' hb
    · exact absurd ⟨h0, (h.phaseI h0).1⟩ hphase
  · exact fun _ heq => nomatch heq

theorem Genuine.replyDropped (h : Genuine s) (he : ReplyInTime s e) : ReplyDropped a s e := by
  cases e with
  | deliverRcv i clock =>
    intro dst q hq
    obtain ⟨hout, hwin, hcum⟩ := rtRcvStep_dropped (q := q) h.stock (he _ hq rfl) clock
    simp only [rtNetStep, hq]
    refine ⟨?_, hwin, hcum⟩
    show s.delivered ++ deliveriesOf (rtRcvStep s.rcv (.recv q clock)).2 = _
    rw [hout]
    exact List.append_nil _
  | srvPass i app now fresh => trivial
  | rcvTimeout clock => trivial
  | loseRcv i => trivial
  | loseSrv i => trivial
  | duplicateRcv i => trivial
  | duplicateSrv i => trivial

/-- In a run in which replies reach the receiver in time: every delivered packet
carries the datagram with its number, byte for byte, and replies are dropped. -/
theorem delivery_integrity (a : SockaddrIn) (sinPort : UInt16) (es : List RtNetEvent)
    (hfit : ∀ e ∈ es, AppFits e) (hreply : Along (rtNetStep a) ReplyInTime (.init sinPort) es) :
    let s := es.foldl (rtNetStep a) (.init sinPort)
    (∀ q ∈ s.delivered, 1 ≤ q.seq ∧ s.apps[q.seq - 1]? = some q.payload) ∧
      Along (rtNetStep a) (ReplyDropped a) (.init sinPort) es := by
  intro s
  have hrun := (along_of_forall hfit).and hreply
  have hstep : ∀ t e, Genuine t → AppFits e ∧ ReplyInTime t e → Genuine (rtNetStep a t e) :=
    fun t e h he => h.step he.1 he.2
  have h : Genuine s := hrun.inv (genuine_init sinPort) hstep
  exact ⟨h.delivered, hrun.strengthen (genuine_init sinPort) hstep fun t e h he =>
    h.replyDropped he.2⟩

/-- The packets with numbers 1 and 2 reach the receiver in the other order. -/
theorem delivery_integrity_reordered :
    let es : List RtNetEvent := [.rcvTimeout fun _ => 0,
      .srvPass (some 0) none 0 { zeroPkt with seq := 9, dtSize := 3 },
      .deliverRcv 0 fun _ => 0, .srvPass none (some [7]) 0 zeroPkt,
      .srvPass none (some [8, 9]) 0 { zeroPkt with senderTS := 1 },
      .srvPass (some 0) none 1 zeroPkt, .srvPass (some 0) none 1 zeroPkt,
      .deliverRcv 1 fun _ => 2, .deliverRcv 0 fun _ => 3, .rcvTimeout fun _ => 10 ^ 12]
    let s := es.foldl (rtNetStep ⟨1, 5⟩) (.init 0)
    s.delivered.map (·.payload) = [[7], [8, 9]] ∧
      ∀ q ∈ s.delivered, 1 ≤ q.seq ∧ s.apps[q.seq - 1]? = some q.payload := by
  intro es
  have hfit : ∀ e ∈ es, AppFits e := by
    simp [es, AppFits, Fits, dataLen]
  have hreply : Along (rtNetStep ⟨1, 5⟩) ReplyInTime (.init 0) es := by decide +kernel
  obtain ⟨hdel, -⟩ := delivery_integrity ⟨1, 5⟩ 0 es hfit hreply
  exact ⟨by decide +kernel, hdel⟩

/-- The reply to the connection request is duplicated, and its second copy is
delivered, although the server never had a datagram. -/
theorem late_reply_delivered :
    let es : List RtNetEvent := [.rcvTimeout fun _ => 0,
      .srvPass (some 0) none 0 { zeroPkt with dtSize := 3 }, .duplicateRcv 0,
      .deliverRcv 0 fun _ => 0, .deliverRcv 0 fun _ => 0]
    let s := es.foldl (rtNetStep ⟨1, 5⟩) (.init 0)
    (∀ e ∈ es, AppFits e) ∧ s.apps = [] ∧ s.delivered.map (·.payload) = [[0, 0, 0]] ∧
      ¬ (∀ q ∈ s.delivered, 1 ≤ q.seq ∧ s.apps[q.seq - 1]? = some q.payload) := by
  intro es
  have hfit : ∀ e ∈ es, AppFits e := by
    simp [es, AppFits, Fits]
  exact ⟨hfit, by decide +kernel⟩

end Wan.Proj2
