import Wan.Proj2.RtNet

/-!
# Which packet sets `delta`

A receiver that is not connected asks for number 0 and for the first data
packets at once, and takes the first packet that arrives for the server's reply,
whatever it is. Replies are stamped in the pass that handles their request, so
`delta` is measured on one of them as long as no data packet comes first. It is an
`int`, so the measured time must also fit one.
-/

namespace Wan.Proj2

open Posix Lib

variable {r : RtRcvState} {s : RtNet} {a : SockaddrIn} {sinPort : UInt16} {q pkt : NetPkt}
  {past : List RtNetEvent} {e : RtNetEvent}

def SetsDelta (r : RtRcvState) (pkt : NetPkt) : Prop :=
  r.exited = false ∧ pkt.seq ≠ blockedSeq ∧ r.cumSeq = 0 ∧ r.delta = 0xffff

/-- What is handed to a receiver in phase I is no data packet, and the time from its stamp
to the reading fits an `int`. -/
def ReplyFirst (s : RtNet) (e : RtNetEvent) : Prop :=
  ∀ i clock o, e = .deliverRcv i clock → s.toRcv[i]? = some o → SetsDelta s.rcv o.pkt →
    (∀ dst q, o ≠ .data dst q) ∧ IntRange (toMS (clock 1 - o.pkt.senderTS))

def AnsweredIn (a : SockaddrIn) (sinPort : UInt16) (past : List RtNetEvent) (q : NetPkt) : Prop :=
  ∃ front i app now fresh rest p, past = front ++ .srvPass (some i) app now fresh :: rest ∧
    (front.foldl (rtNetStep a) (.init sinPort)).toSrv[i]? = some p ∧ p.seq = 0 ∧
    q = { fresh with senderTS := now } ∧ .reply a q ∈
      (rtSrvStep (front.foldl (rtNetStep a) (.init sinPort)).srv ⟨.msg a p, app, now, fresh⟩).2

/-- After the events `past`, the event `e` stores a `delta` measured on a reply or
none at all. -/
structure Calibrated (a : SockaddrIn) (sinPort : UInt16) (past : List RtNetEvent)
    (e : RtNetEvent) (s : RtNet) : Prop where
  stored : ∀ i clock o, e = .deliverRcv i clock → s.toRcv[i]? = some o → SetsDelta s.rcv o.pkt →
    ∃ dst q, o = .reply dst q ∧ AnsweredIn a sinPort past q ∧
      (rtNetStep a s e).rcv.delta = toMS (clock 1 - q.senderTS)
  kept : (∀ i clock o, e = .deliverRcv i clock → s.toRcv[i]? = some o → ¬ SetsDelta s.rcv o.pkt) →
    (rtNetStep a s e).rcv.delta = s.rcv.delta

-- ---------------------------------------------------------------------------
-- The receiver
-- ---------------------------------------------------------------------------

theorem rtRcvStep_setsDelta (h : SetsDelta r pkt) (clock : ℕ → ℤ) :
    (rtRcvStep r (.recv pkt clock)).1.delta = toInt (toMS (clock 1 - pkt.senderTS)) := by
  obtain ⟨hx, hb, h0, hd⟩ := h
  simp [rtRcvStep, rtRcvRecv, hx, hb, h0, hd]

theorem rtRcvStep_keepsDelta {e : RtRcvEvent}
    (h : ∀ pkt clock, e = .recv pkt clock → ¬ SetsDelta r pkt) :
    (rtRcvStep r e).1.delta = r.delta := by
  cases hx : r.exited with
  | true => simp [rtRcvStep, hx]
  | false =>
    cases e with
    | recv pkt clock =>
      simp only [rtRcvStep, hx, Bool.false_eq_true, ↓reduceIte, rtRcvRecv]
      split_ifs with hb h1
      · rfl
      · exact absurd ⟨hx, hb, h1⟩ (h pkt clock rfl)
      · exact (deliver_delta _ clock).trans (phaseII_delta _ pkt _)
    | failed => simp [rtRcvStep, hx]
    | timeout clock =>
      simp only [rtRcvStep, hx, Bool.false_eq_true, ↓reduceIte]
      rfl

-- ---------------------------------------------------------------------------
-- The network
-- ---------------------------------------------------------------------------

theorem AnsweredIn.append (h : AnsweredIn a sinPort past q) (more : List RtNetEvent) :
    AnsweredIn a sinPort (past ++ more) q := by
  obtain ⟨front, i, app, now, fresh, rest, p, rfl, hp⟩ := h
  exact ⟨front, i, app, now, fresh, rest ++ more, p, by simp, hp⟩

structure Traced (a : SockaddrIn) (sinPort : UInt16) (past : List RtNetEvent) (s : RtNet) :
    Prop where
  state : s = past.foldl (rtNetStep a) (.init sinPort)
  reply : ∀ dst q, .reply dst q ∈ s.toRcv → AnsweredIn a sinPort past q
  refused : ∀ dst q, .reject dst q ∈ s.toRcv → q.seq = blockedSeq

theorem traced_init (a : SockaddrIn) (sinPort : UInt16) : Traced a sinPort [] (.init sinPort) where
  state := rfl
  reply := fun _ _ hm => absurd hm List.not_mem_nil
  refused := fun _ _ hm => absurd hm List.not_mem_nil

theorem Traced.fewer (h : Traced a sinPort past s)
    (hs : ∀ o ∈ (rtNetStep a s e).toRcv, o ∈ s.toRcv) :
    Traced a sinPort (past ++ [e]) (rtNetStep a s e) where
  state := by
    rw [List.foldl_append, ← h.state]
    rfl
  reply := fun dst q hm => (h.reply dst q (hs _ hm)).append _
  refused := fun dst q hm => h.refused dst q (hs _ hm)

theorem Traced.srvPass (h : Traced a sinPort past s) {i : Option ℕ} {app : Option Bytes} {now : ℤ}
    {fresh : NetPkt} {client : ClientInput}
    (hc : ∀ src p, client = .msg src p → src = a ∧ ∃ j, i = some j ∧ s.toSrv[j]? = some p)
    (ht : (rtNetStep a s (.srvPass i app now fresh)).toRcv =
      s.toRcv ++ (rtSrvStep s.srv ⟨client, app, now, fresh⟩).2) :
    Traced a sinPort (past ++ [.srvPass i app now fresh])
      (rtNetStep a s (.srvPass i app now fresh)) where
  state := by
    rw [List.foldl_append, ← h.state]
    rfl
  reply := by
    intro dst q hm
    rw [ht] at hm
    rcases List.mem_append.mp hm with hm | hm
    · exact (h.reply dst q hm).append _
    · obtain ⟨p, hmsg, h0, hq, -⟩ := (rtSrvStep_phaseI s.srv _).1 dst q hm
      obtain ⟨rfl, j, rfl, hj⟩ := hc dst p hmsg
      rw [show client = .msg dst p from hmsg] at hm
      rw [h.state] at hj hm
      exact ⟨past, j, app, now, fresh, [], p, rfl, hj, h0, hq, hm⟩
  refused := by
    intro dst q hm
    rw [ht] at hm
    rcases List.mem_append.mp hm with hm | hm
    · exact h.refused dst q hm
    · exact ((rtSrvStep_phaseI s.srv _).2.1 dst q hm).1

theorem Traced.step (h : Traced a sinPort past s) (e : RtNetEvent) :
    Traced a sinPort (past ++ [e]) (rtNetStep a s e) := by
  cases e with
  | srvPass i app now fresh =>
    cases i with
    | none =>
      exact h.srvPass (fun src p (hm : ClientInput.idle = .msg src p) => by cases hm) rfl
    | some j =>
      cases hp : s.toSrv[j]? with
      | none =>
        refine h.srvPass (fun src p (hm : ClientInput.idle = .msg src p) => by cases hm) ?_
        simp only [rtNetStep, hp]
        rfl
      | some p =>
        refine h.srvPass (fun src p' (hm : ClientInput.msg a p = .msg src p') => ?_) ?_
        · obtain ⟨rfl, rfl⟩ := ClientInput.msg.inj hm
          exact ⟨rfl, j, rfl, hp⟩
        · simp only [rtNetStep, hp]
          rfl
  | deliverRcv i clock =>
    refine h.fewer fun o ho => ?_
    simp only [rtNetStep] at ho
    split at ho
    · exact ho
    · exact Channel.mem_of_mem_lose ho
  | rcvTimeout clock => exact h.fewer fun o ho => ho
  | loseRcv i => exact h.fewer fun o ho => Channel.mem_of_mem_lose ho
  | loseSrv i => exact h.fewer fun o ho => ho
  | duplicateRcv i => exact h.fewer fun o ho => Channel.mem_of_mem_duplicate ho
  | duplicateSrv i => exact h.fewer fun o ho => ho

theorem Traced.calibrated (h : Traced a sinPort past s) (he : ReplyFirst s e) :
    Calibrated a sinPort past e s where
  stored := by
    rintro i clock o rfl ho hset
    obtain ⟨hdata, hrange⟩ := he i clock o rfl ho hset
    cases o with
    | reject dst q => exact absurd (h.refused dst q (List.mem_of_getElem? ho)) hset.2.1
    | reply dst q =>
      refine ⟨dst, q, rfl, h.reply dst q (List.mem_of_getElem? ho), ?_⟩
      simp only [rtNetStep, ho]
      exact (rtRcvStep_setsDelta hset clock).trans (toInt_eq hrange.1 hrange.2)
    | data dst q => exact absurd rfl (hdata dst q)
  kept := by
    intro hno
    cases e with
    | srvPass i app now fresh =>
      cases i with
      | none => rfl
      | some j =>
        simp only [rtNetStep]
        split <;> rfl
    | deliverRcv i clock =>
      cases ho : s.toRcv[i]? with
      | none => simp only [rtNetStep, ho]
      | some o =>
        simp only [rtNetStep, ho]
        refine rtRcvStep_keepsDelta fun pkt clock' heq => ?_
        obtain ⟨rfl, -⟩ := RtRcvEvent.recv.inj heq
        exact hno i clock o rfl ho
    | rcvTimeout clock => exact rtRcvStep_keepsDelta fun pkt clock' heq => by cases heq
    | loseRcv i => rfl
    | loseSrv i => rfl
    | duplicateRcv i => rfl
    | duplicateSrv i => rfl

/-- At every event of a run, `delta` is left alone or is the time from a reply's stamp, set
when the server handled the request, to its reading, exactly when no data packet reaches
a receiver that waits for the reply and that time fits an `int`. -/
theorem calibration_iff (a : SockaddrIn) (sinPort : UInt16) (es : List RtNetEvent) :
    (∀ past e rest, es = past ++ e :: rest →
        Calibrated a sinPort past e (past.foldl (rtNetStep a) (.init sinPort))) ↔
      Along (rtNetStep a) ReplyFirst (.init sinPort) es := by
  have htraced (past : List RtNetEvent) :
      Traced a sinPort past (past.foldl (rtNetStep a) (.init sinPort)) :=
    along_trivial.inv_history (traced_init a sinPort)
      fun past s e h _ => h.step e
  constructor
  · intro h
    refine along_of_splits fun past e rest heq => ?_
    rintro i clock o rfl ho hset
    obtain ⟨dst, q, rfl, -, hdelta⟩ := (h past _ rest heq).stored i clock o rfl ho hset
    simp only [rtNetStep, ho] at hdelta
    have hset' := rtRcvStep_setsDelta hset clock
    refine ⟨by rintro dst' q' ⟨⟩, ?_⟩
    show IntRange (toMS (clock 1 - q.senderTS))
    rw [← hdelta]
    exact hset' ▸ toInt_range _
  · rintro h past e rest rfl
    exact (htraced past).calibrated (along_append.mp h).2.1

/-- A datagram is cached, and its number is requested together with number 0. The
data packet, stamped 0 by the allocator and sent at 1 s, arrives first, at 3 s:
`delta` becomes 3000 ms. -/
theorem data_packet_sets_delta :
    let past : List RtNetEvent := [.rcvTimeout fun _ => 0, .srvPass none (some [7]) 0 zeroPkt,
      .srvPass (some 1) none (10 ^ 9) zeroPkt]
    let e : RtNetEvent := .deliverRcv 0 fun _ => 3 * 10 ^ 9
    let s := past.foldl (rtNetStep ⟨1, 5⟩) (.init 0)
    (rtNetStep ⟨1, 5⟩ s e).rcv.delta = 3000 ∧ ¬ Calibrated ⟨1, 5⟩ 0 past e s := by
  intro past e s
  have hdata : ∃ q, s.toRcv[0]? = some (.data ⟨1, 5⟩ q) ∧ q.seq ≠ blockedSeq := by
    refine ⟨_, rfl, ?_⟩
    decide +kernel
  refine ⟨by decide +kernel, fun h => ?_⟩
  obtain ⟨q, ho, hb⟩ := hdata
  have hset : SetsDelta s.rcv q := ⟨by decide +kernel, hb, by decide +kernel, by decide +kernel⟩
  obtain ⟨dst, q', heq, -⟩ := h.stored 0 (fun _ => 3 * 10 ^ 9) _ rfl ho hset
  cases heq

/-- A reply that is read 2147483648 ms after its stamp stores a negative number. -/
example :
    let es : List RtNetEvent := [.rcvTimeout fun _ => 0, .srvPass (some 0) none 0 zeroPkt,
      .deliverRcv 0 fun _ => 2147483648 * 10 ^ 6]
    (es.foldl (rtNetStep ⟨1, 5⟩) (.init 0)).rcv.delta = -2147483648 := by
  decide +kernel

end Wan.Proj2
