import Wan.Proj2.Queue
import Wan.Proj2.Rejection

/-!
# Any number of receivers

The server looks at the address of a request for a connection only, so it may serve
several receivers at a time. Each of them is served like a single one: as long as nothing
comes too late for it, the system is a queue of its own to it, whatever the others do and
whoever was accepted. The queues take the same datagrams.
-/

namespace Wan.Proj2

open Posix Lib

variable {ι : Type}

structure LoggedRtNets (ι : Type) where
  nets : RtNets ι
  apps : List Bytes
  delivered : ι → List NetPkt

def LoggedRtNets.init (ι : Type) (sinPort : UInt16) : LoggedRtNets ι :=
  ⟨.init ι sinPort, [], fun _ => []⟩

def RtNets.taken (s : RtNets ι) : RtNetsEvent ι → List Bytes
  | .srvPass i app now fresh => accepted s.srv ⟨s.read i, app, now, fresh⟩
  | _ => []

def RtNets.passOf [DecidableEq ι] (addr : ι → SockaddrIn) (s : RtNets ι) (r : ι) :
    RtNetsEvent ι → Option RtRcvEvent
  | .deliverRcv r' i clock =>
    match s.toRcv[i]? with
    | none => none
    | some o => if o.dst = addr r' ∧ r' = r then some (.recv o.pkt clock) else none
  | .rcvTimeout r' clock => if r' = r then some (.timeout clock) else none
  | _ => none

def RtNets.handed [DecidableEq ι] (addr : ι → SockaddrIn) (s : RtNets ι) (r : ι)
    (e : RtNetsEvent ι) : List NetPkt :=
  match s.passOf addr r e with
  | none => []
  | some x => deliveriesOf (rtRcvStep (s.rcv r) x).2

def rtLogStep [DecidableEq ι] (addr : ι → SockaddrIn) (t : LoggedRtNets ι) (e : RtNetsEvent ι) :
    LoggedRtNets ι where
  nets := rtNetsStep addr t.nets e
  apps := t.apps ++ t.nets.taken e
  delivered := fun r => t.delivered r ++ t.nets.handed addr r e

def LoggedRtNets.queue (t : LoggedRtNets ι) (r : ι) : LossyQueue Bytes :=
  queueOf t.apps (t.delivered r)

def RtNetsEvent.Fits : RtNetsEvent ι → Prop
  | .srvPass _ app _ _ => Proj2.Fits app
  | _ => True

/-- What the receiver `r` is handed in phase II is no reply to a request for a connection,
and has not been passed by its `cum_seq`, or is still waiting for its delivery, or there
was no delivery yet. -/
def Prompt (addr : ι → SockaddrIn) (r : ι) (t : LoggedRtNets ι) : RtNetsEvent ι → Prop
  | .deliverRcv r' i _ => r' = r → ∀ o ∈ t.nets.toRcv[i]?, o.dst = addr r →
      (t.nets.rcv r).exited = true ∨ o.pkt.seq = blockedSeq ∨ (t.nets.rcv r).cumSeq = 0 ∨
        (o.isReply = false ∧ ((t.nets.rcv r).cumSeq ≤ o.pkt.seq ∨
          o.pkt.seq ∈ (t.nets.rcv r).window.keys ∨ t.delivered r = []))
  | _ => True

instance [DecidableEq ι] (addr : ι → SockaddrIn) (r : ι) (t : LoggedRtNets ι) :
    DecidablePred (Prompt addr r t)
  | .deliverRcv r' i _ => inferInstanceAs (Decidable (r' = r → ∀ o ∈ t.nets.toRcv[i]?,
      o.dst = addr r →
        (t.nets.rcv r).exited = true ∨ o.pkt.seq = blockedSeq ∨ (t.nets.rcv r).cumSeq = 0 ∨
          (o.isReply = false ∧ ((t.nets.rcv r).cumSeq ≤ o.pkt.seq ∨
            o.pkt.seq ∈ (t.nets.rcv r).window.keys ∨ t.delivered r = []))))
  | .srvPass _ _ _ _ => .isTrue trivial
  | .rcvTimeout _ _ => .isTrue trivial
  | .loseRcv _ => .isTrue trivial
  | .loseSrv _ => .isTrue trivial
  | .duplicateRcv _ => .isTrue trivial
  | .duplicateSrv _ => .isTrue trivial

variable {addr : ι → SockaddrIn} {t : LoggedRtNets ι} {r : ι} {e : RtNetsEvent ι}

-- ---------------------------------------------------------------------------
-- Who moves in a step
-- ---------------------------------------------------------------------------

theorem rcv_rcvDo [DecidableEq ι] (s : RtNets ι) (r r' : ι) (x : RtRcvEvent) :
    (s.rcvDo addr r' x).rcv r = if r' = r then (rtRcvStep (s.rcv r) x).1 else s.rcv r := by
  simp only [RtNets.rcvDo]
  split_ifs with hr
  · rw [hr, Function.update_self]
  · rw [Function.update_of_ne (Ne.symm hr)]

theorem rcv_rtNetsStep [DecidableEq ι] (s : RtNets ι) (r : ι) (e : RtNetsEvent ι) :
    (rtNetsStep addr s e).rcv r =
      match s.passOf addr r e with
      | none => s.rcv r
      | some x => (rtRcvStep (s.rcv r) x).1 := by
  cases e with
  | deliverRcv r' i clock =>
    simp only [rtNetsStep, RtNets.passOf]
    cases ho : s.toRcv[i]? with
    | none => rfl
    | some o =>
      by_cases hdst : o.dst = addr r'
      · simp only [hdst, ↓reduceIte, true_and, rcv_rcvDo]
        split_ifs <;> rfl
      · simp [hdst]
  | rcvTimeout r' clock =>
    simp only [rtNetsStep, RtNets.passOf, rcv_rcvDo]
    split_ifs <;> rfl
  | srvPass i app now fresh => rfl
  | loseRcv i => rfl
  | loseSrv i => rfl
  | duplicateRcv i => rfl
  | duplicateSrv i => rfl

-- ---------------------------------------------------------------------------
-- The server and what is in flight
-- ---------------------------------------------------------------------------

structure Trusted (t : LoggedRtNets ι) : Prop where
  cached : Cached t.apps t.nets.srv
  data : ∀ dst q, .data dst q ∈ t.nets.toRcv → Numbered t.apps q
  refused : ∀ dst q, .reject dst q ∈ t.nets.toRcv → q.seq = blockedSeq

theorem trusted_init (sinPort : UInt16) : Trusted (.init ι sinPort) where
  cached := cached_init sinPort
  data := fun _ _ hm => absurd hm List.not_mem_nil
  refused := fun _ _ hm => absurd hm List.not_mem_nil

theorem Trusted.frame [DecidableEq ι] (h : Trusted t) (htaken : t.nets.taken e = [])
    (hsrv : (rtNetsStep addr t.nets e).srv = t.nets.srv)
    (hsub : ∀ o ∈ (rtNetsStep addr t.nets e).toRcv, o ∈ t.nets.toRcv) :
    Trusted (rtLogStep addr t e) := by
  refine ⟨?_, fun dst q hm => ?_, fun dst q hm => h.refused dst q (hsub _ hm)⟩
  · show Cached (t.apps ++ t.nets.taken e) (rtNetsStep addr t.nets e).srv
    rw [htaken, hsrv, List.append_nil]
    exact h.cached
  · show Numbered (t.apps ++ t.nets.taken e) q
    rw [htaken, List.append_nil]
    exact h.data dst q (hsub _ hm)

theorem Trusted.step [DecidableEq ι] (h : Trusted t) (hfit : e.Fits) :
    Trusted (rtLogStep addr t e) := by
  cases e with
  | srvPass i app now fresh =>
    let x : RtSrvEvent := ⟨t.nets.read i, app, now, fresh⟩
    obtain ⟨hcached, hdata⟩ := h.cached.step (e := x) hfit
    obtain ⟨-, hreject, -⟩ := rtSrvStep_phaseI t.nets.srv x
    refine ⟨hcached, fun dst q hm => ?_, fun dst q hm => ?_⟩
    · rcases List.mem_append.mp hm with hm | hm
      · exact (h.data dst q hm).append _
      · exact (hdata dst q hm).append _
    · rcases List.mem_append.mp hm with hm | hm
      · exact h.refused dst q hm
      · exact (hreject dst q hm).1
  | deliverRcv r i clock =>
    refine h.frame rfl ?_ fun o => ?_
    · simp only [rtNetsStep]
      cases t.nets.toRcv[i]? with
      | none => rfl
      | some o => dsimp only; split_ifs <;> rfl
    · simp only [rtNetsStep]
      cases t.nets.toRcv[i]? with
      | none => exact id
      | some o' =>
        dsimp only
        split_ifs
        · exact Channel.mem_of_mem_lose
        · exact id
  | rcvTimeout r clock => exact h.frame rfl rfl fun o => id
  | loseRcv i => exact h.frame rfl rfl fun o => Channel.mem_of_mem_lose
  | loseSrv i => exact h.frame rfl rfl fun o => id
  | duplicateRcv i => exact h.frame rfl rfl fun o => Channel.mem_of_mem_duplicate
  | duplicateSrv i => exact h.frame rfl rfl fun o => id

-- ---------------------------------------------------------------------------
-- One of the receivers
-- ---------------------------------------------------------------------------

structure Streamed (t : LoggedRtNets ι) (r : ι) : Prop where
  stock : Stocked (Numbered t.apps) (t.nets.rcv r)
  ordered : Ordered (t.nets.rcv r) (t.delivered r)
  delivered : ∀ q ∈ t.delivered r, Numbered t.apps q

theorem streamed_init (sinPort : UInt16) (r : ι) : Streamed (.init ι sinPort) r where
  stock := stocked_init
  ordered := ordered_init
  delivered := fun _ hq => absurd hq List.not_mem_nil

theorem Prompt.welcome [DecidableEq ι] (he : Prompt addr r t e) (h : Trusted t) {x : RtRcvEvent}
    (hx : t.nets.passOf addr r e = some x) :
    Welcome (Numbered t.apps) (t.nets.rcv r) x ∧
      Welcome (fun pkt => (t.nets.rcv r).cumSeq ≤ pkt.seq ∨
        pkt.seq ∈ (t.nets.rcv r).window.keys ∨ t.delivered r = []) (t.nets.rcv r) x := by
  cases e with
  | deliverRcv r' i clock =>
    simp only [RtNets.passOf] at hx
    cases ho : t.nets.toRcv[i]? with
    | none => simp [ho] at hx
    | some o =>
      simp only [ho] at hx
      split_ifs at hx with hr
      obtain ⟨hdst, rfl⟩ := hr
      obtain rfl := Option.some.inj hx
      have hm := List.mem_of_getElem? ho
      refine ⟨fun pkt clock' heq => ?_, fun pkt clock' heq => ?_⟩
      · obtain ⟨rfl, -⟩ := RtRcvEvent.recv.inj heq
        rcases he rfl o ho hdst with hx | hb | h0 | ⟨hdata, -⟩
        · exact .inl hx
        · exact .inr (.inl hb)
        · exact .inr (.inr (.inl h0))
        · cases o with
          | reject dst q => exact .inr (.inl (h.refused dst q hm))
          | reply dst q => cases hdata
          | data dst q => exact .inr (.inr (.inr (h.data dst q hm)))
      · obtain ⟨rfl, -⟩ := RtRcvEvent.recv.inj heq
        exact (he rfl o ho hdst).imp_right (Or.imp_right (Or.imp_right And.right))
  | rcvTimeout r' clock =>
    simp only [RtNets.passOf] at hx
    split_ifs at hx
    obtain rfl := Option.some.inj hx
    exact ⟨fun pkt clock' heq => (by cases heq), fun pkt clock' heq => (by cases heq)⟩
  | srvPass i app now fresh => cases hx
  | loseRcv i => cases hx
  | loseSrv i => cases hx
  | duplicateRcv i => cases hx
  | duplicateSrv i => cases hx

theorem Streamed.step [DecidableEq ι] (h : Streamed t r) (ht : Trusted t)
    (he : Prompt addr r t e) : Streamed (rtLogStep addr t e) r := by
  have hrcv : (rtLogStep addr t e).nets.rcv r = _ := rcv_rtNetsStep t.nets r e
  have hdel : (rtLogStep addr t e).delivered r = t.delivered r ++ t.nets.handed addr r e := rfl
  have hmono : ∀ q, Numbered t.apps q → Numbered (rtLogStep addr t e).apps q :=
    fun q hq => hq.append _
  rw [RtNets.handed] at hdel
  cases hx : t.nets.passOf addr r e with
  | none =>
    simp only [hx, List.append_nil] at hrcv hdel
    refine ⟨?_, ?_, ?_⟩ <;> simp only [hrcv, hdel]
    · exact h.stock.mono hmono
    · exact h.ordered
    · exact fun q hq => hmono q (h.delivered q hq)
  | some x =>
    simp only [hx] at hrcv hdel
    obtain ⟨hwelcome, htimely⟩ := he.welcome ht hx
    obtain ⟨hstock, -, -, hdeliver⟩ := h.stock.step hwelcome
    refine ⟨?_, ?_, ?_⟩ <;> simp only [hrcv, hdel]
    · exact hstock.mono hmono
    · exact h.ordered.step htimely
    · intro q hq
      rcases List.mem_append.mp hq with hq | hq
      · exact hmono q (h.delivered q hq)
      · exact hmono q (hdeliver q (mem_deliveriesOf.mp hq))

theorem Streamed.queue_step [DecidableEq ι] (h : Streamed t r) (ht : Trusted t)
    (he : Prompt addr r t e) : (t.queue r).Leads ((rtLogStep addr t e).queue r) := by
  have h' := h.step ht he
  exact queueOf_leads h'.ordered.sorted fun q hq => h'.delivered q (List.mem_append_right _ hq)

-- ---------------------------------------------------------------------------
-- Runs
-- ---------------------------------------------------------------------------

def PromptFor (addr : ι → SockaddrIn) (R : Set ι) (t : LoggedRtNets ι) (e : RtNetsEvent ι) : Prop :=
  e.Fits ∧ ∀ r ∈ R, Prompt addr r t e

def StreamedTo (R : Set ι) (t : LoggedRtNets ι) : Prop := Trusted t ∧ ∀ r ∈ R, Streamed t r

theorem StreamedTo.step [DecidableEq ι] {R : Set ι} (h : StreamedTo R t)
    (he : PromptFor addr R t e) : StreamedTo R (rtLogStep addr t e) :=
  ⟨h.1.step he.1, fun r hr => (h.2 r hr).step h.1 (he.2 r hr)⟩

/-- In every run in which nothing comes too late for the receivers in `R`: whoever was
accepted, and however late packets come to the others, each of these receivers sees a
queue that takes the application's datagrams and gives them out or drops them, one after
the other. Each delivers some of the datagrams, in order, and where two of them deliver
the same number they deliver the same datagram. -/
theorem receivers_agree [DecidableEq ι] (addr : ι → SockaddrIn) (sinPort : UInt16) (R : Set ι)
    (es : List (RtNetsEvent ι))
    (h : Along (rtLogStep addr) (PromptFor addr R) (.init ι sinPort) es) :
    Along (rtLogStep addr) (fun t e => ∀ r ∈ R, (t.queue r).Leads ((rtLogStep addr t e).queue r))
        (.init ι sinPort) es ∧
      let t := es.foldl (rtLogStep addr) (.init ι sinPort)
      (∀ r ∈ R, ((t.delivered r).map (·.payload)).Sublist t.apps) ∧
        ∀ r ∈ R, ∀ r' ∈ R, ∀ p ∈ t.delivered r, ∀ q ∈ t.delivered r', p.seq = q.seq →
          p.payload = q.payload := by
  have hinit : StreamedTo R (.init ι sinPort) :=
    ⟨trusted_init sinPort, fun r _ => streamed_init sinPort r⟩
  have hqueue : Along (rtLogStep addr)
      (fun t e => ∀ r ∈ R, (t.queue r).Leads ((rtLogStep addr t e).queue r)) (.init ι sinPort) es :=
    h.strengthen hinit (fun _ _ ht he => ht.step he) fun _ _ ht he r hr =>
      (ht.2 r hr).queue_step ht.1 (he.2 r hr)
  refine ⟨hqueue, ?_, ?_⟩
  · intro r hr
    refine LossyQueue.Leads.given_sublist (s := LoggedRtNets.queue _ r) ?_
    exact hqueue.inv (I := fun t => LossyQueue.empty.Leads (t.queue r)) (.refl _)
      fun _ _ ht hs => ht.trans (hs r hr)
  · intro r hr r' hr' p hp q hq hseq
    have hend := h.inv hinit fun _ _ ht he => ht.step he
    have hp' := ((hend.2 r hr).delivered p hp).2
    have hq' := ((hend.2 r' hr').delivered q hq).2
    rw [hseq, hq'] at hp'
    exact (Option.some.inj hp').symm

/-- The second receiver was never accepted, and is sent the first datagram twice: it takes
the time difference from the first copy and delivers the second. -/
theorem receivers_agree_two :
    let addr : Bool → SockaddrIn := fun r => if r then ⟨2, 6⟩ else ⟨1, 5⟩
    let es : List (RtNetsEvent Bool) := [.rcvTimeout false fun _ => 0,
      .srvPass (some 0) none 0 zeroPkt, .deliverRcv false 0 fun _ => 0,
      .srvPass none (some [7]) 0 zeroPkt, .srvPass (some 0) none 1 zeroPkt,
      .deliverRcv false 0 fun _ => 2, .rcvTimeout true fun _ => 0,
      .srvPass (some 80) none 3 zeroPkt, .deliverRcv true 0 fun _ => 4, .rcvTimeout true fun _ => 4,
      .srvPass (some 158) none 5 zeroPkt, .deliverRcv true 0 fun _ => 6,
      .rcvTimeout false fun _ => 10 ^ 12, .rcvTimeout true fun _ => 10 ^ 12]
    let t := es.foldl (rtLogStep addr) (.init Bool 0)
    t.nets.srv.currClientAddr = ⟨1, 5⟩ ∧ (t.delivered true).map (·.payload) = [[7]] ∧
      ∀ p ∈ t.delivered true, ∀ q ∈ t.delivered false, p.seq = q.seq → p.payload = q.payload := by
  intro addr es
  have hprompt : Along (rtLogStep addr) (fun t e => ∀ r, Prompt addr r t e) (.init Bool 0) es := by
    decide +kernel
  have hfit : ∀ e ∈ es, e.Fits := by
    simp [es, RtNetsEvent.Fits, Fits]
  have h : Along (rtLogStep addr) (PromptFor addr Set.univ) (.init Bool 0) es :=
    ((along_of_forall hfit).and hprompt).mono fun _ _ h => ⟨h.1, fun r _ => h.2 r⟩
  obtain ⟨-, -, hagree⟩ := receivers_agree addr 0 Set.univ es h
  exact ⟨by decide +kernel, by decide +kernel, hagree true trivial false trivial⟩

end Wan.Proj2
