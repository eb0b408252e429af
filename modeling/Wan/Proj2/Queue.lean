import Wan.Lib.LossyQueue
import Wan.Proj2.Genuine
import Wan.Proj2.Ordered

/-!
# What the two programs are for

Between one application and the other, `rt_srv`, the network and `rt_rcv` are a queue
that may leave datagrams out: as long as nothing reaches the receiver too late, every
step of theirs is some steps of such a queue.
-/

namespace Wan.Proj2

open Posix Lib

variable {a : SockaddrIn} {sinPort : UInt16} {s : RtNet} {e : RtNetEvent} {es : List RtNetEvent}

def queueOf (apps : List Bytes) (done : List NetPkt) : LossyQueue Bytes where
  taken := apps
  pos := (done.getLast?.map (·.seq)).getD 0
  given := done.map (·.payload)

def RtNet.queue (s : RtNet) : LossyQueue Bytes := queueOf s.apps s.delivered

theorem queueOf_leads {apps bytes : List Bytes} {done ds : List NetPkt}
    (hsorted : (done ++ ds).Pairwise (·.seq < ·.seq))
    (hnum : ∀ q ∈ ds, Numbered (apps ++ bytes) q) :
    (queueOf apps done).Leads (queueOf (apps ++ bytes) (done ++ ds)) := by
  obtain ⟨-, hds, hlt⟩ := List.pairwise_append.mp hsorted
  refine (LossyQueue.leads_takes _ bytes).trans ?_
  have hgives := LossyQueue.leads_gives (s := queueOf (apps ++ bytes) done)
    (fun q : NetPkt => q.seq - 1) NetPkt.payload
    (hds.imp_of_mem fun {p q} hp hq hlt => by
      have := (hnum p hp).1
      show p.seq - 1 < q.seq - 1
      omega)
    (fun q hq => by
      cases hlast : done.getLast? with
      | none => simp [queueOf, hlast]
      | some p =>
        have := hlt p (List.mem_of_getLast? hlast) q hq
        simp only [queueOf, hlast, Option.map_some, Option.getD_some]
        omega)
    (fun q hq => (hnum q hq).2)
  cases hlast : ds.getLast? with
  | none =>
    obtain rfl := List.getLast?_eq_none_iff.mp hlast
    simpa [queueOf] using hgives
  | some q =>
    have hpos := (hnum q (List.mem_of_getLast? hlast)).1
    simpa [queueOf, hlast, Nat.sub_add_cancel hpos] using hgives

structure InTime (s : RtNet) (e : RtNetEvent) : Prop where
  fits : AppFits e
  timely : Timely s e
  reply : ReplyInTime s e

structure Faithful (s : RtNet) : Prop where
  ordered : Ordered s.rcv s.delivered
  genuine : Genuine s

theorem faithful_init (sinPort : UInt16) : Faithful (.init sinPort) :=
  ⟨ordered_init, genuine_init sinPort⟩

theorem Faithful.step (h : Faithful s) (he : InTime s e) : Faithful (rtNetStep a s e) :=
  ⟨h.ordered.net he.timely, h.genuine.step he.fits he.reply⟩

theorem rtNetStep_adds (a : SockaddrIn) (s : RtNet) (e : RtNetEvent) : ∃ bytes qs,
    (rtNetStep a s e).apps = s.apps ++ bytes ∧ (rtNetStep a s e).delivered = s.delivered ++ qs := by
  refine rtNetStep_cases (motive := fun t => ∃ bytes qs, t.apps = s.apps ++ bytes ∧
    t.delivered = s.delivered ++ qs) ?_ ?_ ?_ ?_
  · exact fun _ _ _ _ _ _ _ _ => ⟨_, [], rfl, (List.append_nil _).symm⟩
  · exact fun _ _ _ _ _ _ _ => ⟨[], _, (List.append_nil _).symm, rfl⟩
  · exact fun _ _ => ⟨[], _, (List.append_nil _).symm, rfl⟩
  · exact fun _ _ _ _ => ⟨[], [], (List.append_nil _).symm, (List.append_nil _).symm⟩

theorem Faithful.queue_step (h : Faithful s) (he : InTime s e) :
    s.queue.Leads (rtNetStep a s e).queue := by
  obtain ⟨bytes, ds, happs, hdelivered⟩ := rtNetStep_adds a s e
  have h' : Faithful (rtNetStep a s e) := h.step he
  have hsorted := h'.ordered.sorted
  have hnum := h'.genuine.delivered
  rw [RtNet.queue, RtNet.queue, happs, hdelivered]
  rw [hdelivered] at hsorted hnum
  rw [happs] at hnum
  exact queueOf_leads hsorted fun q hq => hnum q (List.mem_append_right _ hq)

theorem queue_run (h : Along (rtNetStep a) InTime (.init sinPort) es) :
    Along (rtNetStep a) (fun s e => s.queue.Leads (rtNetStep a s e).queue) (.init sinPort) es :=
  h.strengthen (faithful_init sinPort) (fun _ _ ht he => ht.step he) fun _ _ ht he =>
    ht.queue_step he

theorem payloads_sublist (h : Along (rtNetStep a) InTime (.init sinPort) es) :
    ((es.foldl (rtNetStep a) (.init sinPort)).delivered.map (·.payload)).Sublist
      (es.foldl (rtNetStep a) (.init sinPort)).apps :=
  LossyQueue.Leads.given_sublist <| (queue_run h).inv
    (I := fun s => LossyQueue.empty.Leads s.queue) (.refl _) fun _ _ ht hs => ht.trans hs

/-- In every run in which nothing comes too late, the two programs and the network start
as the empty queue, and whatever they do is some events of a queue that takes the datagrams
of the one application, and gives them out to the other or drops them, one after the other.
So nothing is delivered twice, changed, made up or overtaken. -/
theorem rt_refines_queue (a : SockaddrIn) (sinPort : UInt16) (es : List RtNetEvent)
    (h : Along (rtNetStep a) InTime (.init sinPort) es) :
    (RtNet.init sinPort).queue = .empty ∧
      Along (rtNetStep a) (fun s e => s.queue.Leads (rtNetStep a s e).queue) (.init sinPort) es ∧
      let s := es.foldl (rtNetStep a) (.init sinPort)
      (s.delivered.map (·.payload)).Sublist s.apps :=
  ⟨rfl, queue_run h, payloads_sublist h⟩

/-- Of two datagrams the first is lost on the way, and the second delivered. -/
theorem rt_refines_queue_second :
    let es : List RtNetEvent := [.rcvTimeout fun _ => 0, .srvPass (some 0) none 0 zeroPkt,
      .deliverRcv 0 fun _ => 0, .srvPass none (some [7]) 0 zeroPkt,
      .srvPass none (some [8]) 1 zeroPkt, .srvPass (some 0) none 2 zeroPkt, .loseRcv 0,
      .srvPass (some 0) none 3 zeroPkt, .deliverRcv 0 fun _ => 4, .rcvTimeout fun _ => 10 ^ 12]
    let s := es.foldl (rtNetStep ⟨1, 5⟩) (.init 0)
    (s.queue.taken = [[7], [8]] ∧ s.queue.given = [[8]] ∧ s.queue.pos = 2) ∧
      Along (rtNetStep ⟨1, 5⟩) (fun s e => s.queue.Leads (rtNetStep ⟨1, 5⟩ s e).queue) (.init 0)
        es := by
  intro es
  have hfit : ∀ e ∈ es, AppFits e := by
    simp [es, AppFits, Fits]
  have htimely : Along (rtNetStep ⟨1, 5⟩) Timely (.init 0) es := by decide +kernel
  have hreply : Along (rtNetStep ⟨1, 5⟩) ReplyInTime (.init 0) es := by decide +kernel
  have h : Along (rtNetStep ⟨1, 5⟩) InTime (.init 0) es :=
    (((along_of_forall hfit).and htimely).and hreply).mono fun _ _ h => ⟨h.1.1, h.1.2, h.2⟩
  exact ⟨by decide +kernel, (rt_refines_queue ⟨1, 5⟩ 0 es h).2.1⟩

end Wan.Proj2
