import Wan.SendtoDbg
import Wan.Proj2.Ordered

/-!
# The programs with their own losses

`rt_srv` sends everything to its client through `sendto_dbg`, and `rt_rcv` its requests
and acknowledgments; what `rt_rcv` hands to the application goes through `sendto`. As
for the transfer of files, a run with these drops is a run of the network that loses as
it likes.
-/

namespace Wan.Proj2

open Posix Lib

structure DbgRtNet where
  net : RtNet
  srvCalls : ℕ
  rcvCalls : ℕ

def DbgRtNet.init (sinPort : UInt16) : DbgRtNet := ⟨.init sinPort, 0, 0⟩

def DbgRtNet.srvDo (d : SendtoDbg) (s : DbgRtNet) (e : RtSrvEvent) : DbgRtNet :=
  { s with
    net := { s.net with
      srv := (rtSrvStep s.net.srv e).1
      toRcv := s.net.toRcv ++ d.sendAll s.srvCalls (rtSrvStep s.net.srv e).2
      apps := s.net.apps ++ accepted s.net.srv e }
    srvCalls := s.srvCalls + (rtSrvStep s.net.srv e).2.length }

def DbgRtNet.rcvDo (d : SendtoDbg) (s : DbgRtNet) (e : RtRcvEvent) : DbgRtNet :=
  { s with
    net := { s.net with
      rcv := (rtRcvStep s.net.rcv e).1
      toSrv := s.net.toSrv ++ d.sendAll s.rcvCalls (acksOf (rtRcvStep s.net.rcv e).2)
      delivered := s.net.delivered ++ deliveriesOf (rtRcvStep s.net.rcv e).2 }
    rcvCalls := s.rcvCalls + (acksOf (rtRcvStep s.net.rcv e).2).length }

def dbgRtStep (sd rd : SendtoDbg) (a : SockaddrIn) (s : DbgRtNet) : RtNetEvent → DbgRtNet
  | .srvPass i app now fresh =>
    match i with
    | none => s.srvDo sd ⟨.idle, app, now, fresh⟩
    | some i =>
      match s.net.toSrv[i]? with
      | none => s.srvDo sd ⟨.idle, app, now, fresh⟩
      | some p => { s with net := { s.net with toSrv := Channel.lose s.net.toSrv i } }.srvDo sd
          ⟨.msg a p, app, now, fresh⟩
  | .deliverRcv i clock =>
    match s.net.toRcv[i]? with
    | none => s
    | some o => { s with net := { s.net with toRcv := Channel.lose s.net.toRcv i } }.rcvDo rd
        (.recv o.pkt clock)
  | .rcvTimeout clock => s.rcvDo rd (.timeout clock)
  | e => { s with net := rtNetStep a s.net e }

def RtNetEvent.IsLoss : RtNetEvent → Prop
  | .loseRcv _ => True
  | .loseSrv _ => True
  | _ => False

variable {a : SockaddrIn} {sd rd : SendtoDbg} {s : DbgRtNet}

-- ---------------------------------------------------------------------------
-- A run of the network
-- ---------------------------------------------------------------------------

def LosesTo (a : SockaddrIn) (s t : RtNet) : Prop :=
  ∃ es : List RtNetEvent, (∀ e ∈ es, e.IsLoss) ∧ es.foldl (rtNetStep a) s = t

theorem DbgRtNet.srvDo_run (d : SendtoDbg) (s : DbgRtNet) (e : RtSrvEvent) :
    LosesTo a (s.net.srvDo e) (s.srvDo d e).net := by
  obtain ⟨es, hes, hend⟩ := Channel.exists_losses (rtNetStep a) .loseRcv
    (fun ch => { s.net.srvDo e with toRcv := ch }) (fun ch i => rfl) s.net.toRcv
    (d.sendAll_sublist s.srvCalls (rtSrvStep s.net.srv e).2)
  refine ⟨es, fun x hx => ?_, hend⟩
  obtain ⟨i, rfl⟩ := hes x hx
  trivial

theorem DbgRtNet.rcvDo_run (d : SendtoDbg) (s : DbgRtNet) (e : RtRcvEvent) :
    LosesTo a (s.net.rcvDo e) (s.rcvDo d e).net := by
  obtain ⟨es, hes, hend⟩ := Channel.exists_losses (rtNetStep a) .loseSrv
    (fun ch => { s.net.rcvDo e with toSrv := ch }) (fun ch i => rfl) s.net.toSrv
    (d.sendAll_sublist s.rcvCalls (acksOf (rtRcvStep s.net.rcv e).2))
  refine ⟨es, fun x hx => ?_, hend⟩
  obtain ⟨i, rfl⟩ := hes x hx
  trivial

theorem dbgRtStep_run (s : DbgRtNet) (e : RtNetEvent) :
    LosesTo a (rtNetStep a s.net e) (dbgRtStep sd rd a s e).net := by
  have hnone (t : RtNet) : LosesTo a t t := ⟨[], by simp, rfl⟩
  cases e with
  | srvPass i app now fresh =>
    cases i with
    | none => exact s.srvDo_run sd _
    | some i =>
      cases hp : s.net.toSrv[i]? with
      | none =>
        simp only [rtNetStep, dbgRtStep, hp]
        exact s.srvDo_run sd _
      | some p =>
        simp only [rtNetStep, dbgRtStep, hp]
        exact DbgRtNet.srvDo_run sd { s with net := { s.net with
          toSrv := Channel.lose s.net.toSrv i } } _
  | deliverRcv i clock =>
    cases ho : s.net.toRcv[i]? with
    | none =>
      simp only [rtNetStep, dbgRtStep, ho]
      exact hnone _
    | some o =>
      simp only [rtNetStep, dbgRtStep, ho]
      exact DbgRtNet.rcvDo_run rd { s with net := { s.net with
        toRcv := Channel.lose s.net.toRcv i } } _
  | rcvTimeout clock => exact s.rcvDo_run rd _
  | _ => exact hnone _

-- ---------------------------------------------------------------------------
-- No loss and total loss
-- ---------------------------------------------------------------------------

theorem DbgRtNet.srvDo_all (hd : sd.cutoff ≤ 0) (s : DbgRtNet) (e : RtSrvEvent) :
    (s.srvDo sd e).net = s.net.srvDo e := by
  simp only [srvDo, RtNet.srvDo, sd.sendAll_all hd]

theorem DbgRtNet.rcvDo_all (hd : rd.cutoff ≤ 0) (s : DbgRtNet) (e : RtRcvEvent) :
    (s.rcvDo rd e).net = s.net.rcvDo e := by
  simp only [rcvDo, RtNet.rcvDo, rd.sendAll_all hd]

theorem dbgRtStep_all (hs : sd.cutoff ≤ 0) (hr : rd.cutoff ≤ 0) (s : DbgRtNet) (e : RtNetEvent) :
    (dbgRtStep sd rd a s e).net = rtNetStep a s.net e := by
  cases e with
  | srvPass i app now fresh =>
    cases i with
    | none => exact DbgRtNet.srvDo_all hs s _
    | some i =>
      cases hp : s.net.toSrv[i]? with
      | none => simp only [dbgRtStep, rtNetStep, hp, DbgRtNet.srvDo_all hs]
      | some p => simp only [dbgRtStep, rtNetStep, hp, DbgRtNet.srvDo_all hs]
  | deliverRcv i clock =>
    cases ho : s.net.toRcv[i]? with
    | none => simp only [dbgRtStep, rtNetStep, ho]
    | some o => simp only [dbgRtStep, rtNetStep, ho, DbgRtNet.rcvDo_all hr]
  | rcvTimeout clock => exact DbgRtNet.rcvDo_all hr s _
  | _ => rfl

structure Unanswered (rd : SendtoDbg) (s : RtNet) : Prop where
  toRcv : s.toRcv = []
  rcv : s.rcv = .init
  delivered : s.delivered = []
  toSrv : 255 ≤ rd.cutoff → s.toSrv = []

theorem rtRcvTimeout_init (clock : ℕ → ℤ) :
    (rtRcvStep .init (.timeout clock)).1 = .init ∧
      deliveriesOf (rtRcvStep .init (.timeout clock)).2 = [] := by
  constructor
  · rfl
  · show deliveriesOf (sendNacks .init ++ (deliver .init clock).2) = []
    have hdue : (popDue .init (topDeliverSeq .init clock)).1 = [] := (popDue_eq _ _).1
    rw [deliveriesOf_append, deliveriesOf_eq_nil (deliver_notMem_sendNacks _),
      deliveriesOf_deliver, hdue]
    rfl

theorem Unanswered.srvDo (h : Unanswered rd s.net) (hd : 255 ≤ sd.cutoff ∨ 255 ≤ rd.cutoff)
    {e : RtSrvEvent} (he : 255 ≤ rd.cutoff → e.client = .idle) :
    Unanswered rd (s.srvDo sd e).net where
  toRcv := by
    show s.net.toRcv ++ sd.sendAll _ _ = []
    rw [h.toRcv, List.nil_append]
    rcases hd with hd | hd
    · exact sd.sendAll_none hd _ _
    · have hout : (rtSrvStep s.net.srv e).2 = [] := by
        refine rtSrvStep_cases (motive := fun r => r.2 = []) ?_ ?_ ?_ ?_
        · exact fun _ => rfl
        · exact fun _ => rfl
        · exact fun _ => rfl
        · exact fun src p _ hc => by rw [he hd] at hc; cases hc
      rw [hout]
      rfl
  rcv := h.rcv
  delivered := h.delivered
  toSrv := h.toSrv

theorem Unanswered.step (h : Unanswered rd s.net) (hd : 255 ≤ sd.cutoff ∨ 255 ≤ rd.cutoff)
    (e : RtNetEvent) : Unanswered rd (dbgRtStep sd rd a s e).net := by
  cases e with
  | srvPass i app now fresh =>
    cases i with
    | none => exact h.srvDo hd fun _ => rfl
    | some i =>
      cases hp : s.net.toSrv[i]? with
      | none =>
        simp only [dbgRtStep, hp]
        exact h.srvDo hd fun _ => rfl
      | some p =>
        simp only [dbgRtStep, hp]
        have h' : Unanswered rd { s.net with toSrv := Channel.lose s.net.toSrv i } :=
          ⟨h.toRcv, h.rcv, h.delivered, fun hr => by simp [h.toSrv hr, Channel.lose]⟩
        refine Unanswered.srvDo (s := { s with net := { s.net with
          toSrv := Channel.lose s.net.toSrv i } }) h' hd fun hr => ?_
        rw [h.toSrv hr] at hp
        cases hp
  | deliverRcv i clock =>
    simp only [dbgRtStep, h.toRcv, List.getElem?_nil]
    exact h
  | rcvTimeout clock =>
    obtain ⟨hrcv, hnone⟩ := rtRcvTimeout_init clock
    refine ⟨h.toRcv, ?_, ?_, fun hr => ?_⟩
    · show (rtRcvStep s.net.rcv _).1 = _
      rw [h.rcv, hrcv]
    · show s.net.delivered ++ deliveriesOf (rtRcvStep s.net.rcv _).2 = []
      rw [h.delivered, h.rcv, hnone]
      rfl
    · show s.net.toSrv ++ rd.sendAll _ _ = []
      rw [h.toSrv hr, rd.sendAll_none hr, List.append_nil]
  | loseRcv i =>
    exact ⟨by simp [dbgRtStep, rtNetStep, h.toRcv, Channel.lose], h.rcv, h.delivered, h.toSrv⟩
  | loseSrv i =>
    exact ⟨h.toRcv, h.rcv, h.delivered,
      fun hr => by simp [dbgRtStep, rtNetStep, h.toSrv hr, Channel.lose]⟩
  | duplicateRcv i =>
    exact ⟨by simp [dbgRtStep, rtNetStep, h.toRcv, Channel.duplicate], h.rcv, h.delivered, h.toSrv⟩
  | duplicateSrv i =>
    exact ⟨h.toRcv, h.rcv, h.delivered,
      fun hr => by simp [dbgRtStep, rtNetStep, h.toSrv hr, Channel.duplicate]⟩

/-- Whatever the loss rates and the random numbers of the two programs: a run of the
programs ends in a state that the network reaches with the same events and losses. With
no loss it is the run of the network itself, and when either program drops everything
the application is never handed anything. -/
theorem rt_dbg_simulated (sd rd : SendtoDbg) (a : SockaddrIn) (sinPort : UInt16)
    (es : List RtNetEvent) :
    let s := es.foldl (dbgRtStep sd rd a) (.init sinPort)
    (∃ es' : List RtNetEvent, (∀ e ∈ es', e ∈ es ∨ e.IsLoss) ∧
        es'.foldl (rtNetStep a) (.init sinPort) = s.net) ∧
      (sd.cutoff ≤ 0 → rd.cutoff ≤ 0 → s.net = es.foldl (rtNetStep a) (.init sinPort)) ∧
      (255 ≤ sd.cutoff ∨ 255 ≤ rd.cutoff → s.net.rcv = .init ∧ s.net.delivered = []) := by
  intro s
  refine ⟨?_, fun hs hr => ?_, fun hd => ?_⟩
  · have hrun : Along (dbgRtStep sd rd a) (fun _ e => e ∈ es) (.init sinPort) es :=
      along_of_forall fun e he => he
    obtain ⟨es', hes', hend⟩ : ∃ es', Along (rtNetStep a) (fun _ e => e ∈ es ∨ e.IsLoss)
        (.init sinPort) es' ∧ es'.foldl (rtNetStep a) (.init sinPort) = s.net :=
      hrun.simulated (f := DbgRtNet.net) fun u e he => by
        obtain ⟨lost, hlost, hstep⟩ := dbgRtStep_run u e
        exact ⟨e :: lost, ⟨.inl he, along_of_forall fun x hx => .inr (hlost x hx)⟩, hstep⟩
    exact ⟨es', forall_of_along hes', hend⟩
  · exact (List.foldl_hom DbgRtNet.net fun u e => (dbgRtStep_all hs hr u e).symm).symm
  · have hrun : Along (dbgRtStep sd rd a) (fun _ _ => True) (.init sinPort) es := along_trivial
    have h := hrun.inv (I := fun u => Unanswered rd u.net) ⟨rfl, rfl, rfl, fun _ => rfl⟩
      fun u e hu _ => hu.step hd e
    exact ⟨h.rcv, h.delivered⟩

end Wan.Proj2
