import Wan.SendtoDbg
import Wan.Proj1.Net

/-!
# The programs with their own losses

`ncp` and `rcv` call `sendto_dbg` for everything they send. Here the drops are those of
the two programs, call by call, and the network may lose more. Whatever the rates and
the random numbers are, such a run is a run of the network that loses as it likes, so
what is proved about `netStep` holds of the programs as they are.
-/

namespace Wan.Proj1

open Posix Lib

structure DbgNet where
  net : Net
  ncpCalls : ℕ
  rcvCalls : ℕ

def DbgNet.init (env : NcpEnv) (buf : NetPkt) : DbgNet := ⟨.init env buf, 0, 0⟩

def sendsOf (out : List RcvEffect) : List (SockaddrIn × AckPkt) :=
  out.filterMap fun
    | .sendto dst p => some (dst, p)
    | _ => none

def sentTo (a : SockaddrIn) (sends : List (SockaddrIn × AckPkt)) : List AckPkt :=
  sends.filterMap fun q => if q.1 = a then some q.2 else none

def DbgNet.ncpDo (d : SendtoDbg) (env : NcpEnv) (s : DbgNet) (e : NcpEvent) : DbgNet :=
  { s with
    net := { s.net with
      ncp := (ncpStep env s.net.ncp e).1
      toRcv := s.net.toRcv ++ d.sendAll s.ncpCalls (ncpStep env s.net.ncp e).2 }
    ncpCalls := s.ncpCalls + (ncpStep env s.net.ncp e).2.length }

def DbgNet.rcvDo (d : SendtoDbg) (env : NcpEnv) (s : DbgNet) (e : RcvEvent) : DbgNet :=
  { s with
    net := { s.net with
      rcv := (rcvStep s.net.rcv e).1
      toNcp := s.net.toNcp ++
        sentTo env.addr (d.sendAll s.rcvCalls (sendsOf (rcvStep s.net.rcv e).2))
      log := s.net.log ++ (rcvStep s.net.rcv e).2 }
    rcvCalls := s.rcvCalls + (sendsOf (rcvStep s.net.rcv e).2).length }

def dbgStep (nd rd : SendtoDbg) (env : NcpEnv) (s : DbgNet) : NetEvent → DbgNet
  | .ncpTimeout => s.ncpDo nd env .timeout
  | .rcvTimeout junk => s.rcvDo rd env (.timeout junk)
  | .deliverRcv i junk =>
    match s.net.toRcv[i]? with
    | none => s
    | some p => { s with net := { s.net with toRcv := Channel.lose s.net.toRcv i } }.rcvDo rd env
        (.datagram env.addr p junk)
  | .deliverNcp i =>
    match s.net.toNcp[i]? with
    | none => s
    | some q => { s with net := { s.net with toNcp := Channel.lose s.net.toNcp i } }.ncpDo nd env
        (.ack q)
  | e => { s with net := netStep env s.net e }

def NetEvent.IsLoss : NetEvent → Prop
  | .loseRcv _ => True
  | .loseNcp _ => True
  | _ => False

variable {env : NcpEnv} {nd rd : SendtoDbg} {s : DbgNet}

theorem sentTo_sendsOf (a : SockaddrIn) (out : List RcvEffect) :
    sentTo a (sendsOf out) = acksTo a out := by
  rw [sentTo, sendsOf, List.filterMap_filterMap, acksTo]
  congr 1
  funext e
  cases e <;> rfl

-- ---------------------------------------------------------------------------
-- A run of the network
-- ---------------------------------------------------------------------------

def LosesTo (env : NcpEnv) (s t : Net) : Prop :=
  ∃ es : List NetEvent, (∀ e ∈ es, e.IsLoss) ∧ es.foldl (netStep env) s = t

theorem DbgNet.ncpDo_run (d : SendtoDbg) (s : DbgNet) (e : NcpEvent) :
    LosesTo env (s.net.ncpDo env e) (s.ncpDo d env e).net := by
  obtain ⟨es, hes, hend⟩ := Channel.exists_losses (netStep env) .loseRcv
    (fun ch => { s.net.ncpDo env e with toRcv := ch }) (fun ch i => rfl) s.net.toRcv
    (d.sendAll_sublist s.ncpCalls (ncpStep env s.net.ncp e).2)
  refine ⟨es, fun x hx => ?_, hend⟩
  obtain ⟨i, rfl⟩ := hes x hx
  trivial

theorem DbgNet.rcvDo_run (d : SendtoDbg) (s : DbgNet) (e : RcvEvent) :
    LosesTo env (s.net.rcvDo env e) (s.rcvDo d env e).net := by
  have hsub : (sentTo env.addr (d.sendAll s.rcvCalls (sendsOf (rcvStep s.net.rcv e).2))).Sublist
      (acksTo env.addr (rcvStep s.net.rcv e).2) := by
    rw [← sentTo_sendsOf]
    exact (d.sendAll_sublist _ _).filterMap _
  obtain ⟨es, hes, hend⟩ := Channel.exists_losses (netStep env) .loseNcp
    (fun ch => { s.net.rcvDo env e with toNcp := ch }) (fun ch i => rfl) s.net.toNcp hsub
  refine ⟨es, fun x hx => ?_, hend⟩
  obtain ⟨i, rfl⟩ := hes x hx
  trivial

theorem dbgStep_run (nd rd : SendtoDbg) (s : DbgNet) (e : NetEvent) :
    LosesTo env (netStep env s.net e) (dbgStep nd rd env s e).net := by
  have hnone (t : Net) : LosesTo env t t := ⟨[], by simp, rfl⟩
  cases e with
  | ncpTimeout => exact s.ncpDo_run nd .timeout
  | rcvTimeout junk => exact s.rcvDo_run rd (.timeout junk)
  | deliverRcv i junk =>
    cases hp : s.net.toRcv[i]? with
    | none =>
      simp only [netStep, dbgStep, hp]
      exact hnone _
    | some p =>
      simp only [netStep, dbgStep, hp]
      exact DbgNet.rcvDo_run rd { s with net := { s.net with
        toRcv := Channel.lose s.net.toRcv i } } (.datagram env.addr p junk)
  | deliverNcp i =>
    cases hq : s.net.toNcp[i]? with
    | none =>
      simp only [netStep, dbgStep, hq]
      exact hnone _
    | some q =>
      simp only [netStep, dbgStep, hq]
      exact DbgNet.ncpDo_run nd { s with net := { s.net with
        toNcp := Channel.lose s.net.toNcp i } } (.ack q)
  | _ => exact hnone _

/-- What holds of every event of the programs and of losses holds of a run of the network
to the same state. -/
theorem dbg_run {Q : Net → NetEvent → Prop} (hloss : ∀ s e, e.IsLoss → Q s e) {es : List NetEvent}
    (hrun : Along (dbgStep nd rd env) (fun s e => Q s.net e) s es) :
    ∃ es', Along (netStep env) Q s.net es' ∧
      es'.foldl (netStep env) s.net = (es.foldl (dbgStep nd rd env) s).net :=
  hrun.simulated (f := DbgNet.net) fun u e he => by
    obtain ⟨lost, hlost, hstep⟩ := dbgStep_run nd rd u e
    exact ⟨e :: lost, ⟨he, (along_of_forall hlost).mono fun s x hx => hloss s x hx⟩, hstep⟩

-- ---------------------------------------------------------------------------
-- No loss and total loss
-- ---------------------------------------------------------------------------

theorem DbgNet.ncpDo_all (hd : nd.cutoff ≤ 0) (s : DbgNet) (e : NcpEvent) :
    (s.ncpDo nd env e).net = s.net.ncpDo env e := by
  simp only [ncpDo, Net.ncpDo, nd.sendAll_all hd]

theorem DbgNet.rcvDo_all (hd : rd.cutoff ≤ 0) (s : DbgNet) (e : RcvEvent) :
    (s.rcvDo rd env e).net = s.net.rcvDo env e := by
  simp only [rcvDo, Net.rcvDo, rd.sendAll_all hd, sentTo_sendsOf]

theorem dbgStep_all (hn : nd.cutoff ≤ 0) (hr : rd.cutoff ≤ 0) (s : DbgNet) (e : NetEvent) :
    (dbgStep nd rd env s e).net = netStep env s.net e := by
  cases e with
  | ncpTimeout => exact DbgNet.ncpDo_all hn s _
  | rcvTimeout junk => exact DbgNet.rcvDo_all hr s _
  | deliverRcv i junk =>
    cases hp : s.net.toRcv[i]? with
    | none => simp only [dbgStep, netStep, hp]
    | some p => simp only [dbgStep, netStep, hp, DbgNet.rcvDo_all hr]
  | deliverNcp i =>
    cases hq : s.net.toNcp[i]? with
    | none => simp only [dbgStep, netStep, hq]
    | some q => simp only [dbgStep, netStep, hq, DbgNet.ncpDo_all hn]
  | _ => rfl

structure Silent (buf : NetPkt) (s : Net) : Prop where
  toRcv : s.toRcv = []
  toNcp : s.toNcp = []
  rcv : s.rcv = .init buf
  log : s.log = []

theorem Silent.step {buf : NetPkt} (hn : 255 ≤ nd.cutoff) (h : Silent buf s.net) (e : NetEvent) :
    Silent buf (dbgStep nd rd env s e).net := by
  obtain ⟨hto, hback, hrcv, hlog⟩ := h
  cases e with
  | ncpTimeout =>
    refine ⟨?_, hback, hrcv, hlog⟩
    show s.net.toRcv ++ nd.sendAll _ _ = []
    rw [hto, nd.sendAll_none hn, List.append_nil]
  | rcvTimeout junk =>
    have hidle : rcvStep s.net.rcv (.timeout junk) = (.init buf, []) := by rw [hrcv]; rfl
    refine ⟨hto, ?_, ?_, ?_⟩
    · show s.net.toNcp ++
        sentTo _ (rd.sendAll _ (sendsOf (rcvStep s.net.rcv (.timeout junk)).2)) = []
      rw [hback, hidle]
      rfl
    · show (rcvStep s.net.rcv (.timeout junk)).1 = _
      rw [hidle]
    · show s.net.log ++ (rcvStep s.net.rcv (.timeout junk)).2 = []
      rw [hlog, hidle]
      rfl
  | deliverRcv i junk =>
    simp only [dbgStep, hto, List.getElem?_nil]
    exact ⟨hto, hback, hrcv, hlog⟩
  | deliverNcp i =>
    simp only [dbgStep, hback, List.getElem?_nil]
    exact ⟨hto, hback, hrcv, hlog⟩
  | loseRcv i => exact ⟨by simp [dbgStep, netStep, hto, Channel.lose], hback, hrcv, hlog⟩
  | loseNcp i => exact ⟨hto, by simp [dbgStep, netStep, hback, Channel.lose], hrcv, hlog⟩
  | duplicateRcv i => exact ⟨by simp [dbgStep, netStep, hto, Channel.duplicate], hback, hrcv, hlog⟩
  | duplicateNcp i => exact ⟨hto, by simp [dbgStep, netStep, hback, Channel.duplicate], hrcv, hlog⟩

/-- Whatever the loss rates and the random numbers of the two programs: a run of the
programs ends in a state that the network reaches with the same events and losses, and
without a switch if the run has none. With no loss it is the run of the network itself,
and a sender that drops everything never reaches the receiver. -/
theorem sendto_dbg_simulated (nd rd : SendtoDbg) (env : NcpEnv) (buf : NetPkt)
    (es : List NetEvent) :
    let s := es.foldl (dbgStep nd rd env) (.init env buf)
    (∃ es' : List NetEvent, (∀ e ∈ es', e ∈ es ∨ e.IsLoss) ∧
        es'.foldl (netStep env) (.init env buf) = s.net) ∧
      (Along (dbgStep nd rd env) (fun s e => BeforeSwitch s.net e) (.init env buf) es →
        ∃ es', Along (netStep env) BeforeSwitch (.init env buf) es' ∧
          es'.foldl (netStep env) (.init env buf) = s.net) ∧
      (nd.cutoff ≤ 0 → rd.cutoff ≤ 0 → s.net = es.foldl (netStep env) (.init env buf)) ∧
      (255 ≤ nd.cutoff → s.net.toRcv = [] ∧ s.net.rcv = .init buf ∧ s.net.log = []) := by
  intro s
  refine ⟨?_, fun hrun => ?_, fun hn hr => ?_, fun hn => ?_⟩
  · have hrun : Along (dbgStep nd rd env) (fun _ e => e ∈ es ∨ e.IsLoss) (.init env buf) es :=
      along_of_forall fun e he => .inl he
    obtain ⟨es', hes', hend⟩ :=
      dbg_run (Q := fun _ e => e ∈ es ∨ e.IsLoss) (fun _ _ he => .inr he) hrun
    exact ⟨es', forall_of_along hes', hend⟩
  · refine dbg_run (fun u e he => ?_) hrun
    cases e <;> trivial
  · exact (List.foldl_hom DbgNet.net fun u e => (dbgStep_all hn hr u e).symm).symm
  · have hrun : Along (dbgStep nd rd env) (fun _ _ => True) (.init env buf) es := along_trivial
    have h := hrun.inv (I := fun u => Silent buf u.net) ⟨rfl, rfl, rfl, rfl⟩
      fun u e hu _ => hu.step hn e
    exact ⟨h.toRcv, h.rcv, h.log⟩

/-- The first random number drops the first packet at 20 percent, the second one is sent. -/
example :
    let env : NcpEnv :=
      ⟨true, [7], ⟨[97], by decide⟩, 1, ⟨1, 5⟩, fun _ => fullPkt [] 0 0 false, false⟩
    let d : SendtoDbg := ⟨Wan.sendtoDbgInit 20, fun call => if call = 0 then 51 else 52⟩
    let es : List NetEvent := [.ncpTimeout, .ncpTimeout, .ncpTimeout, .deliverRcv 0 ⟨0, 0, true⟩]
    let s := es.foldl (dbgStep d d env) (.init env (fullPkt [] 0 0 false))
    s.ncpCalls = 2 ∧ s.net.rcv.cumSeq = 1 := by
  decide +kernel

end Wan.Proj1
