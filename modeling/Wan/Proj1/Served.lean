import Wan.Proj1.Turns
import Wan.Proj1.Progress

/-!
# Nobody waits for ever

A sender at the head of the queue and the receiver run as if they were alone: `alone`
forgets the other senders, and a step of the two is a step of the whole system. So the
transfer at the head can be finished as in a run of two programs, once the messages
that told the sender to wait are lost and the receiver has called it. A timeout then
drops it, and the next one has its turn.
-/

namespace Wan.Proj1

open Posix Lib

variable {ι : Type*} {S : Senders ι} {t : LoggedNets ι} {ks : ι → ℕ} {i m : ι} {junk : AckPkt}

-- ---------------------------------------------------------------------------
-- One sender and the receiver
-- ---------------------------------------------------------------------------

variable {env : NcpEnv} {s : Net} {b n k : ℕ}

theorem Linked.wake (h : Linked env s b n k) (hr : s.ncp.status = .running)
    (hhead : s.rcv.senderQ.head? = some env.addr) (hd : s.rcv.done = false)
    (hnil : s.toNcp = []) (hjunk : junk.isNack = false) :
    ∃ b' n' k', Active env ([.rcvTimeout junk, .deliverNcp 0].foldl (netStep env) s) b' n' k' := by
  obtain ⟨u, hu⟩ : ∃ u, netStep env s (.rcvTimeout junk) = u := ⟨_, rfl⟩
  have hl : Linked env u b n k := hu ▸ h.rcvTimeout hd
  have hncp : u.ncp = s.ncp := by rw [← hu]; rfl
  -- the only message in flight is the call
  have hcall : u.toNcp = [{ junk with cumSeq := k }] := by
    have hcum : s.rcv.core.cumSeq = k := h.transfer.cumSeq
    have hout : (rcvStep s.rcv (.timeout junk)).2 = (coreTimeout s.rcv.core junk).2 :=
      out_core h.ok _
    have hdc : s.rcv.core.done = false := hd
    have hq : s.rcv.core.senderQ.head? = some env.addr := hhead
    rw [← hu]
    show s.toNcp ++ acksTo env.addr (rcvStep s.rcv (.timeout junk)).2 = _
    rw [hnil, hout, coreTimeout, if_neg (by simp [hdc])]
    simp [hq, hcum, acksTo]
  obtain ⟨q, hq⟩ : ∃ q : AckPkt, q = { junk with cumSeq := (k : ℤ) } := ⟨_, rfl⟩
  rw [← hq] at hcall
  have hack : q.isNack = false := by rw [hq]; exact hjunk
  have hqcum : q.cumSeq = k := by rw [hq]
  have hstep : netStep env u (.deliverNcp 0) =
      { u with toNcp := Channel.lose u.toNcp 0 }.ncpDo env (.ack q) := by
    simp only [netStep, hcall, List.getElem?_cons_zero]
  have hnext : (netStep env u (.deliverNcp 0)).ncp = (ncpRecv s.ncp q).1 := by
    rw [hstep]
    show (ncpStep env u.ncp (.ack q)).1 = _
    simp only [ncpStep, hncp, hr]
  obtain ⟨b', n', k', hl'⟩ := hl.step (e := .deliverNcp 0) trivial
  obtain ⟨-, -, hstatus⟩ := h.sending.recvAck hr hack
  have hdone := h.transfer.done
  rw [show s.rcv.core.done = false from hd] at hdone
  have hk : k ≠ lastChunk env.src := of_decide_eq_false hdone.symm
  have hlast := h.last
  refine ⟨b', n', k', ?_⟩
  rw [List.foldl_cons, List.foldl_cons, List.foldl_nil, hu]
  refine ⟨hl', ?_, ?_⟩
  · rw [hnext, hstatus, if_neg]
    rintro ⟨-, hle⟩
    omega
  · rw [hnext, ncpRecv_blocked, NcpState.blockedBy]
    have hnonneg : ¬ q.cumSeq < 0 := by omega
    cases s.ncp.blocked <;> simp [hnonneg]

theorem Active.finish (h : Active env s b n k) (junk : AckPkt) : ∃ later : List NetEvent,
    (∀ e ∈ later, e.Forward junk) ∧ (later.foldl (netStep env) s).rcv.done = true := by
  -- the variant: how many packets are still to be acknowledged
  refine exists_run (J := fun m s => ∃ b n k, Active env s b n k ∧ m = lastChunk env.src - b)
    (G := fun u => u.rcv.done = true) ?_ ⟨b, n, k, h, rfl⟩
  rintro m u ⟨b, n, k, h, rfl⟩
  obtain ⟨round, hfwd, b', n', k', hlt, hl', hend⟩ := h.round junk
  refine ⟨round, hfwd, ?_⟩
  rcases hend with hret | hact
  · left
    have hdone := hl'.transfer.done
    rw [hl'.returned hret, decide_eq_true rfl] at hdone
    exact hdone
  · have hb' := hact.sending.live hact.running
    exact .inr ⟨_, by omega, b', n', k', hact, rfl⟩

-- ---------------------------------------------------------------------------
-- A part of the system
-- ---------------------------------------------------------------------------

def Nets.alone (s : Nets ι) (i : ι) (log : List RcvEffect) : Net where
  ncp := (s.sender i).ncp
  rcv := s.rcv
  toRcv := (s.sender i).toRcv
  toNcp := (s.sender i).toNcp
  log := log

def NetEvent.of (i : ι) : NetEvent → NetsEvent ι
  | .ncpTimeout => .ncpTimeout i
  | .rcvTimeout junk => .rcvTimeout junk
  | .deliverRcv k junk => .deliverRcv i k junk
  | .deliverNcp k => .deliverNcp i k
  | .loseRcv k => .loseRcv i k
  | .loseNcp k => .loseNcp i k
  | .duplicateRcv k => .duplicateRcv i k
  | .duplicateNcp k => .duplicateNcp i k

theorem alone_step [DecidableEq ι] (s : Nets ι) (i : ι) (log : List RcvEffect) (e : NetEvent) :
    (netsStep S s (e.of i)).alone i (log ++ s.effects S (e.of i)) =
      netStep (S.env i) (s.alone i log) e := by
  cases e with
  | rcvTimeout junk => rfl
  | deliverRcv k junk =>
    cases hp : (s.sender i).toRcv[k]? with
    | none => simp [NetEvent.of, netsStep, netStep, Nets.effects, Nets.alone, hp]
    | some p =>
      simp [NetEvent.of, netsStep, netStep, Nets.effects, Nets.alone, hp, Nets.rcvDo, Net.rcvDo,
        Nets.update, Sender.hear]
  | deliverNcp k =>
    cases hq : (s.sender i).toNcp[k]? with
    | none => simp [NetEvent.of, netsStep, netStep, Nets.effects, Nets.alone, hq]
    | some q =>
      simp [NetEvent.of, netsStep, netStep, Nets.effects, Nets.alone, hq, Nets.update,
        Sender.handle, Sender.ncpDo, Net.ncpDo]
  | _ =>
    simp [NetEvent.of, netsStep, netStep, Nets.effects, Nets.alone, Nets.update, Sender.ncpDo,
      Net.ncpDo]

theorem alone_run [DecidableEq ι] (t : LoggedNets ι) (i : ι) (log : List RcvEffect)
    (es : List NetEvent) : ∃ log',
    (((es.map (NetEvent.of i)).foldl (logStep S) t).nets).alone i log' =
      es.foldl (netStep (S.env i)) (t.nets.alone i log) := by
  induction es generalizing t log with
  | nil => exact ⟨log, rfl⟩
  | cons e es ih =>
    obtain ⟨log', h⟩ := ih (logStep S t (e.of i)) (log ++ t.nets.effects S (e.of i))
    refine ⟨log', h.trans ?_⟩
    rw [List.foldl_cons, ← alone_step]
    rfl

theorem netsStep_of_ncp [DecidableEq ι] (s : Nets ι) (e : NetEvent) (hm : m ≠ i) :
    ((netsStep S s (e.of i)).sender m).ncp = (s.sender m).ncp := by
  cases e with
  | rcvTimeout junk => rfl
  | deliverRcv k junk =>
    cases hp : (s.sender i).toRcv[k]? with
    | none => simp [NetEvent.of, netsStep, hp]
    | some p => simp [NetEvent.of, netsStep, hp, Nets.rcvDo, Nets.update, Sender.hear, hm]
  | deliverNcp k =>
    cases hq : (s.sender i).toNcp[k]? with
    | none => simp [NetEvent.of, netsStep, hq]
    | some q => simp [NetEvent.of, netsStep, hq, Nets.update, hm]
  | _ => simp [NetEvent.of, netsStep, Nets.update, hm]

theorem foldl_of_ncp [DecidableEq ι] (t : LoggedNets ι) (es : List NetEvent) (hm : m ≠ i) :
    ((((es.map (NetEvent.of i)).foldl (logStep S) t).nets).sender m).ncp =
      (t.nets.sender m).ncp := by
  induction es generalizing t with
  | nil => rfl
  | cons e es ih => exact (ih _).trans (netsStep_of_ncp t.nets e hm)

theorem log_foldl [DecidableEq ι] (t : LoggedNets ι) (es : List (NetsEvent ι)) :
    t.log ⊆ (es.foldl (logStep S) t).log := by
  induction es generalizing t with
  | nil => exact List.Subset.refl _
  | cons e es ih => exact List.Subset.trans (List.subset_append_left _ _) (ih (logStep S t e))

-- ---------------------------------------------------------------------------
-- The transfer at the head
-- ---------------------------------------------------------------------------

theorem inTurn_of_head (hhead : t.nets.rcv.core.senderQ.head? = some (S.env i).addr)
    (e : NetEvent) : InTurn S t (e.of i) := by
  cases e with
  | deliverRcv k junk =>
    intro p _
    refine ⟨fun a ha hne => ?_, fun _ => List.mem_of_mem_head? hhead⟩
    exact absurd (Option.some.inj (ha.symm.trans hhead)) hne
  | _ => trivial

theorem senderQ_of_head [DecidableEq ι] (hok : t.nets.rcv.core.Ok)
    (hhead : t.nets.rcv.core.senderQ.head? = some (S.env i).addr) {log : List RcvEffect}
    {e : NetEvent} (he : BeforeSwitch (t.nets.alone i log) e) :
    (logStep S t (e.of i)).nets.rcv.core.senderQ = t.nets.rcv.core.senderQ := by
  have hstep (x : RcvEvent) : (rcvStep t.nets.rcv x).1.core = (coreStep t.nets.rcv.core x).1 :=
    next_core hok x
  cases e with
  | rcvTimeout junk =>
    have hd : t.nets.rcv.core.done = false := he
    show (rcvStep t.nets.rcv (.timeout junk)).1.core.senderQ = _
    rw [hstep, coreStep, coreTimeout, if_neg (by simp [hd])]
  | deliverRcv k junk =>
    cases hp : (t.nets.sender i).toRcv[k]? with
    | none => simp [logStep, NetEvent.of, netsStep, hp]
    | some p =>
      simp only [logStep, NetEvent.of, netsStep, hp]
      show (rcvStep t.nets.rcv _).1.core.senderQ = _
      rw [hstep, coreStep, coreRecv_senderQ, joined, if_pos (List.mem_of_mem_head? hhead)]
  | deliverNcp k =>
    cases hq : (t.nets.sender i).toNcp[k]? with
    | none => simp [logStep, NetEvent.of, netsStep, hq]
    | some q =>
      simp only [logStep, NetEvent.of, netsStep, hq]
      rfl
  | _ => rfl

theorem Turns.alone [DecidableEq ι] (h : Turns S t ks) (hnames : Distinct S)
    (hhead : t.nets.rcv.core.senderQ.head? = some (S.env i).addr) (log : List RcvEffect)
    {es : List NetEvent} (hes : Along (netStep (S.env i)) BeforeSwitch (t.nets.alone i log) es) :
    Along (logStep S) (InTurn S) t (es.map (NetEvent.of i)) ∧ ∃ ks',
      Turns S ((es.map (NetEvent.of i)).foldl (logStep S) t) ks' ∧
      ((es.map (NetEvent.of i)).foldl (logStep S) t).nets.rcv.core.senderQ =
        t.nets.rcv.core.senderQ := by
  induction es generalizing t ks log with
  | nil => exact ⟨trivial, ks, h, rfl⟩
  | cons e es ih =>
    have hturn := inTurn_of_head hhead e
    have hq := senderQ_of_head h.ok hhead hes.1
    obtain ⟨ks', h'⟩ := h.step hnames hturn
    have hrest := hes.2
    rw [← alone_step] at hrest
    obtain ⟨halong, ks'', h'', hq'⟩ := ih h' (hq.symm ▸ hhead) _ hrest
    exact ⟨⟨hturn, halong⟩, ks'', h'', hq'.trans hq⟩

/-- The head sender and the receiver agree like two programs alone, when nothing is in
flight to the sender. -/
theorem Turns.linked (h : Turns S t ks)
    (hhead : t.nets.rcv.core.senderQ.head? = some (S.env i).addr) : ∃ b n log,
      Linked (S.env i) { t.nets.alone i log with toNcp := [] } b n (ks i) := by
  obtain ⟨b, n, hs, hlo, hhi, hdata⟩ := (h.sender i).sending
  cases h.turn i with
  | before hne _ _ => exact absurd hhead hne
  | after hnot _ _ => exact absurd (List.mem_of_mem_head? hhead) hnot
  | head _ transfer _ =>
    obtain ⟨f, hf⟩ : ∃ f : Fname, f = (S.env i).dFname.1 := ⟨_, rfl⟩
    obtain ⟨file, hfile⟩ : ∃ file, file = chunks (S.env i).src (ks i) := ⟨_, rfl⟩
    refine ⟨b, n, if t.nets.rcv.rcvStart then [.openFile f, .write f file] else [], ?_⟩
    have hzero (hno : t.nets.rcv.rcvStart = false) : ks i = 0 := transfer.eq_zero hno
    refine {
      sending := hs
      ok := h.ok
      transfer := transfer
      lo := hlo
      hi := hhi
      data := hdata
      acks := fun q hq => absurd hq List.not_mem_nil
      written := ?_
      opened := ?_
      file := ?_
      only := ?_
      returned := (h.sender i).returned }
    · show written _ (if _ then _ else _) = _
      rw [← hf]
      split_ifs with hst
      · rw [written_openFile, written_write, written_nil, List.append_nil, hfile]
      · rw [hzero (by simpa using hst)]
        rfl
    · show _ ∈ (if _ then _ else _) ↔ t.nets.rcv.rcvStart = true
      rw [← hf]
      split_ifs with hst
      · exact iff_of_true List.mem_cons_self hst
      · exact iff_of_false List.not_mem_nil hst
    · intro hst disk
      have hst' : t.nets.rcv.rcvStart = true := hst
      show fileAfter _ disk (if _ then _ else _) = _
      rw [← hf, if_pos hst', hfile]
      simp [fileAfter]
    · intro e he
      rw [← hf]
      have he' : e ∈ (if t.nets.rcv.rcvStart then [.openFile f, .write f file] else []) := he
      split_ifs at he'
      · rcases List.mem_pair.mp he' with rfl | rfl
        · exact .inr rfl
        · exact .inr rfl
      · exact absurd he' List.not_mem_nil

/-- Timeouts, deliveries and losses; whatever unset fields hold, they hold `junk`. -/
def NetsEvent.Helpful (junk : AckPkt) : NetsEvent ι → Prop
  | .rcvTimeout x => x = junk
  | .deliverRcv _ _ x => x = junk
  | .duplicateRcv .. => False
  | .duplicateNcp .. => False
  | _ => True

theorem Forward.helpful {e : NetEvent} (he : e.Forward junk) : (e.of i).Helpful junk := by
  cases e with
  | deliverRcv k x => exact he
  | rcvTimeout x => exact he.elim
  | duplicateRcv k => exact he.elim
  | duplicateNcp k => exact he.elim
  | _ => trivial

theorem Forward.beforeSwitch {s : Net} {e : NetEvent} (he : e.Forward junk) : BeforeSwitch s e := by
  cases e with
  | rcvTimeout x => exact he.elim
  | _ => trivial

theorem Turns.finish [DecidableEq ι] (h : Turns S t ks) (hnames : Distinct S)
    (hjunk : junk.isNack = false)
    (hhead : t.nets.rcv.core.senderQ.head? = some (S.env i).addr)
    (hlive : (t.nets.sender i).ncp.status ≠ .faulted) : ∃ es : List NetEvent,
    (∀ e ∈ es, (e.of i).Helpful junk) ∧
      Along (logStep S) (InTurn S) t (es.map (NetEvent.of i)) ∧ ∃ ks',
      Turns S ((es.map (NetEvent.of i)).foldl (logStep S) t) ks' ∧
      ((es.map (NetEvent.of i)).foldl (logStep S) t).nets.rcv.core.senderQ =
        t.nets.rcv.core.senderQ ∧
      ((es.map (NetEvent.of i)).foldl (logStep S) t).nets.rcv.core.done = true := by
  cases hd : t.nets.rcv.core.done with
  | true => exact ⟨[], by simp, trivial, ks, h, rfl, hd⟩
  | false =>
    obtain ⟨b, n, log, hl⟩ := h.linked hhead
    have hrun : (t.nets.sender i).ncp.status = .running := by
      cases hs : (t.nets.sender i).ncp.status with
      | running => rfl
      | faulted => exact absurd hs hlive
      | returned =>
        have hdone := hl.transfer.done
        rw [hl.returned hs, decide_eq_true rfl] at hdone
        exact absurd (hd.symm.trans hdone) Bool.false_ne_true
    -- what is in flight to the sender is lost, and it is called
    obtain ⟨lost, hmem, hnil⟩ := Channel.exists_losses (netStep (S.env i)) .loseNcp
      (fun ch => { t.nets.alone i log with toNcp := ch }) (fun ch m => rfl) []
      (List.nil_sublist (t.nets.sender i).toNcp)
    have hnil : lost.foldl (netStep (S.env i)) (t.nets.alone i log) =
        { t.nets.alone i log with toNcp := [] } := hnil
    obtain ⟨b', n', k', hact⟩ := hl.wake hrun hhead hd rfl hjunk
    obtain ⟨later, hfwd, hdone⟩ := hact.finish junk
    refine ⟨lost ++ ([.rcvTimeout junk, .deliverNcp 0] ++ later), fun e he => ?_, ?_⟩
    · rcases List.mem_append.mp he with he | he
      · obtain ⟨m, rfl⟩ := hmem e he
        trivial
      · rcases List.mem_append.mp he with he | he
        · rcases List.mem_pair.mp he with rfl | rfl
          · rfl
          · trivial
        · exact Forward.helpful (hfwd e he)
    · have hbefore : Along (netStep (S.env i)) BeforeSwitch (t.nets.alone i log)
          (lost ++ ([.rcvTimeout junk, .deliverNcp 0] ++ later)) := by
        rw [along_append, along_append, hnil]
        refine ⟨?_, ⟨hd, trivial, trivial⟩, ?_⟩
        · refine (along_of_forall hmem).mono ?_
          rintro u e ⟨m, rfl⟩
          trivial
        · exact (along_of_forall (R := fun e => e.Forward junk) hfwd).mono
            fun s e he => Forward.beforeSwitch he
      obtain ⟨halong, ks', h', hq⟩ := h.alone hnames hhead log hbefore
      refine ⟨halong, ks', h', hq, ?_⟩
      obtain ⟨log', hend⟩ :=
        alone_run t i log (lost ++ ([.rcvTimeout junk, .deliverNcp 0] ++ later))
      have hrcv := congrArg (fun u => u.rcv.done) hend
      rw [List.foldl_append, List.foldl_append, hnil, hdone] at hrcv
      exact hrcv

theorem Turns.next [DecidableEq ι] (h : Turns S t ks) (hd : t.nets.rcv.core.done = true)
    (junk : AckPkt) :
    (logStep S t (.rcvTimeout junk)).nets.rcv.core.senderQ = t.nets.rcv.core.senderQ.tail := by
  have hcore : (rcvStep t.nets.rcv (.timeout junk)).1.core = _ := next_core h.ok _
  show (rcvStep t.nets.rcv (.timeout junk)).1.core.senderQ = _
  rw [hcore, coreStep, coreTimeout, if_pos hd]

theorem Turns.closed (h : Turns S t ks)
    (hhead : t.nets.rcv.core.senderQ.head? = some (S.env i).addr)
    (hd : t.nets.rcv.core.done = true) : .close (S.env i).dFname.1 ∈ t.log := by
  cases h.turn i with
  | before hne _ _ => exact absurd hhead hne
  | after hnot _ _ => exact absurd (List.mem_of_mem_head? hhead) hnot
  | head _ transfer copied =>
    have hdone := transfer.done
    rw [hd] at hdone
    exact copied.closed.mpr (of_decide_eq_true hdone.symm)

/-- Whoever is in the queue can be served: by induction on the queue. -/
theorem Turns.serve [DecidableEq ι] (hnames : Distinct S) (hjunk : junk.isNack = false)
    {q : List SockaddrIn} (h : Turns S t ks) (hq : t.nets.rcv.core.senderQ = q)
    (hlive : ∀ i, (S.env i).addr ∈ q → (t.nets.sender i).ncp.status ≠ .faulted) :
    ∃ later : List (NetsEvent ι), (∀ e ∈ later, e.Helpful junk) ∧
      Along (logStep S) (InTurn S) t later ∧ ∀ i, (S.env i).addr ∈ q →
        .close (S.env i).dFname.1 ∈ (later.foldl (logStep S) t).log := by
  induction q generalizing t ks with
  | nil => exact ⟨[], by simp, trivial, by simp⟩
  | cons a q ih =>
    obtain ⟨i, rfl⟩ := h.names a (by rw [hq]; exact List.mem_cons_self)
    have hhead : t.nets.rcv.core.senderQ.head? = some (S.env i).addr := by rw [hq]; rfl
    have hnodup := hq ▸ h.ok.nodup
    obtain ⟨es, hes, halong, ks', h', hq', hd⟩ :=
      h.finish hnames hjunk hhead (hlive i List.mem_cons_self)
    obtain ⟨u, hu⟩ : ∃ u, (es.map (NetEvent.of i)).foldl (logStep S) t = u := ⟨_, rfl⟩
    rw [hu] at h' hq' hd
    have hclosed := h'.closed (hq'.symm ▸ hhead) hd
    obtain ⟨ks'', h''⟩ := h'.step hnames (e := .rcvTimeout junk) trivial
    have hrest : (logStep S u (.rcvTimeout junk)).nets.rcv.core.senderQ = q := by
      rw [h'.next hd, hq', hq]
      rfl
    obtain ⟨later, hlater, halong', hdone⟩ := ih h'' hrest fun m hm => by
      have hne : m ≠ i := by
        rintro rfl
        exact (List.nodup_cons.mp hnodup).1 hm
      have hncp : ((logStep S u (.rcvTimeout junk)).nets.sender m).ncp =
          (t.nets.sender m).ncp := by
        rw [← foldl_of_ncp t es hne, hu]
        rfl
      rw [hncp]
      exact hlive m (List.mem_cons_of_mem _ hm)
    refine ⟨es.map (NetEvent.of i) ++ .rcvTimeout junk :: later, fun e he => ?_, ?_, fun m hm => ?_⟩
    · rcases List.mem_append.mp he with he | he
      · obtain ⟨e', he', rfl⟩ := List.mem_map.mp he
        exact hes e' he'
      · rcases List.mem_cons.mp he with rfl | he
        · rfl
        · exact hlater e he
    · rw [along_append, hu]
      exact ⟨halong, trivial, halong'⟩
    · rw [List.foldl_append, hu, List.foldl_cons]
      rcases List.mem_cons.mp hm with heq | hm
      · obtain rfl := S.addr_inj heq
        exact log_foldl _ _ (List.mem_append_left _ hclosed)
      · exact hdone m hm

/-- Whatever happened so far in turn: when no sender in the queue has failed, the files of
all of them can still be completed and closed, in turn, by timeouts, deliveries and losses. -/
theorem queue_served [DecidableEq ι] (S : Senders ι) (hfits : ∀ i, (S.env i).NameFits)
    (hnames : Distinct S) (buf : NetPkt) (es : List (NetsEvent ι))
    (hrun : Along (logStep S) (InTurn S) (.init S buf) es)
    (junk : AckPkt) (hjunk : junk.isNack = false) :
    let t := es.foldl (logStep S) (.init S buf)
    (∀ i, (S.env i).addr ∈ t.nets.rcv.senderQ → (t.nets.sender i).ncp.status ≠ .faulted) →
    ∃ later : List (NetsEvent ι), (∀ e ∈ later, e.Helpful junk) ∧
      Along (logStep S) (InTurn S) t later ∧ ∀ i, (S.env i).addr ∈ t.nets.rcv.senderQ →
        .close (S.env i).dFname.1 ∈ (later.foldl (logStep S) t).log ∧
        ∀ disk, fileAfter (S.env i).dFname disk (later.foldl (logStep S) t).log =
          some (S.env i).src := by
  intro t hlive
  obtain ⟨ks, h⟩ := turns_run hfits hnames buf hrun
  obtain ⟨later, hlater, halong, hdone⟩ := h.serve hnames hjunk rfl hlive
  refine ⟨later, hlater, halong, fun i hi => ⟨hdone i hi, fun disk => ?_⟩⟩
  have hall := along_append.mpr ⟨hrun, halong⟩
  obtain ⟨ks', h'⟩ := turns_run hfits hnames buf hall
  obtain ⟨P, hc, -⟩ := (h'.turn i).copied
  rw [List.foldl_append] at hc
  have hcl := hdone i hi
  have hP : P := by
    by_contra hP
    exact hc.fresh hP _ hcl rfl
  rw [hc.file hP disk, hc.closed.mp hcl, chunks_lastChunk]

/-- The second sender waits behind the first one, whose transfer has just begun. -/
theorem queue_served_two :
    let es : List (NetsEvent Bool) := [.ncpTimeout true, .ncpTimeout true, .ncpTimeout false,
      .ncpTimeout false, .deliverRcv true 2 ⟨0, 0, false⟩, .deliverRcv false 2 ⟨0, 0, false⟩,
      .deliverRcv false 0 ⟨0, 0, true⟩]
    let t := es.foldl (logStep twoSenders) (.init twoSenders (fullPkt [] 0 0 false))
    t.nets.rcv.senderQ = [⟨1, 5⟩, ⟨2, 5⟩] ∧ ∃ later : List (NetsEvent Bool),
      fileAfter [98] none (later.foldl (logStep twoSenders) t).log = some (.replicate 1356 98) := by
  intro es t
  have hnames : Distinct twoSenders := by
    intro i j h
    cases i <;> cases j <;> first | rfl | cases h
  have hrun : Along (logStep twoSenders) (InTurn twoSenders)
      (.init twoSenders (fullPkt [] 0 0 false)) es := by decide +kernel
  have hserved := queue_served twoSenders (by decide) hnames (fullPkt [] 0 0 false) es hrun
    ⟨0, 0, false⟩ rfl
  obtain ⟨u, hu⟩ : ∃ u, es.foldl (logStep twoSenders)
      (.init twoSenders (fullPkt [] 0 0 false)) = u := ⟨_, rfl⟩
  have hq : u.nets.rcv.senderQ = [⟨1, 5⟩, ⟨2, 5⟩] := by
    rw [← hu]
    decide +kernel
  have hlive : ∀ i, (twoSenders.env i).addr ∈ u.nets.rcv.senderQ →
      (u.nets.sender i).ncp.status ≠ .faulted := by
    rw [← hu]
    decide +kernel
  rw [hu] at hserved
  obtain ⟨later, -, -, hdone⟩ := hserved hlive
  have hmem : (twoSenders.env false).addr ∈ u.nets.rcv.senderQ := by
    rw [hq]
    decide
  rw [show t = u from hu]
  exact ⟨hq, later, (hdone false hmem).2 none⟩

end Wan.Proj1
