import Wan.Proj1.Integrity

/-!
# No transfer is stuck

From every state of a run in which the sender has neither returned nor failed,
four steps take the window forward: two timeouts, of which the second sends the
whole window, the delivery of the packet the receiver waits for (or of the last
one, if it waits for none of them), and the delivery of its acknowledgment.
-/

namespace Wan.Proj1

open Posix Lib

variable {env : NcpEnv} {s : Net} {b n k j : ℕ}

theorem Filled.unique {t : NcpState} {b' n' : ℕ} (h : Filled env t b n) (h' : Filled env t b' n') :
    b = b' ∧ n = n' := by
  have hn := h.pktCnt.symm.trans h'.pktCnt
  have hlen : n - b = n' - b' := by
    rw [← length_pkts env b n, ← length_pkts env b' n', ← h.window, ← h'.window]
  have hle := h.le
  have hle' := h'.le
  omega

structure Active (env : NcpEnv) (s : Net) (b n k : ℕ) : Prop extends Linked env s b n k where
  running : s.ncp.status = .running
  unblocked : s.ncp.blocked = false

theorem Active.timeout (h : Active env s b n k) :
    Active env (netStep env s .ncpTimeout) b (env.limit b) k ∧
      Labelled (netStep env s .ncpTimeout).ncp ∧
      (n = env.limit b → Labelled s.ncp →
        (netStep env s .ncpTimeout).toRcv = s.toRcv ++ pkts env b n) := by
  have hstep : ncpStep env s.ncp .timeout = ncpTimeout env s.ncp := by
    simp [ncpStep, h.running]
  obtain ⟨hs, -, hrun, hblk, hlab, hall⟩ := h.sending.timeout h.running h.unblocked
  obtain ⟨b', n', hl⟩ := h.toLinked.ncpDo (e := .timeout) fun q hq => by cases hq
  have hncp : (s.ncpDo env .timeout).ncp = (ncpTimeout env s.ncp).1 := by
    rw [Net.ncpDo, hstep]
  obtain ⟨rfl, rfl⟩ := hs.toFilled.unique (hncp ▸ hl.sending.toFilled)
  refine ⟨⟨hl, ?_, ?_⟩, ?_, fun hn hlab' => ?_⟩
  · exact hncp ▸ hrun
  · exact hncp ▸ hblk
  · exact hncp ▸ hlab
  · show s.toRcv ++ (ncpStep env s.ncp .timeout).2 = _
    rw [hstep, hall hn hlab']

theorem acksTo_sendto {a : SockaddrIn} {q : AckPkt} {out : List RcvEffect} :
    acksTo a (.sendto a q :: out) = q :: acksTo a out := by
  simp [acksTo]

theorem Receiving.answer {a : SockaddrIn} {src : Bytes} {f : Fname} {c : RcvCore} {p : NetPkt}
    (h : Receiving a src f c k) (hp : Carries src f j p) (hj : j = k ∨ j = k + 1) (junk : AckPkt) :
    ∃ q : AckPkt, acksTo a (coreReceive c p a junk).2 = [q] ∧ q.isNack = false ∧ q.cumSeq = j := by
  have hseq := hp.seq
  have hcum := h.cumSeq
  refine coreReceive_cases (motive := fun r =>
    ∃ q : AckPkt, acksTo a r.2 = [q] ∧ q.isNack = false ∧ q.cumSeq = j) ?_ ?_ ?_ ?_ ?_ ?_
  · intro hold
    exact ⟨_, acksTo_sendto, rfl, by show c.cumSeq = j; omega⟩
  · intro hnext _
    exact ⟨_, acksTo_sendto, rfl, hseq⟩
  · intro g hnext _ _
    exact ⟨_, acksTo_sendto, rfl, hseq⟩
  · intro g hnext _ _
    exact ⟨_, acksTo_sendto, rfl, hseq⟩
  · intro hfut
    omega
  · intro hfut
    omega

/-- Losses, deliveries and sender timeouts; whatever unset fields hold, they hold
`junk`. -/
def NetEvent.Forward (junk : AckPkt) : NetEvent → Prop
  | .ncpTimeout => True
  | .deliverRcv _ x => x = junk
  | .deliverNcp _ => True
  | .loseRcv _ => True
  | .loseNcp _ => True
  | _ => False

theorem Active.answered (h : Active env s b n k) {i : ℕ} (hat : s.toRcv[i]? = some (ncpPkt env j))
    (hj : j = k ∨ j = k + 1) (hpos : 1 ≤ j) (hn : j < n) (junk : AckPkt) :
    let u := netStep env s (.deliverRcv i junk)
    Linked env u b n (advance k j) ∧ u.ncp = s.ncp ∧
      ∃ q : AckPkt, u.toNcp = s.toNcp ++ [q] ∧ q.isNack = false ∧ q.cumSeq = j := by
  intro u
  have hcar := carries_of_lt h.toLinked hpos hn
  have hu : u = { s with toRcv := Channel.lose s.toRcv i }.rcvDo env
      (.datagram env.addr (ncpPkt env j) junk) := by
    simp only [u, netStep, hat]
  rw [hu]
  refine ⟨?_, rfl, ?_⟩
  · exact (h.toLinked.channels (Channel.lose s.toRcv i) s.toNcp
      (fun p => Channel.mem_of_mem_lose) (fun q hq => hq)).deliver hpos hn
  obtain ⟨d, hd, -, heq⟩ := h.transfer.coreRecv_eq hcar junk
  obtain ⟨q, hq, hack, hcum⟩ := hd.answer hcar hj junk
  have hout : (rcvStep s.rcv (.datagram env.addr (ncpPkt env j) junk)).2 =
      (coreRecv s.rcv.core env.addr (ncpPkt env j) junk).2 := out_core h.ok _
  have hopen : acksTo env.addr (if s.rcv.core.rcvStart then [] else [.openFile env.dFname.1]) =
      [] := by
    split_ifs <;> rfl
  refine ⟨q, ?_, hack, hcum⟩
  show s.toNcp ++ acksTo env.addr (rcvStep s.rcv _).2 = _
  rw [hout, heq, acksTo, List.filterMap_append, ← acksTo, ← acksTo, hopen, hq, List.nil_append]

theorem Active.exchange (h : Active env s b n k) {i : ℕ} (hat : s.toRcv[i]? = some (ncpPkt env j))
    (hj : j = k ∨ j = k + 1) (hb : b ≤ j) (hn : j < n) (junk : AckPkt) :
    let t := netStep env (netStep env s (.deliverRcv i junk)) (.deliverNcp s.toNcp.length)
    ∃ k', Linked env t (j + 1) n k' ∧
      (t.ncp.status = .returned ∨ Active env t (j + 1) n k') := by
  intro t
  obtain ⟨hl, hncp, q, hback, hack, hcum⟩ :=
    h.answered hat hj (h.sending.pos.trans hb) hn junk
  obtain ⟨u, hu⟩ : ∃ u, netStep env s (.deliverRcv i junk) = u := ⟨_, rfl⟩
  rw [hu] at hl hncp hback
  have ht : t = { u with toNcp := Channel.lose u.toNcp s.toNcp.length }.ncpDo env (.ack q) := by
    have hget : u.toNcp[s.toNcp.length]? = some q := by simp [hback]
    show netStep env (netStep env s (.deliverRcv i junk)) _ = _
    rw [hu]
    simp only [netStep, hget]
  have htn : t.ncp = (ncpRecv s.ncp q).1 := by
    rw [ht]
    show (ncpStep env u.ncp (.ack q)).1 = _
    simp only [ncpStep, hncp, h.running]
  obtain ⟨hs, -, hstatus⟩ := h.sending.recvAck h.running hack
  obtain ⟨b', n', k', hl'⟩ := hl.step (e := .deliverNcp s.toNcp.length) trivial
  rw [← hu] at hl'
  obtain ⟨rfl, rfl⟩ := hs.toFilled.unique (htn ▸ hl'.sending.toFilled)
  have hfront : acked b n q.cumSeq = j + 1 := by
    rw [acked, hcum]
    omega
  rw [hfront] at hl'
  refine ⟨k', hl', ?_⟩
  rw [← htn] at hstatus
  split_ifs at hstatus with hret
  · exact .inl hstatus
  · refine .inr ⟨hl', hstatus, ?_⟩
    rw [htn, ncpRecv_blocked]
    exact NcpState.blockedBy_nonneg h.unblocked (by omega)

/-- One round: the packet the receiver waits for, or the last one of the window,
and its acknowledgment. -/
theorem Active.round (h : Active env s b n k) (junk : AckPkt) : ∃ es : List NetEvent,
    (∀ e ∈ es, e.Forward junk) ∧ ∃ b' n' k', b < b' ∧
      Linked env (es.foldl (netStep env) s) b' n' k' ∧
      ((es.foldl (netStep env) s).ncp.status = .returned ∨
        Active env (es.foldl (netStep env) s) b' n' k') := by
  have hb := h.sending.live h.running
  -- the second timeout sends the window
  obtain ⟨h1, hlab1, -⟩ := h.timeout
  obtain ⟨h2, -, hall⟩ := h1.timeout
  obtain ⟨s1, hs1⟩ : ∃ s1, netStep env s .ncpTimeout = s1 := ⟨_, rfl⟩
  obtain ⟨s2, hs2⟩ : ∃ s2, netStep env s1 .ncpTimeout = s2 := ⟨_, rfl⟩
  rw [hs1] at h1 hlab1 h2 hall
  rw [hs2] at h2 hall
  have hflight := hall rfl hlab1
  -- the packet to deliver
  have hlim := NcpEnv.lt_limit hb
  have hlo := h2.lo
  have hhi := h2.hi
  obtain ⟨j, hj⟩ : ∃ j, j = min (k + 1) (env.limit b - 1) := ⟨_, rfl⟩
  have hpos : 1 ≤ j := by have := h.sending.pos; omega
  have hat : s2.toRcv[s1.toRcv.length + (j - b)]? = some (ncpPkt env j) := by
    rw [hflight, List.getElem?_append_right (by omega), Nat.add_sub_cancel_left, pkts,
      List.getElem?_map, List.getElem?_range' (by omega)]
    simp [show b + (j - b) = j by omega]
  obtain ⟨k', hl, hend⟩ := h2.exchange hat (by omega) (by omega) (by omega) junk
  refine ⟨[.ncpTimeout, .ncpTimeout, .deliverRcv (s1.toRcv.length + (j - b)) junk,
    .deliverNcp s2.toNcp.length], ?_, j + 1, env.limit b, k', by omega, ?_⟩
  · simp [NetEvent.Forward]
  · simp only [List.foldl_cons, List.foldl_nil, hs1, hs2]
    exact ⟨hl, hend⟩

theorem netStep_unblocked (h : Linked env s b n k) (hb : s.ncp.blocked = false) (e : NetEvent) :
    (netStep env s e).ncp.blocked = false := by
  cases e with
  | ncpTimeout => exact ncpStep_blocked hb fun q hq => nomatch hq
  | rcvTimeout junk => exact hb
  | deliverRcv i junk =>
    simp only [netStep]
    split
    · exact hb
    · exact hb
  | deliverNcp i =>
    simp only [netStep]
    split
    · exact hb
    · next q hq =>
      refine ncpStep_blocked hb fun q' hq' => ?_
      obtain rfl := NcpEvent.ack.inj hq'
      exact (h.acks _ (List.mem_of_getElem? hq)).1
  | loseRcv i => exact hb
  | loseNcp i => exact hb
  | duplicateRcv i => exact hb
  | duplicateNcp i => exact hb

/-- Whatever happened so far, a sender that is still running can be brought to
return, with the file complete, by losses, deliveries and its own timeouts. -/
theorem no_stuck_state (env : NcpEnv) (hname : env.NameFits) (hunblocked : env.blocked0 = false)
    (buf : NetPkt) (disk : Option Bytes) (es : List NetEvent)
    (hrun : Along (netStep env) BeforeSwitch (.init env buf) es)
    (hlive : (es.foldl (netStep env) (.init env buf)).ncp.status = .running) (junk : AckPkt) :
    ∃ later : List NetEvent, (∀ e ∈ later, e.Forward junk) ∧
      let t := later.foldl (netStep env) (es.foldl (netStep env) (.init env buf))
      t.ncp.status = .returned ∧ t.rcv.pd = none ∧
        fileAfter env.dFname disk t.log = some env.src := by
  obtain ⟨⟨b, n, k, hl⟩, hb⟩ := hrun.inv
    (I := fun s => (∃ b n k, Linked env s b n k) ∧ s.ncp.blocked = false)
    ⟨⟨1, 1, 0, linked_init hname buf⟩, hunblocked⟩
    fun s e ⟨⟨b, n, k, h⟩, hb⟩ he => ⟨h.step he, netStep_unblocked h hb e⟩
  -- the variant: how many packets are still to be acknowledged
  refine exists_run (J := fun m s => ∃ b n k, Active env s b n k ∧ m = lastChunk env.src - b)
    (G := fun t => t.ncp.status = .returned ∧ t.rcv.pd = none ∧
      fileAfter env.dFname disk t.log = some env.src) ?_ ⟨b, n, k, ⟨hl, hlive, hb⟩, rfl⟩
  rintro m s ⟨b, n, k, h, rfl⟩
  obtain ⟨round, hfwd, b', n', k', hlt, hl', hend⟩ := h.round junk
  refine ⟨round, hfwd, ?_⟩
  rcases hend with hret | hact
  · obtain ⟨-, hp, hf⟩ := hl'.complete hret
    exact .inl ⟨hret, hp, hf disk⟩
  · have hb' := hact.sending.live hact.running
    exact .inr ⟨_, by omega, b', n', k', hact, rfl⟩

/-- A transfer whose first packet was lost. -/
theorem no_stuck_state_lost :
    let env : NcpEnv :=
      ⟨true, [7], ⟨[97], by decide⟩, 1, ⟨1, 5⟩, fun _ => fullPkt [] 0 0 false, false⟩
    let es : List NetEvent := [.ncpTimeout, .ncpTimeout, .loseRcv 0]
    let s := es.foldl (netStep env) (.init env (fullPkt [] 0 0 false))
    ∃ later : List NetEvent, (later.foldl (netStep env) s).ncp.status = .returned := by
  intro env es
  have hlive : (es.foldl (netStep env) (.init env (fullPkt [] 0 0 false))).ncp.status =
      .running := by
    decide +kernel
  obtain ⟨later, -, hret, -⟩ := no_stuck_state env (by decide) rfl (fullPkt [] 0 0 false) none es
    ⟨trivial, trivial, trivial, trivial⟩ hlive ⟨0, 0, false⟩
  dsimp only
  exact ⟨later, hret⟩

end Wan.Proj1
