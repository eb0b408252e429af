import Wan.Lib.SlidingWindow
import Wan.Proj1.Progress

/-!
# What the two programs are for

With labels, NACKs, timeouts, file streams and a network that loses, duplicates and
reorders, `ncp` and `rcv` do what a sliding window over a bag of numbers does, as long as
the receiver has not switched: every step of theirs is some steps of that protocol.
-/

namespace Wan.Proj1

open Posix Lib

variable {env : NcpEnv} {s : Net} {w : SlidingWindow} {b n k j : ℕ}

abbrev NcpEnv.Reaches (env : NcpEnv) : SlidingWindow → SlidingWindow → Prop :=
  SlidingWindow.Reaches env.width (lastChunk env.src)

/-- The protocol state `w` is that of the programs, and what is in flight was sent in it. -/
structure Matches (env : NcpEnv) (s : Net) (w : SlidingWindow) : Prop where
  linked : Linked env s w.base w.next w.got
  data : ∀ p ∈ s.toRcv, ∃ j ∈ w.data, p = ncpPkt env j
  acks : ∀ q ∈ s.toNcp, q.isNack = false → ∃ a ∈ w.acks, q.cumSeq = a
  returned : s.ncp.status = .returned ↔ w.returned = true

theorem matches_init (hname : env.NameFits) (buf : NetPkt) :
    Matches env (.init env buf) .init where
  linked := linked_init hname buf
  data := by simp [Net.init]
  acks := by simp [Net.init]
  returned := by simp [Net.init, NcpState.init, SlidingWindow.init]

theorem Matches.channels (h : Matches env s w) (toRcv : List NetPkt) (toNcp : List AckPkt)
    (hr : ∀ p ∈ toRcv, p ∈ s.toRcv) (hn : ∀ q ∈ toNcp, q ∈ s.toNcp) :
    Matches env { s with toRcv := toRcv, toNcp := toNcp } w where
  linked := h.linked.channels toRcv toNcp hr hn
  data := fun p hp => h.data p (hr p hp)
  acks := fun q hq => h.acks q (hn q hq)
  returned := h.returned

-- ---------------------------------------------------------------------------
-- The sender
-- ---------------------------------------------------------------------------

structure SenderStep (env : NcpEnv) (w : SlidingWindow) (r : NcpState × List NetPkt)
    (w' : SlidingWindow) : Prop where
  reaches : env.Reaches w w'
  sending : Sending env r.1 w'.base w'.next
  got : w'.got = w.got
  acks : w'.acks = w.acks
  data : w.data ⊆ w'.data
  out : ∀ p ∈ r.2, ∃ j ∈ w'.data, p = ncpPkt env j
  returned : r.1.status = .returned ↔ w'.returned = true

theorem Sending.timeout_window {c : NcpState} (h : Sending env c w.base w.next)
    (hr : c.status = .running) (hw : w.returned = false) :
    ∃ w', SenderStep env w (ncpTimeout env c) w' := by
  cases hb : c.blocked with
  | true =>
    have hidle : ncpTimeout env c = (c, []) := by simp [ncpTimeout, hb]
    rw [hidle]
    exact ⟨w, .refl, h, rfl, rfl, subset_rfl, by simp, by simp [hr, hw]⟩
  | false =>
    obtain ⟨hs, hout, hrun, -⟩ := h.timeout hr hb
    have hfill : env.Reaches w { w with next := env.limit w.base } :=
      SlidingWindow.reaches_extend hw h.toFilled.le_limit (min_le_left _ _) (min_le_right _ _)
    obtain ⟨data, hsub, hmem, hsend⟩ :=
      SlidingWindow.exists_sends (s := { w with next := env.limit w.base }) hw
        fun p hp => mem_pkts.mp (hout.subset hp)
    exact ⟨_, hfill.trans hsend, hs, rfl, rfl, hsub, hmem, by simp [hrun, hw]⟩

theorem Sending.nack_window {c : NcpState} {q : AckPkt} (h : Sending env c w.base w.next)
    (hr : c.status = .running) (hw : w.returned = false) (hq : q.isNack = true) :
    ∃ w', SenderStep env w (ncpRecv c q) w' := by
  obtain ⟨hs, hout, hret⟩ := h.recvNack hr hq
  obtain ⟨data, hsub, hmem, hsend⟩ :=
    SlidingWindow.exists_sends hw fun p hp => mem_pkts.mp (hout p hp)
  exact ⟨_, hsend, hs, rfl, rfl, hsub, hmem, by simp [hret, hw]⟩

theorem Sending.ack_window {c : NcpState} {q : AckPkt} {a : ℕ} (h : Sending env c w.base w.next)
    (hr : c.status = .running) (hw : w.returned = false) (hq : q.isNack = false)
    (ha : a ∈ w.acks) (hqa : q.cumSeq = a) (han : a < w.next) :
    ∃ w', SenderStep env w (ncpRecv c q) w' := by
  obtain ⟨hs, hout, hret⟩ := h.recvAck hr hq
  have hfront : acked w.base w.next q.cumSeq = max w.base (a + 1) := by
    rw [acked, hqa]
    omega
  rw [hfront] at hs
  have hslide : env.Reaches w { w with base := max w.base (a + 1) } := .single (.slide hw ha)
  split_ifs at hret with hend
  · obtain rfl : a = lastChunk env.src := by omega
    exact ⟨_, hslide.tail (.finish hw ha), hs, rfl, rfl, subset_rfl, by simp [hout], by simp [hret]⟩
  · exact ⟨_, hslide, hs, rfl, rfl, subset_rfl, by simp [hout], by simp [hret, hw]⟩

theorem Matches.ncpDo (h : Matches env s w) {e : NcpEvent}
    (he : ∀ q, e = .ack q → Promises w.got q ∧ (q.isNack = false → ∃ a ∈ w.acks, q.cumSeq = a)) :
    ∃ w', env.Reaches w w' ∧ Matches env (s.ncpDo env e) w' := by
  obtain ⟨w', h'⟩ : ∃ w', SenderStep env w (ncpStep env s.ncp e) w' := by
    have hs := h.linked.sending
    by_cases hr : s.ncp.status = .running
    · have hw : w.returned = false := by
        rw [← Bool.not_eq_true, ← h.returned, hr]
        simp
      cases e with
      | timeout =>
        simp only [ncpStep, hr]
        exact hs.timeout_window hr hw
      | ack q =>
        obtain ⟨hprom, hack⟩ := he q rfl
        simp only [ncpStep, hr]
        cases hq : q.isNack with
        | true => exact hs.nack_window hr hw hq
        | false =>
          obtain ⟨a, ha, hqa⟩ := hack hq
          have hle := hprom.2 hq
          have hhi := h.linked.hi
          exact hs.ack_window hr hw hq ha hqa (by omega)
    · rw [ncpStep_stopped hr]
      exact ⟨w, .refl, hs, rfl, rfl, subset_rfl, by simp, h.returned⟩
  obtain ⟨b, n, hl⟩ := h.linked.ncpDo fun q hq => (he q hq).1
  obtain ⟨rfl, rfl⟩ := h'.sending.toFilled.unique hl.sending.toFilled
  refine ⟨w', h'.reaches, h'.got ▸ hl, ?_, h'.acks ▸ h.acks, h'.returned⟩
  intro p hp
  rcases List.mem_append.mp hp with hp | hp
  · obtain ⟨j, hj, rfl⟩ := h.data p hp
    exact ⟨j, h'.data hj, rfl⟩
  · exact h'.out p hp

-- ---------------------------------------------------------------------------
-- The receiver
-- ---------------------------------------------------------------------------

theorem Receiving.acks_eq {c : RcvCore} {src : Bytes} {f : Fname} {a a' : SockaddrIn} {p : NetPkt}
    {junk : AckPkt} (h : Receiving a src f c k) (hp : Carries src f j p) {d : SockaddrIn}
    {q : AckPkt} (hm : .sendto d q ∈ (coreReceive c p a' junk).2) (hq : q.isNack = false) :
    q.cumSeq = advance k j := by
  have hseq := hp.seq
  have hcum := h.cumSeq
  have hnext (hj : p.seq = c.cumSeq + 1) : p.seq = advance k j := by
    rw [advance, if_pos (by omega)]
    omega
  revert hm
  refine coreReceive_cases (motive := fun r => .sendto d q ∈ r.2 → q.cumSeq = advance k j)
    ?_ ?_ ?_ ?_ ?_ ?_
  · intro hold hm
    obtain ⟨-, rfl⟩ := RcvEffect.sendto.inj (List.mem_singleton.mp hm)
    rw [advance, if_neg (by omega)]
    exact hcum
  · intro hj _ hm
    obtain ⟨-, rfl⟩ := RcvEffect.sendto.inj (List.mem_singleton.mp hm)
    exact hnext hj
  · intro g hj _ _ hm
    obtain ⟨-, rfl⟩ : d = a' ∧ q = _ := by simpa using hm
    exact hnext hj
  · intro g hj _ _ hm
    obtain ⟨-, rfl⟩ : d = a' ∧ q = _ := by simpa using hm
    exact hnext hj
  · intro _ _ _ hm
    obtain ⟨i, -, hi⟩ := List.mem_map.mp hm
    obtain ⟨-, rfl⟩ := RcvEffect.sendto.inj hi
    cases hq
  · intro _ _ hm
    simp at hm

theorem Matches.rcvDo (h : Matches env s w) {e : RcvEvent} {w' : SlidingWindow}
    (hreach : env.Reaches w w') (hw' : w' = { w with got := k })
    (hl : Linked env (s.rcvDo env e) w.base w.next k)
    (hacks : ∀ q, .sendto env.addr q ∈ (rcvStep s.rcv e).2 → q.isNack = false →
      q.cumSeq = (k : ℤ)) :
    ∃ w', env.Reaches w w' ∧ Matches env (s.rcvDo env e) w' := by
  subst hw'
  refine ⟨_, hreach.tail .acknowledge, hl, h.data, ?_, h.returned⟩
  intro q hq hnack
  rcases List.mem_append.mp hq with hq | hq
  · obtain ⟨a, ha, hqa⟩ := h.acks q hq hnack
    exact ⟨a, Set.mem_insert_of_mem _ ha, hqa⟩
  · exact ⟨k, Set.mem_insert _ _, hacks q (mem_acksTo.mp hq) hnack⟩

theorem Matches.deliver (h : Matches env s w) (hj : j ∈ w.data) (h1 : 1 ≤ j) (hjn : j < w.next)
    (junk : AckPkt) : ∃ w', env.Reaches w w' ∧
      Matches env (s.rcvDo env (.datagram env.addr (ncpPkt env j) junk)) w' := by
  have hcar := carries_of_lt h.linked h1 hjn
  refine h.rcvDo (.single (.receive hj)) rfl (h.linked.deliver h1 hjn) fun q hq hnack => ?_
  obtain ⟨d, hd, -, heq⟩ := h.linked.transfer.coreRecv_eq hcar junk
  rw [out_core h.linked.ok, coreStep, heq] at hq
  rcases List.mem_append.mp hq with hq | hq
  · split_ifs at hq <;> simp at hq
  · exact hd.acks_eq hcar hq hnack

theorem Matches.rcvTimeout (h : Matches env s w) (hd : s.rcv.done = false) (junk : AckPkt) :
    ∃ w', env.Reaches w w' ∧ Matches env (s.rcvDo env (.timeout junk)) w' := by
  refine h.rcvDo .refl rfl (h.linked.rcvTimeout hd) fun q hq _ => ?_
  have hdc : s.rcv.core.done = false := hd
  rw [out_core h.linked.ok] at hq
  simp only [coreStep, coreTimeout, hdc, Bool.false_eq_true, ↓reduceIte, List.mem_map] at hq
  obtain ⟨head, -, heq⟩ := hq
  obtain ⟨-, rfl⟩ := RcvEffect.sendto.inj heq
  exact h.linked.transfer.cumSeq

-- ---------------------------------------------------------------------------
-- Steps and runs
-- ---------------------------------------------------------------------------

theorem Matches.step (h : Matches env s w)
    (hw : SlidingWindow.Agreed env.width (lastChunk env.src) w) {e : NetEvent}
    (he : BeforeSwitch s e) :
    ∃ w', env.Reaches w w' ∧ Matches env (netStep env s e) w' := by
  cases e with
  | ncpTimeout => exact h.ncpDo fun q hq => by cases hq
  | rcvTimeout junk => exact h.rcvTimeout he junk
  | deliverRcv i junk =>
    cases hp : s.toRcv[i]? with
    | none =>
      simp only [netStep, hp]
      exact ⟨w, .refl, h⟩
    | some p =>
      simp only [netStep, hp]
      have hmem := List.mem_of_getElem? hp
      obtain ⟨j, hj, rfl⟩ := h.data p hmem
      have h' := h.channels (Channel.lose s.toRcv i) s.toNcp
        (fun p => Channel.mem_of_mem_lose) fun q hq => hq
      obtain ⟨h1, hjn⟩ := hw.data j hj
      exact h'.deliver hj h1 hjn junk
  | deliverNcp i =>
    cases hq : s.toNcp[i]? with
    | none =>
      simp only [netStep, hq]
      exact ⟨w, .refl, h⟩
    | some q =>
      simp only [netStep, hq]
      have hmem := List.mem_of_getElem? hq
      have h' := h.channels s.toRcv (Channel.lose s.toNcp i)
        (fun p hp => hp) fun q => Channel.mem_of_mem_lose
      refine h'.ncpDo fun q' hq' => ?_
      obtain rfl := NcpEvent.ack.inj hq'
      exact ⟨h.linked.acks q hmem, h.acks q hmem⟩
  | loseRcv i =>
    exact ⟨w, .refl, h.channels _ _ (fun p => Channel.mem_of_mem_lose) fun q hq => hq⟩
  | loseNcp i =>
    exact ⟨w, .refl, h.channels _ _ (fun p hp => hp) fun q => Channel.mem_of_mem_lose⟩
  | duplicateRcv i =>
    exact ⟨w, .refl, h.channels _ _ (fun p => Channel.mem_of_mem_duplicate) fun q hq => hq⟩
  | duplicateNcp i =>
    exact ⟨w, .refl, h.channels _ _ (fun p hp => hp) fun q => Channel.mem_of_mem_duplicate⟩

theorem matches_run (hname : env.NameFits) (buf : NetPkt) {es : List NetEvent}
    (hrun : Along (netStep env) BeforeSwitch (.init env buf) es) :
    ∃ w, env.Reaches .init w ∧ Matches env (es.foldl (netStep env) (.init env buf)) w :=
  hrun.inv (I := fun s => ∃ w, env.Reaches .init w ∧ Matches env s w)
    ⟨.init, .refl, matches_init hname buf⟩ fun _ _ ⟨_, hreach, h⟩ he => by
      obtain ⟨w', hstep, h'⟩ := h.step (SlidingWindow.agreed_of_reaches hreach) he
      exact ⟨w', hreach.trans hstep, h'⟩

/-- Up to the switch, and for a destination name that fits, every run of the two programs
and the network between them is one of the protocol: the sender's window is the
protocol's, and so are the receiver's count, the numbers in flight and the end of the
transfer. What was written is what the protocol's receiver got, so it is all of the
source once the sender has returned. -/
theorem transfer_refines_window (env : NcpEnv) (hname : env.NameFits) (buf : NetPkt)
    (es : List NetEvent)
    (hrun : Along (netStep env) BeforeSwitch (.init env buf) es) :
    let s := es.foldl (netStep env) (.init env buf)
    ∃ w, SlidingWindow.Reaches env.width (lastChunk env.src) .init w ∧
      (s.ncp.window = pkts env w.base w.next ∧ s.ncp.pktCnt = w.next) ∧ s.rcv.cumSeq = w.got ∧
      (∀ p ∈ s.toRcv, ∃ j ∈ w.data, p = ncpPkt env j) ∧
      (∀ q ∈ s.toNcp, q.isNack = false → ∃ a ∈ w.acks, q.cumSeq = a) ∧
      (s.ncp.status = .returned ↔ w.returned = true) ∧
      written env.dFname s.log = chunks env.src w.got ∧
      (s.ncp.status = .returned → written env.dFname s.log = env.src) := by
  intro s
  obtain ⟨w, hreach, h⟩ := matches_run hname buf hrun
  have hsend := h.linked.sending
  refine ⟨w, hreach, ⟨hsend.window, hsend.pktCnt⟩, h.linked.transfer.cumSeq, h.data, h.acks,
    h.returned, h.linked.written, fun hr => ?_⟩
  have hgot := (SlidingWindow.agreed_of_reaches hreach).returned (h.returned.mp hr)
  rw [h.linked.written, hgot]
  exact chunks_lastChunk env.src

/-- The acknowledgment of the first packet is lost, and comes again with a timeout. -/
theorem transfer_refines_window_lost :
    let env : NcpEnv := ⟨true, .replicate (2 * pktDtSize) 7, ⟨[97], by decide⟩, 1, ⟨1, 5⟩,
      fun _ => fullPkt [] 0 0 false, false⟩
    let es : List NetEvent := [.ncpTimeout, .deliverRcv 0 ⟨0, 0, false⟩, .loseNcp 0,
      .rcvTimeout ⟨0, 0, false⟩, .deliverNcp 0]
    let s := es.foldl (netStep env) (.init env (fullPkt [] 0 0 false))
    s.ncp.window.map (·.seq) = [2] ∧
      ∃ w, env.Reaches .init w ∧ s.ncp.window = pkts env w.base w.next ∧ w.got = 1 := by
  intro env es s
  have hwin : s.ncp.window.map (·.seq) = [2] := by decide +kernel
  have hcum : s.rcv.cumSeq = 1 := by decide +kernel
  have hrun : Along (netStep env) BeforeSwitch (.init env (fullPkt [] 0 0 false)) es := by
    refine ⟨trivial, trivial, trivial, ?_, trivial, trivial⟩
    show RcvState.done _ = false
    decide +kernel
  have hs : es.foldl (netStep env) (.init env (fullPkt [] 0 0 false)) = s := rfl
  clear_value s
  obtain ⟨w, hreach, ⟨hwindow, -⟩, hgot, -⟩ := transfer_refines_window env (by decide) _ es hrun
  rw [hs] at hwindow hgot
  rw [hcum] at hgot
  exact ⟨hwin, w, hreach, hwindow, by omega⟩

end Wan.Proj1
