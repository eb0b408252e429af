import Wan.Proj1.NcpWindow
import Wan.Proj1.Transfer
import Wan.Lib.Channel

/-!
# One sender, one receiver and the network between them

Each step is a timeout of one program, the delivery of one datagram in flight,
or the network losing or duplicating one. Any datagram may be the next one to be
delivered, so delay and reordering are a choice of index. The log records what
the receiver did.

`Linked` is what every run keeps, up to the timeout that ends the transfer at
the receiver: the sender's window, the receiver's count and every datagram in
flight agree.
-/

namespace Wan.Proj1

open Posix Lib

structure Net where
  ncp : NcpState
  rcv : RcvState
  toRcv : List NetPkt
  toNcp : List AckPkt
  log : List RcvEffect

def Net.init (env : NcpEnv) (buf : NetPkt) : Net where
  ncp := .init env
  rcv := .init buf
  toRcv := []
  toNcp := []
  log := []

inductive NetEvent
  | ncpTimeout
  | rcvTimeout (junk : AckPkt)
  | deliverRcv (i : ℕ) (junk : AckPkt)
  | deliverNcp (i : ℕ)
  | loseRcv (i : ℕ)
  | loseNcp (i : ℕ)
  | duplicateRcv (i : ℕ)
  | duplicateNcp (i : ℕ)
  deriving DecidableEq

def acksTo (a : SockaddrIn) (out : List RcvEffect) : List AckPkt :=
  out.filterMap fun
    | .sendto dst p => if dst = a then some p else none
    | _ => none

def Net.ncpDo (env : NcpEnv) (s : Net) (e : NcpEvent) : Net :=
  { s with
    ncp := (ncpStep env s.ncp e).1
    toRcv := s.toRcv ++ (ncpStep env s.ncp e).2 }

def Net.rcvDo (env : NcpEnv) (s : Net) (e : RcvEvent) : Net :=
  { s with
    rcv := (rcvStep s.rcv e).1
    toNcp := s.toNcp ++ acksTo env.addr (rcvStep s.rcv e).2
    log := s.log ++ (rcvStep s.rcv e).2 }

def netStep (env : NcpEnv) (s : Net) : NetEvent → Net
  | .ncpTimeout => s.ncpDo env .timeout
  | .rcvTimeout junk => s.rcvDo env (.timeout junk)
  | .deliverRcv i junk =>
    match s.toRcv[i]? with
    | none => s
    | some p => { s with toRcv := Channel.lose s.toRcv i }.rcvDo env (.datagram env.addr p junk)
  | .deliverNcp i =>
    match s.toNcp[i]? with
    | none => s
    | some q => { s with toNcp := Channel.lose s.toNcp i }.ncpDo env (.ack q)
  | .loseRcv i => { s with toRcv := Channel.lose s.toRcv i }
  | .loseNcp i => { s with toNcp := Channel.lose s.toNcp i }
  | .duplicateRcv i => { s with toRcv := Channel.duplicate s.toRcv i }
  | .duplicateNcp i => { s with toNcp := Channel.duplicate s.toNcp i }

/-- The receiver's timeout branch does not fire with `done == 1`. -/
def BeforeSwitch (s : Net) : NetEvent → Prop
  | .rcvTimeout _ => s.rcv.done = false
  | _ => True

/-- The contents of the file `f` after the receiver did `log`, from what was on
the disk before. -/
def fileAfter (f : Fname) (disk : Option Bytes) (log : List RcvEffect) : Option Bytes :=
  log.foldl (fun file e => match e with
    | .openFile g => if g = f then some [] else file
    | .write g bytes => if g = f then file.map (· ++ bytes) else file
    | _ => file) disk

variable {env : NcpEnv} {s : Net} {f : Fname} {disk : Option Bytes} {out : List RcvEffect}

theorem fileAfter_append (log out : List RcvEffect) :
    fileAfter f disk (log ++ out) = fileAfter f (fileAfter f disk log) out := List.foldl_append

theorem fileAfter_openFile (out : List RcvEffect) :
    fileAfter f disk (.openFile f :: out) = fileAfter f (some []) out := by
  simp [fileAfter]

theorem fileAfter_of_not_open (h : ∀ g, .openFile g ∉ out) :
    fileAfter f disk out = disk.map (· ++ written f out) := by
  induction out generalizing disk with
  | nil => simp [fileAfter]
  | cons e out ih =>
    have hout : ∀ g, .openFile g ∉ out := fun g hg => h g (List.mem_cons_of_mem _ hg)
    show fileAfter f _ out = _
    rw [ih hout]
    cases e with
    | sendto d q => rfl
    | openFile g => exact absurd List.mem_cons_self (h g)
    | close g => rfl
    | write g bytes =>
      by_cases hg : g = f
      · cases disk <;> simp [hg]
      · cases disk <;> simp [hg, written]

-- ---------------------------------------------------------------------------
-- What the parties and the datagrams in flight agree on
-- ---------------------------------------------------------------------------

variable {b n k j : ℕ} {junk : AckPkt}

/-- The sender's window is `b, …, n - 1` and the receiver has chunks `1..k`. -/
structure Linked (env : NcpEnv) (s : Net) (b n k : ℕ) : Prop where
  sending : Sending env s.ncp b n
  ok : s.rcv.core.Ok
  transfer : InTransfer env.addr env.src env.dFname s.rcv.core k
  lo : b ≤ k + 1
  hi : k < n
  data : ∀ p ∈ s.toRcv, ∃ j, 1 ≤ j ∧ j < n ∧ p = ncpPkt env j
  acks : ∀ q ∈ s.toNcp, Promises k q
  written : written env.dFname s.log = chunks env.src k
  opened : .openFile env.dFname.1 ∈ s.log ↔ s.rcv.rcvStart = true
  file : s.rcv.rcvStart = true →
    ∀ disk, fileAfter env.dFname disk s.log = some (chunks env.src k)
  only : ∀ e ∈ s.log, e.file? = none ∨ e.file? = some env.dFname.1
  returned : s.ncp.status = .returned → k = lastChunk env.src

theorem linked_init (hname : env.NameFits) (buf : NetPkt) : Linked env (.init env buf) 1 1 0 where
  sending := sending_init hname
  ok := RcvCore.ok_init buf
  transfer := .inl ⟨⟨.inl rfl, rfl, RcvCore.ok_init buf⟩, rfl⟩
  lo := le_rfl
  hi := Nat.zero_lt_one
  data := by simp [Net.init]
  acks := by simp [Net.init]
  written := rfl
  opened := by simp [Net.init, RcvState.init]
  file := fun h => nomatch h
  only := by simp [Net.init]
  returned := fun h => nomatch h

theorem Linked.channels (h : Linked env s b n k) (toRcv : List NetPkt) (toNcp : List AckPkt)
    (hr : ∀ p ∈ toRcv, p ∈ s.toRcv) (hn : ∀ q ∈ toNcp, q ∈ s.toNcp) :
    Linked env { s with toRcv := toRcv, toNcp := toNcp } b n k where
  sending := h.sending
  ok := h.ok
  transfer := h.transfer
  lo := h.lo
  hi := h.hi
  data := fun p hp => h.data p (hr p hp)
  acks := fun q hq => h.acks q (hn q hq)
  written := h.written
  opened := h.opened
  file := h.file
  only := h.only
  returned := h.returned

theorem Linked.last (h : Linked env s b n k) : k ≤ lastChunk env.src := by
  have := h.hi
  have := h.sending.last
  omega

theorem Linked.ncpDo (h : Linked env s b n k) {e : NcpEvent}
    (he : ∀ q, e = .ack q → Promises k q) : ∃ b' n', Linked env (s.ncpDo env e) b' n' k := by
  obtain ⟨b', n', hs, hle, hout, hfront, hret⟩ := h.sending.step e
  have hlo := h.lo
  have hhi := h.hi
  refine ⟨b', n', {
    sending := hs
    ok := h.ok
    transfer := h.transfer
    lo := ?_
    hi := by omega
    data := ?_
    acks := h.acks
    written := h.written
    opened := h.opened
    file := h.file
    only := h.only
    returned := ?_ }⟩
  · rcases hfront with rfl | ⟨q, rfl, hq, hb⟩
    · exact hlo
    · have := (he q rfl).2 hq
      omega
  · intro p hp
    rcases List.mem_append.mp hp with hp | hp
    · obtain ⟨j, h1, h2, rfl⟩ := h.data p hp
      exact ⟨j, h1, by omega, rfl⟩
    · exact hout p hp
  · intro hr
    rcases hret hr with hr | ⟨q, rfl, hq, hb⟩
    · exact h.returned hr
    · have := (he q rfl).2 hq
      have := h.last
      omega

theorem mem_acksTo {a : SockaddrIn} {q : AckPkt} : q ∈ acksTo a out ↔ .sendto a q ∈ out := by
  simp only [acksTo, List.mem_filterMap]
  constructor
  · rintro ⟨e, he, hq⟩
    cases e with
    | sendto d p =>
      dsimp only at hq
      split_ifs at hq with hd
      obtain rfl := Option.some.inj hq
      rwa [← hd]
    | openFile _ => simp at hq
    | write _ _ => simp at hq
    | close _ => simp at hq
  · intro hm
    exact ⟨_, hm, by simp⟩

theorem carries_of_lt (h : Linked env s b n k) (h1 : 1 ≤ j) (hj : j < n) :
    Carries env.src env.dFname j (ncpPkt env j) :=
  carries_ncpPkt h.sending.fits h1 (by have := h.sending.last; omega)

theorem Linked.rcvDo (h : Linked env s b n k) {e : RcvEvent} {k' : ℕ}
    (hk : k ≤ k') (hn : k' < n)
    (ht : InTransfer env.addr env.src env.dFname (coreStep s.rcv.core e).1 k')
    (hacks : ∀ q, .sendto env.addr q ∈ (coreStep s.rcv.core e).2 → Promises k' q)
    (hw : chunks env.src k ++ Proj1.written env.dFname (coreStep s.rcv.core e).2 =
      chunks env.src k')
    (hopen : .openFile env.dFname.1 ∈ s.log ++ (coreStep s.rcv.core e).2 ↔
      (coreStep s.rcv.core e).1.rcvStart = true)
    (hfile : (coreStep s.rcv.core e).1.rcvStart = true → ∀ disk,
      fileAfter env.dFname disk (s.log ++ (coreStep s.rcv.core e).2) = some (chunks env.src k'))
    (honly : ∀ x ∈ (coreStep s.rcv.core e).2, x.file? = none ∨ x.file? = some env.dFname.1) :
    Linked env (s.rcvDo env e) b n k' := by
  have hcore : (rcvStep s.rcv e).1.core = (coreStep s.rcv.core e).1 := next_core h.ok e
  have hout := out_core h.ok e
  have hstart : (rcvStep s.rcv e).1.rcvStart = (coreStep s.rcv.core e).1.rcvStart :=
    congrArg RcvCore.rcvStart hcore
  have hlo := h.lo
  refine {
    sending := h.sending
    ok := next_ok h.ok e
    transfer := hcore ▸ ht
    lo := by omega
    hi := hn
    data := h.data
    acks := ?_
    written := ?_
    opened := ?_
    file := ?_
    only := ?_
    returned := ?_ }
  · intro q hq
    rcases List.mem_append.mp hq with hq | hq
    · exact (h.acks q hq).mono hk
    · rw [mem_acksTo, hout] at hq
      exact hacks q hq
  · show Proj1.written _ (s.log ++ (rcvStep s.rcv e).2) = _
    rw [written_append, h.written, hout, hw]
  · show _ ∈ s.log ++ (rcvStep s.rcv e).2 ↔ (rcvStep s.rcv e).1.rcvStart = true
    rw [hout, hstart]
    exact hopen
  · show (rcvStep s.rcv e).1.rcvStart = true →
      ∀ disk, fileAfter _ disk (s.log ++ (rcvStep s.rcv e).2) = _
    rw [hout, hstart]
    exact hfile
  · intro x hx
    rcases List.mem_append.mp hx with hx | hx
    · exact h.only x hx
    · exact honly x (hout ▸ hx)
  · intro hr
    have := h.returned hr
    have := h.sending.last
    omega

theorem Linked.deliver (h : Linked env s b n k) (h1 : 1 ≤ j) (hj : j < n) :
    Linked env (s.rcvDo env (.datagram env.addr (ncpPkt env j) junk)) b n (advance k j) := by
  have hcar := carries_of_lt h h1 hj
  obtain ⟨d, hd, -, heq⟩ := h.transfer.coreRecv_eq hcar junk
  obtain ⟨hrec, hw, hacks⟩ := h.transfer.recv hcar junk
  have hcs : s.rcv.core.rcvStart = s.rcv.rcvStart := rfl
  -- only the first packet opens a file, and all file effects are on it
  have hfiles : ∀ e ∈ (coreReceive d (ncpPkt env j) env.addr junk).2,
      (∀ g, e ≠ .openFile g) ∧ (e.file? = none ∨ e.file? = d.pd) := fun e => coreReceive_file
  have hnot : ∀ g, .openFile g ∉ (coreReceive d (ncpPkt env j) env.addr junk).2 :=
    fun g hg => (hfiles _ hg).1 g rfl
  have hadd := chunks_advance env.src k j
  rw [← hw] at hadd
  refine h.rcvDo (le_advance k j) ?_ (.inr hrec) (fun q hq => (hacks _ q hq).2) hadd ?_ ?_ ?_
  · have := h.hi
    unfold advance
    split_ifs <;> omega
  · refine iff_of_true (List.mem_append.mpr ?_) hrec.started
    cases hs : s.rcv.rcvStart with
    | true => exact .inl (h.opened.mpr hs)
    | false =>
      right
      rw [coreStep, heq, hcs, hs]
      exact List.mem_cons_self
  · intro _ disk
    rw [fileAfter_append, ← hadd, coreStep, heq, hcs]
    cases hs : s.rcv.rcvStart with
    | true => simp [fileAfter_of_not_open hnot, h.file hs disk]
    | false =>
      -- nothing was written before the file is opened
      obtain rfl : k = 0 := h.transfer.eq_zero hs
      simp [fileAfter_openFile, fileAfter_of_not_open hnot, firstBlocks]
  · intro e he
    rw [coreStep, heq] at he
    rcases List.mem_append.mp he with he | he
    · split_ifs at he
      · simp at he
      · obtain rfl := List.mem_singleton.mp he
        exact .inr rfl
    · rcases (hfiles e he).2 with hf | hf
      · exact .inl hf
      · rw [hf, hd.pd]
        split_ifs
        · exact .inl rfl
        · exact .inr rfl

theorem Linked.rcvTimeout (h : Linked env s b n k) (hd : s.rcv.done = false) :
    Linked env (s.rcvDo env (.timeout junk)) b n k := by
  have hdc : s.rcv.core.done = false := hd
  have hcum := h.transfer.cumSeq
  have heq : coreStep s.rcv.core (.timeout junk) = (s.rcv.core,
      s.rcv.core.senderQ.head?.toList.map fun head =>
        .sendto head { junk with cumSeq := s.rcv.core.cumSeq }) := by
    simp [coreStep, coreTimeout, hdc]
  have hsend : ∀ x ∈ (coreStep s.rcv.core (.timeout junk)).2,
      ∃ d, x = .sendto d { junk with cumSeq := k } := by
    rw [heq, hcum]
    intro x hx
    obtain ⟨d, -, rfl⟩ := List.mem_map.mp hx
    exact ⟨d, rfl⟩
  have hnot : ∀ g, .openFile g ∉ (coreStep s.rcv.core (.timeout junk)).2 := by
    intro g hg
    obtain ⟨d, hd⟩ := hsend _ hg
    cases hd
  have hw : Proj1.written env.dFname (coreStep s.rcv.core (.timeout junk)).2 = [] := by
    refine List.flatMap_eq_nil_iff.mpr fun x hx => ?_
    obtain ⟨d, rfl⟩ := hsend x hx
    rfl
  have hcore : (coreStep s.rcv.core (.timeout junk)).1 = s.rcv.core := by rw [heq]
  refine h.rcvDo le_rfl h.hi (by rw [hcore]; exact h.transfer) ?_
    (by rw [hw, List.append_nil]) ?_ ?_ ?_
  · intro q hq
    obtain ⟨d, hdq⟩ := hsend _ hq
    obtain ⟨-, rfl⟩ := RcvEffect.sendto.inj hdq
    exact ⟨Int.natCast_nonneg k, fun _ => le_rfl⟩
  · rw [hcore, List.mem_append, or_iff_left (hnot _)]
    exact h.opened
  · rw [hcore]
    intro hs disk
    rw [fileAfter_append, h.file hs disk, fileAfter_of_not_open hnot, hw]
    simp
  · intro x hx
    obtain ⟨d, rfl⟩ := hsend x hx
    exact .inl rfl

theorem Linked.step (h : Linked env s b n k) {e : NetEvent} (he : BeforeSwitch s e) :
    ∃ b n k, Linked env (netStep env s e) b n k := by
  cases e with
  | ncpTimeout =>
    obtain ⟨b', n', h'⟩ := h.ncpDo (e := .timeout) fun q hq => nomatch hq
    exact ⟨b', n', k, h'⟩
  | rcvTimeout junk => exact ⟨b, n, k, h.rcvTimeout he⟩
  | deliverRcv i junk =>
    cases hp : s.toRcv[i]? with
    | none =>
      simp only [netStep, hp]
      exact ⟨b, n, k, h⟩
    | some p =>
      simp only [netStep, hp]
      obtain ⟨j, h1, hj, rfl⟩ := h.data p (List.mem_of_getElem? hp)
      have h' := h.channels (Channel.lose s.toRcv i) s.toNcp
        (fun p => Channel.mem_of_mem_lose) (fun q hq => hq)
      exact ⟨b, n, _, h'.deliver h1 hj⟩
  | deliverNcp i =>
    cases hq : s.toNcp[i]? with
    | none =>
      simp only [netStep, hq]
      exact ⟨b, n, k, h⟩
    | some q =>
      simp only [netStep, hq]
      have h' := h.channels s.toRcv (Channel.lose s.toNcp i)
        (fun p hp => hp) (fun q => Channel.mem_of_mem_lose)
      obtain ⟨b', n', h''⟩ := h'.ncpDo (e := .ack q) fun q' hq' => by
        obtain rfl := NcpEvent.ack.inj hq'
        exact h.acks q (List.mem_of_getElem? hq)
      exact ⟨b', n', k, h''⟩
  | loseRcv i => exact ⟨b, n, k, h.channels _ _ (fun p => Channel.mem_of_mem_lose) (fun q hq => hq)⟩
  | loseNcp i => exact ⟨b, n, k, h.channels _ _ (fun p hp => hp) (fun q => Channel.mem_of_mem_lose)⟩
  | duplicateRcv i =>
    exact ⟨b, n, k, h.channels _ _ (fun p => Channel.mem_of_mem_duplicate) (fun q hq => hq)⟩
  | duplicateNcp i =>
    exact ⟨b, n, k, h.channels _ _ (fun p hp => hp) (fun q => Channel.mem_of_mem_duplicate)⟩

theorem linked_run (hname : env.NameFits) (buf : NetPkt) {es : List NetEvent}
    (hrun : Along (netStep env) BeforeSwitch (.init env buf) es) :
    ∃ b n k, Linked env (es.foldl (netStep env) (.init env buf)) b n k :=
  hrun.inv (I := fun s => ∃ b n k, Linked env s b n k) ⟨1, 1, 0, linked_init hname buf⟩
    fun _ _ ⟨_, _, _, h⟩ he => h.step he

end Wan.Proj1
