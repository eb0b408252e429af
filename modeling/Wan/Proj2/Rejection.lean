import Wan.Proj2.Requests

/-!
# Who is told to leave

One server, any number of receivers at their addresses, and the network between
them. A refusal is told from other packets by its number alone, and two others
can have that number: the reply to an accepted client, whose number the server
does not set, and the datagram that was given it in its turn. In a run in which
neither is sent, a receiver leaves only on a refusal.
-/

namespace Wan.Proj2

open Posix Lib

structure RtNets (ι : Type) where
  srv : RtSrvState
  rcv : ι → RtRcvState
  toRcv : List RtSrvEffect
  /-- With the address of the sender. -/
  toSrv : List (SockaddrIn × AckPkt)

inductive RtNetsEvent (ι : Type)
  /-- A pass of the server, with the index of the message it reads, if any. -/
  | srvPass (i : Option ℕ) (app : Option Bytes) (now : ℤ) (fresh : NetPkt)
  /-- A receiver is handed the datagram at an index, if it has its address. -/
  | deliverRcv (r : ι) (i : ℕ) (clock : ℕ → ℤ)
  | rcvTimeout (r : ι) (clock : ℕ → ℤ)
  | loseRcv (i : ℕ)
  | loseSrv (i : ℕ)
  | duplicateRcv (i : ℕ)
  | duplicateSrv (i : ℕ)

variable {ι : Type}

def RtNets.init (ι : Type) (sinPort : UInt16) : RtNets ι where
  srv := .init sinPort
  rcv := fun _ => .init
  toRcv := []
  toSrv := []

def RtNets.read (s : RtNets ι) (i : Option ℕ) : ClientInput :=
  match i.bind (s.toSrv[·]?) with
  | none => .idle
  | some (src, p) => .msg src p

def RtNets.srvDo (s : RtNets ι) (e : RtSrvEvent) : RtNets ι :=
  { s with
    srv := (rtSrvStep s.srv e).1
    toRcv := s.toRcv ++ (rtSrvStep s.srv e).2 }

def RtNets.rcvDo [DecidableEq ι] (addr : ι → SockaddrIn) (s : RtNets ι) (r : ι) (e : RtRcvEvent) :
    RtNets ι :=
  { s with
    rcv := Function.update s.rcv r (rtRcvStep (s.rcv r) e).1
    toSrv := s.toSrv ++ (acksOf (rtRcvStep (s.rcv r) e).2).map (addr r, ·) }

def rtNetsStep [DecidableEq ι] (addr : ι → SockaddrIn) (s : RtNets ι) : RtNetsEvent ι → RtNets ι
  | .srvPass i app now fresh =>
    { s with toSrv := i.elim s.toSrv (Channel.lose s.toSrv) }.srvDo ⟨s.read i, app, now, fresh⟩
  | .deliverRcv r i clock =>
    match s.toRcv[i]? with
    | none => s
    | some o =>
      if o.dst = addr r then
        { s with toRcv := Channel.lose s.toRcv i }.rcvDo addr r (.recv o.pkt clock)
      else s
  | .rcvTimeout r clock => s.rcvDo addr r (.timeout clock)
  | .loseRcv i => { s with toRcv := Channel.lose s.toRcv i }
  | .loseSrv i => { s with toSrv := Channel.lose s.toSrv i }
  | .duplicateRcv i => { s with toRcv := Channel.duplicate s.toRcv i }
  | .duplicateSrv i => { s with toSrv := Channel.duplicate s.toSrv i }

/-- The pass of the server replies to no request with a packet whose memory holds
the number of a refusal, and is not asked for the datagram with that number. -/
def Distinct (s : RtNets ι) : RtNetsEvent ι → Prop
  | .srvPass i _ _ fresh =>
    match s.read i with
    | .msg src p =>
      (p.seq = 0 → s.srv.currClientAddr.sAddr = 0 ∨ src = s.srv.currClientAddr →
          fresh.seq ≠ blockedSeq) ∧
        (p.isNack = true → p.seq = blockedSeq → blockedSeq ∉ s.srv.window.keys)
    | _ => True
  | _ => True

instance (s : RtNets ι) (e : RtNetsEvent ι) : Decidable (Distinct s e) := by
  unfold Distinct
  split
  · split <;> infer_instance
  · infer_instance

variable {s : RtNets ι} {addr : ι → SockaddrIn} {e : RtNetsEvent ι}

structure Unambiguous (s : RtNets ι) : Prop where
  number : ∀ k q, s.srv.window.find? k = some q → q.seq = k
  refusal : ∀ o ∈ s.toRcv, o.pkt.seq = blockedSeq → ∃ p, o = .reject o.dst p

theorem unambiguous_init (sinPort : UInt16) : Unambiguous (.init ι sinPort) where
  number := fun k q h => by simp [RtNets.init, RtSrvState.init] at h
  refusal := fun _ ho => absurd ho List.not_mem_nil

theorem Unambiguous.channels (h : Unambiguous s) {toRcv : List RtSrvEffect}
    {toSrv : List (SockaddrIn × AckPkt)} (hr : ∀ o ∈ toRcv, o ∈ s.toRcv) :
    Unambiguous { s with toRcv := toRcv, toSrv := toSrv } where
  number := h.number
  refusal := fun o ho => h.refusal o (hr o ho)

theorem Unambiguous.srvDo (h : Unambiguous s) {a : RtSrvEvent}
    (hreply : ∀ src p, a.client = .msg src p → p.seq = 0 →
      s.srv.currClientAddr.sAddr = 0 ∨ src = s.srv.currClientAddr → a.fresh.seq ≠ blockedSeq)
    (hdata : ∀ src p, a.client = .msg src p → p.isNack = true → p.seq = blockedSeq →
      blockedSeq ∉ s.srv.window.keys) : Unambiguous (s.srvDo a) where
  number := number_rtSrvStep h.number a
  refusal := by
    intro o ho hseq
    rcases List.mem_append.mp ho with ho | ho
    · exact h.refusal o ho hseq
    cases o with
    | reject dst q => exact ⟨q, rfl⟩
    | reply dst q =>
      obtain ⟨p, hp, h0, rfl, hacc⟩ := (rtSrvStep_phaseI s.srv a).1 dst q ho
      exact absurd hseq (hreply dst p hp h0 (or_iff_not_imp_left.mpr hacc))
    | data dst q =>
      obtain ⟨p, hp, hn, hw⟩ := rtSrvStep_data ho
      have hp' : p.seq = blockedSeq := (h.number _ _ hw).symm.trans hseq
      exact absurd (hp' ▸ OrdMap.mem_keys.mpr ⟨q, hw⟩) (hdata dst p hp hn hp')

theorem Unambiguous.step [DecidableEq ι] (h : Unambiguous s) (he : Distinct s e) :
    Unambiguous (rtNetsStep addr s e) := by
  cases e with
  | srvPass i app now fresh =>
    refine (h.channels fun _ ho => ho).srvDo (fun src p hp => ?_) (fun src p hp => ?_)
    · have hp' : s.read i = .msg src p := hp
      simp only [Distinct, hp'] at he
      exact he.1
    · have hp' : s.read i = .msg src p := hp
      simp only [Distinct, hp'] at he
      exact he.2
  | deliverRcv r i clock =>
    simp only [rtNetsStep]
    cases ho : s.toRcv[i]? with
    | none => exact h
    | some o =>
      dsimp only
      split_ifs
      · exact ⟨h.number, fun o' ho' => h.refusal o' (Channel.mem_of_mem_lose ho')⟩
      · exact h
  | rcvTimeout r clock => exact ⟨h.number, h.refusal⟩
  | loseRcv i => exact h.channels fun _ => Channel.mem_of_mem_lose
  | loseSrv i => exact h.channels fun _ ho => ho
  | duplicateRcv i => exact h.channels fun _ => Channel.mem_of_mem_duplicate
  | duplicateSrv i => exact h.channels fun _ ho => ho

/-- A receiver leaves in a pass that reads the number of a refusal, and in no
other. -/
theorem exited_rtRcvStep {r : RtRcvState} {a : RtRcvEvent} (hx : r.exited = false)
    (h : (rtRcvStep r a).1.exited = true) :
    ∃ pkt clock, a = .recv pkt clock ∧ pkt.seq = blockedSeq := by
  revert h
  refine rtRcvStep_cases (motive := fun t => t.1.exited = true →
    ∃ pkt clock, a = .recv pkt clock ∧ pkt.seq = blockedSeq) ?_ ?_ ?_ ?_ ?_
  · exact fun h => absurd (hx.symm.trans h) Bool.false_ne_true
  · exact fun pkt clock ha hb _ => ⟨pkt, clock, ha, hb⟩
  · exact fun _ _ _ _ _ h => absurd (hx.symm.trans h) Bool.false_ne_true
  · intro pkt clock _ hx' _ _ t h
    have ht : t.1.exited = r.exited := by
      simp only [t, phaseII]
      split_ifs <;> rfl
    exact absurd (ht.symm.trans h) (by simp [hx'])
  · exact fun _ _ h => absurd (hx.symm.trans h) Bool.false_ne_true

theorem exited_rcvDo [DecidableEq ι] {r r' : ι} {a : RtRcvEvent} (hx : (s.rcv r).exited = false)
    (h : ((s.rcvDo addr r' a).rcv r).exited = true) :
    r' = r ∧ ∃ pkt clock, a = .recv pkt clock ∧ pkt.seq = blockedSeq := by
  simp only [RtNets.rcvDo] at h
  by_cases hr : r = r'
  · subst hr
    rw [Function.update_self] at h
    exact ⟨rfl, exited_rtRcvStep hx h⟩
  · rw [Function.update_of_ne hr] at h
    exact absurd (hx.symm.trans h) Bool.false_ne_true

theorem exited_rtNetsStep [DecidableEq ι] {r : ι} (hx : (s.rcv r).exited = false)
    (h : ((rtNetsStep addr s e).rcv r).exited = true) :
    ∃ i clock o, e = .deliverRcv r i clock ∧ s.toRcv[i]? = some o ∧ o.dst = addr r ∧
      o.pkt.seq = blockedSeq := by
  have hsame : (s.rcv r).exited = true → False := fun h =>
    absurd (hx.symm.trans h) Bool.false_ne_true
  cases e with
  | deliverRcv r' i clock =>
    simp only [rtNetsStep] at h
    cases ho : s.toRcv[i]? with
    | none =>
      rw [ho] at h
      exact (hsame h).elim
    | some o =>
      rw [ho] at h
      dsimp only at h
      split_ifs at h with hdst
      · obtain ⟨rfl, pkt, clock', heq, hb⟩ :=
          exited_rcvDo (s := { s with toRcv := Channel.lose s.toRcv i }) hx h
        obtain ⟨rfl, -⟩ := RtRcvEvent.recv.inj heq
        exact ⟨i, clock, o, rfl, ho, hdst, hb⟩
      · exact (hsame h).elim
  | rcvTimeout r' clock =>
    obtain ⟨-, pkt, clock', heq, -⟩ := exited_rcvDo hx h
    cases heq
  | srvPass i app now fresh => exact (hsame h).elim
  | loseRcv i => exact (hsame h).elim
  | loseSrv i => exact (hsame h).elim
  | duplicateRcv i => exact (hsame h).elim
  | duplicateSrv i => exact (hsame h).elim

/-- In every run in which the server sends no reply and no datagram with the number
of a refusal, a receiver that leaves as blocked was just handed a refusal that the
server sent to it. -/
theorem exits_only_on_reject [DecidableEq ι] (addr : ι → SockaddrIn) (sinPort : UInt16)
    (es : List (RtNetsEvent ι)) (h : Along (rtNetsStep addr) Distinct (.init ι sinPort) es) :
    ∀ past e rest, es = past ++ e :: rest →
      let s := past.foldl (rtNetsStep addr) (.init ι sinPort)
      ∀ r, (s.rcv r).exited = false → ((rtNetsStep addr s e).rcv r).exited = true →
        ∃ i clock p, e = .deliverRcv r i clock ∧ s.toRcv[i]? = some (.reject (addr r) p) := by
  rintro past e rest rfl s r hx hx'
  have hinv : Unambiguous s :=
    (along_append.mp h).1.inv (unambiguous_init sinPort) fun s e hs he => hs.step he
  obtain ⟨i, clock, o, he, ho, hdst, hseq⟩ := exited_rtNetsStep hx hx'
  obtain ⟨p, hp⟩ := hinv.refusal o (List.mem_of_getElem? ho) hseq
  exact ⟨i, clock, p, he, by rw [ho, hp, hdst]⟩

/-- Of two receivers, the second to ask is refused and leaves. -/
theorem exits_only_on_reject_second :
    let addr : Bool → SockaddrIn := fun r => if r then ⟨2, 6⟩ else ⟨1, 5⟩
    let past : List (RtNetsEvent Bool) := [.rcvTimeout false fun _ => 0,
      .srvPass (some 0) none 0 zeroPkt, .rcvTimeout true fun _ => 0,
      .srvPass (some 79) none 0 zeroPkt]
    let s := past.foldl (rtNetsStep addr) (.init Bool 0)
    (s.rcv true).exited = false ∧
      ((rtNetsStep addr s (.deliverRcv true 1 fun _ => 0)).rcv true).exited = true ∧
      ∃ i clock p, RtNetsEvent.deliverRcv true 1 (fun _ => 0) = .deliverRcv true i clock ∧
        s.toRcv[i]? = some (.reject (addr true) p) := by
  intro addr past s
  have hx : (s.rcv true).exited = false := by decide +kernel
  have hx' : ((rtNetsStep addr s (.deliverRcv true 1 fun _ => 0)).rcv true).exited = true := by
    decide +kernel
  exact ⟨hx, hx', exits_only_on_reject addr 0 (past ++ [.deliverRcv true 1 fun _ => 0])
    (by decide +kernel) past (.deliverRcv true 1 fun _ => 0) [] rfl true hx hx'⟩

/-- The memory of the first reply holds the number of a refusal: the accepted
receiver leaves. -/
theorem accepted_client_exits :
    let past : List (RtNetsEvent Unit) := [.rcvTimeout () fun _ => 0,
      .srvPass (some 0) none 0 { zeroPkt with seq := 0xffffffff }]
    let s := past.foldl (rtNetsStep fun _ => ⟨1, 5⟩) (.init Unit 0)
    (s.rcv ()).exited = false ∧
      ((rtNetsStep (fun _ => ⟨1, 5⟩) s (.deliverRcv () 0 fun _ => 0)).rcv ()).exited = true ∧
      s.toRcv = [.reply ⟨1, 5⟩ { zeroPkt with seq := 0xffffffff }] := by
  decide +kernel

end Wan.Proj2
