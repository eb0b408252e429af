import Wan.Proj2.Cache
import Wan.Proj2.Delivery
import Wan.Lib.Channel

/-!
# One server, one receiver and the network between them

A step is a pass of one program, in which it may read any datagram in flight to
it, or the network losing or duplicating one. Datagrams to the receiver are kept
with the place in the server's code that sent them. `apps` are the datagrams the
server took from its application, so number `k` is the one at `k - 1`;
`delivered` are the packets the receiver handed to its own.
-/

namespace Wan.Proj2

open Posix Lib

structure RtNet where
  srv : RtSrvState
  rcv : RtRcvState
  toRcv : List RtSrvEffect
  toSrv : List AckPkt
  apps : List Bytes
  delivered : List NetPkt

def RtNet.init (sinPort : UInt16) : RtNet where
  srv := .init sinPort
  rcv := .init
  toRcv := []
  toSrv := []
  apps := []
  delivered := []

inductive RtNetEvent
  /-- A pass of the server, with the index of the message it reads, if any. -/
  | srvPass (i : Option ℕ) (app : Option Bytes) (now : ℤ) (fresh : NetPkt)
  /-- The receiver is handed the datagram at an index. -/
  | deliverRcv (i : ℕ) (clock : ℕ → ℤ)
  | rcvTimeout (clock : ℕ → ℤ)
  | loseRcv (i : ℕ)
  | loseSrv (i : ℕ)
  | duplicateRcv (i : ℕ)
  | duplicateSrv (i : ℕ)

def acksOf (out : List RtRcvEffect) : List AckPkt :=
  out.filterMap fun
    | .sendto p => some p
    | .deliver _ => none

def deliveriesOf (out : List RtRcvEffect) : List NetPkt :=
  out.filterMap fun
    | .sendto _ => none
    | .deliver p => some p

def RtNet.srvDo (s : RtNet) (e : RtSrvEvent) : RtNet :=
  { s with
    srv := (rtSrvStep s.srv e).1
    toRcv := s.toRcv ++ (rtSrvStep s.srv e).2
    apps := s.apps ++ accepted s.srv e }

def RtNet.rcvDo (s : RtNet) (e : RtRcvEvent) : RtNet :=
  { s with
    rcv := (rtRcvStep s.rcv e).1
    toSrv := s.toSrv ++ acksOf (rtRcvStep s.rcv e).2
    delivered := s.delivered ++ deliveriesOf (rtRcvStep s.rcv e).2 }

def rtNetStep (a : SockaddrIn) (s : RtNet) : RtNetEvent → RtNet
  | .srvPass i app now fresh =>
    match i with
    | none => s.srvDo ⟨.idle, app, now, fresh⟩
    | some i =>
      match s.toSrv[i]? with
      | none => s.srvDo ⟨.idle, app, now, fresh⟩
      | some p => { s with toSrv := Channel.lose s.toSrv i }.srvDo ⟨.msg a p, app, now, fresh⟩
  | .deliverRcv i clock =>
    match s.toRcv[i]? with
    | none => s
    | some o => { s with toRcv := Channel.lose s.toRcv i }.rcvDo (.recv o.pkt clock)
  | .rcvTimeout clock => s.rcvDo (.timeout clock)
  | .loseRcv i => { s with toRcv := Channel.lose s.toRcv i }
  | .loseSrv i => { s with toSrv := Channel.lose s.toSrv i }
  | .duplicateRcv i => { s with toRcv := Channel.duplicate s.toRcv i }
  | .duplicateSrv i => { s with toSrv := Channel.duplicate s.toSrv i }

variable {s : RtNet} {a : SockaddrIn} {e : RtNetEvent} {out : List RtRcvEffect}

theorem mem_acksOf {q : AckPkt} : q ∈ acksOf out ↔ .sendto q ∈ out := by
  simp only [acksOf, List.mem_filterMap]
  constructor
  · rintro ⟨o, ho, hq⟩
    cases o with
    | sendto p => rwa [← Option.some.inj hq]
    | deliver p => cases hq
  · exact fun h => ⟨_, h, rfl⟩

theorem mem_deliveriesOf {p : NetPkt} : p ∈ deliveriesOf out ↔ .deliver p ∈ out := by
  simp only [deliveriesOf, List.mem_filterMap]
  constructor
  · rintro ⟨o, ho, hp⟩
    cases o with
    | sendto q => cases hp
    | deliver q => rwa [← Option.some.inj hp]
  · exact fun h => ⟨_, h, rfl⟩

def AppFits : RtNetEvent → Prop
  | .srvPass _ app _ _ => Fits app
  | _ => True

def RcvReads (P : RtSrvEffect → Prop) (s : RtNet) : RtNetEvent → Prop
  | .deliverRcv i _ => ∀ o ∈ s.toRcv[i]?, P o
  | _ => True

instance RcvReads.decidable (P : RtSrvEffect → Prop) [DecidablePred P] (s : RtNet) :
    DecidablePred (RcvReads P s)
  | .deliverRcv i _ => inferInstanceAs (Decidable (∀ o ∈ s.toRcv[i]?, P o))
  | .srvPass _ _ _ _ => .isTrue trivial
  | .rcvTimeout _ => .isTrue trivial
  | .loseRcv _ => .isTrue trivial
  | .loseSrv _ => .isTrue trivial
  | .duplicateRcv _ => .isTrue trivial
  | .duplicateSrv _ => .isTrue trivial

def RtSrvEffect.isReply : RtSrvEffect → Bool
  | .reply _ _ => true
  | _ => false

/-- The number field of the replies, which the server does not set, reads 0. -/
def RepliesZero (s : RtNet) : Prop := ∀ o ∈ s.toRcv, o.isReply = true → o.pkt.seq = 0

instance : DecidablePred RepliesZero := fun s =>
  inferInstanceAs (Decidable (∀ o ∈ s.toRcv, o.isReply = true → o.pkt.seq = 0))

/-- Case analysis over a step: a pass of the server, which reads no message or one
in flight, a pass of the receiver, or less or more in flight. -/
theorem rtNetStep_cases {motive : RtNet → Prop}
    (srv : ∀ (toSrv : List AckPkt) client app now fresh, (∀ q ∈ toSrv, q ∈ s.toSrv) →
      (client = .idle ∨ ∃ p ∈ s.toSrv, client = .msg a p) → (∃ i, e = .srvPass i app now fresh) →
      motive ({ s with toSrv := toSrv }.srvDo ⟨client, app, now, fresh⟩))
    (recv : ∀ (toRcv : List RtSrvEffect) (i : ℕ) (clock : ℕ → ℤ) (o : RtSrvEffect),
      (∀ o' ∈ toRcv, o' ∈ s.toRcv) → e = .deliverRcv i clock → s.toRcv[i]? = some o →
      motive ({ s with toRcv := toRcv }.rcvDo (.recv o.pkt clock)))
    (timeout : ∀ clock, e = .rcvTimeout clock → motive (s.rcvDo (.timeout clock)))
    (network : ∀ (toRcv : List RtSrvEffect) (toSrv : List AckPkt), (∀ o ∈ toRcv, o ∈ s.toRcv) →
      (∀ q ∈ toSrv, q ∈ s.toSrv) → motive { s with toRcv := toRcv, toSrv := toSrv }) :
    motive (rtNetStep a s e) := by
  cases e with
  | srvPass i app now fresh =>
    cases i with
    | none => exact srv s.toSrv .idle app now fresh (fun _ h => h) (.inl rfl) ⟨none, rfl⟩
    | some i =>
      cases hp : s.toSrv[i]? with
      | none =>
        simp only [rtNetStep, hp]
        exact srv s.toSrv .idle app now fresh (fun _ h => h) (.inl rfl) ⟨some i, rfl⟩
      | some p =>
        simp only [rtNetStep, hp]
        exact srv _ (.msg a p) app now fresh (fun _ => Channel.mem_of_mem_lose)
          (.inr ⟨p, List.mem_of_getElem? hp, rfl⟩) ⟨some i, rfl⟩
  | deliverRcv i clock =>
    cases ho : s.toRcv[i]? with
    | none =>
      simp only [rtNetStep, ho]
      exact network s.toRcv s.toSrv (fun _ h => h) (fun _ h => h)
    | some o =>
      simp only [rtNetStep, ho]
      exact recv _ i clock o (fun _ => Channel.mem_of_mem_lose) rfl ho
  | rcvTimeout clock => exact timeout clock rfl
  | loseRcv i => exact network _ _ (fun _ => Channel.mem_of_mem_lose) (fun _ h => h)
  | loseSrv i => exact network _ _ (fun _ h => h) (fun _ => Channel.mem_of_mem_lose)
  | duplicateRcv i => exact network _ _ (fun _ => Channel.mem_of_mem_duplicate) (fun _ h => h)
  | duplicateSrv i => exact network _ _ (fun _ h => h) (fun _ => Channel.mem_of_mem_duplicate)

end Wan.Proj2
