import Wan.Proj2.Packet
import Wan.Lib.OrdMap
import Wan.Lib.Run

/-!
# The server (rt_srv.cpp)

One step of `rt_srv` is one pass of its event loop, in which `select` may report
a message from a client, a datagram of the application, both or neither. Both
branches use the one packet allocated in the pass, which holds whatever `malloc`
gave it until a branch assigns a field.

The two loops that prune the maps after an ACK do not check for an empty map: a
pass that empties one reads behind it, and the program is taken to have failed.
Printing, with the times it is governed by, is left out.
-/

namespace Wan.Proj2

open Posix Lib

structure RtSrvState where
  timetable : OrdMap ℕ ℤ
  window : OrdMap ℕ NetPkt
  maxSeq : ℕ
  totalPkts : ℕ
  cumSeq : ℕ
  cacheSeq : ℕ
  /-- The address 0 stands for no client. -/
  currClientAddr : SockaddrIn
  faulted : Bool
  deriving DecidableEq

/-- `sin_port` of the client address is not initialised. -/
def RtSrvState.init (sinPort : UInt16) : RtSrvState where
  timetable := .empty
  window := .empty
  maxSeq := 0
  totalPkts := 0
  cumSeq := 0
  cacheSeq := 1
  currClientAddr := ⟨0, sinPort⟩
  faulted := false

/-- What the server sends, by the place in the code that sends it. -/
inductive RtSrvEffect
  /-- An extra client is blocked. -/
  | reject (dst : SockaddrIn) (p : NetPkt)
  /-- A requesting client is sent the timestamp. -/
  | reply (dst : SockaddrIn) (p : NetPkt)
  /-- A cached packet is sent on request. -/
  | data (dst : SockaddrIn) (p : NetPkt)
  deriving DecidableEq

def RtSrvEffect.dst : RtSrvEffect → SockaddrIn
  | .reject dst _ => dst
  | .reply dst _ => dst
  | .data dst _ => dst

def RtSrvEffect.pkt : RtSrvEffect → NetPkt
  | .reject _ p => p
  | .reply _ p => p
  | .data _ p => p

-- ---------------------------------------------------------------------------
-- Receiving from client
-- ---------------------------------------------------------------------------

/-- Phase I: `dataPkt` has its `senderTS` set and nothing else. -/
def phaseI (s : RtSrvState) (src : SockaddrIn) (dataPkt : NetPkt) :
    RtSrvState × NetPkt × List RtSrvEffect :=
  if s.currClientAddr.sAddr ≠ 0 ∧ src ≠ s.currClientAddr then -- extra sender, block it
    let dataPkt := { dataPkt with seq := blockedSeq }
    (s, dataPkt, [.reject src dataPkt])
  else -- requesting sender, send back the timestamp
    ({ s with currClientAddr := src }, dataPkt, [.reply src dataPkt])

def handleNack (s : RtSrvState) (src : SockaddrIn) (seq : ℕ) (dataPkt : NetPkt) :
    RtSrvState × NetPkt × List RtSrvEffect :=
  match s.window.find? seq with
  | none => (s, dataPkt, [])
  | some cached =>
    let (timetable, dataPkt) := match s.timetable.find? seq with
      | none => (s.timetable.insert seq dataPkt.senderTS, dataPkt) -- new request
      | some ts => (s.timetable, { dataPkt with senderTS := ts }) -- retransmit request
    ({ s with
        timetable := timetable
        maxSeq := if seq > s.maxSeq then seq else s.maxSeq
        totalPkts := s.totalPkts + 1 },
      dataPkt, [.data src cached])

/-- `while (m.begin()->first < cumSeq) m.erase(m.begin())`, none when the map
runs empty and its first entry is read all the same. -/
def pruneBelow {ν : Type} (cumSeq : ℕ) (m : OrdMap ℕ ν) : Option (OrdMap ℕ ν) :=
  let rest := (m.popWhile fun _ e => e.1 < cumSeq).2
  if rest.entries = [] then none else some rest

def handleAck (s : RtSrvState) (seq : ℕ) : RtSrvState :=
  if s.cumSeq < seq then
    match pruneBelow seq s.timetable, pruneBelow seq s.window with
    | some timetable, some window =>
      { s with cumSeq := seq, timetable := timetable, window := window }
    | _, _ => { s with cumSeq := seq, faulted := true }
  else s

def handleClient (s : RtSrvState) (src : SockaddrIn) (p : AckPkt) (dataPkt : NetPkt) :
    RtSrvState × NetPkt × List RtSrvEffect :=
  if p.seq = 0 then phaseI s src dataPkt
  else if p.isNack then handleNack s src p.seq dataPkt
  else (handleAck s p.seq, dataPkt, [])

def RtSrvState.sent (s : RtSrvState) (seq : ℕ) (timetable : OrdMap ℕ ℤ) : RtSrvState :=
  { s with
    timetable := timetable
    maxSeq := if seq > s.maxSeq then seq else s.maxSeq
    totalPkts := s.totalPkts + 1 }

theorem handleClient_cases {motive : RtSrvState × NetPkt × List RtSrvEffect → Prop}
    {s : RtSrvState} {src : SockaddrIn} {p : AckPkt} {d : NetPkt}
    (reject : p.seq = 0 → s.currClientAddr.sAddr ≠ 0 → src ≠ s.currClientAddr →
      motive (s, { d with seq := blockedSeq }, [.reject src { d with seq := blockedSeq }]))
    (reply : p.seq = 0 → (s.currClientAddr.sAddr ≠ 0 → src = s.currClientAddr) →
      motive ({ s with currClientAddr := src }, d, [.reply src d]))
    (unknown : p.seq ≠ 0 → p.isNack = true → s.window.find? p.seq = none → motive (s, d, []))
    (first : ∀ cached, p.seq ≠ 0 → p.isNack = true → s.window.find? p.seq = some cached →
      s.timetable.find? p.seq = none →
      motive (s.sent p.seq (s.timetable.insert p.seq d.senderTS), d, [.data src cached]))
    (again : ∀ cached ts, p.seq ≠ 0 → p.isNack = true → s.window.find? p.seq = some cached →
      s.timetable.find? p.seq = some ts →
      motive (s.sent p.seq s.timetable, { d with senderTS := ts }, [.data src cached]))
    (old : p.seq ≠ 0 → p.isNack = false → p.seq ≤ s.cumSeq → motive (s, d, []))
    (prune : ∀ timetable window, p.seq ≠ 0 → p.isNack = false → s.cumSeq < p.seq →
      pruneBelow p.seq s.timetable = some timetable → pruneBelow p.seq s.window = some window →
      motive ({ s with cumSeq := p.seq, timetable := timetable, window := window }, d, []))
    (fault : p.seq ≠ 0 → p.isNack = false → s.cumSeq < p.seq →
      pruneBelow p.seq s.timetable = none ∨ pruneBelow p.seq s.window = none →
      motive ({ s with cumSeq := p.seq, faulted := true }, d, [])) :
    motive (handleClient s src p d) := by
  unfold handleClient
  by_cases h0 : p.seq = 0
  · rw [if_pos h0, phaseI]
    split_ifs with hb
    · exact reject h0 hb.1 hb.2
    · exact reply h0 fun hacc => not_not.mp fun hne => hb ⟨hacc, hne⟩
  rw [if_neg h0]
  cases hn : p.isNack with
  | true =>
    rw [if_pos rfl, handleNack]
    cases hw : s.window.find? p.seq with
    | none => exact unknown h0 hn hw
    | some cached =>
      cases ht : s.timetable.find? p.seq with
      | none => exact first cached h0 hn hw ht
      | some ts => exact again cached ts h0 hn hw ht
  | false =>
    rw [if_neg Bool.false_ne_true, handleAck]
    split_ifs with hlt
    · cases ht : pruneBelow p.seq s.timetable with
      | none => exact fault h0 hn hlt (.inl ht)
      | some timetable =>
        cases hw : pruneBelow p.seq s.window with
        | none => exact fault h0 hn hlt (.inr hw)
        | some window => exact prune timetable window h0 hn hlt ht hw
    · exact old h0 hn (not_lt.mp hlt)

/-- A reply is the allocated packet as it was, and goes to the first client or the
current one; only another address is refused; and the current client is kept or is
the one that asked. -/
theorem handleClient_phaseI (s : RtSrvState) (src : SockaddrIn) (p : AckPkt) (d : NetPkt) :
    (∀ dst q, .reply dst q ∈ (handleClient s src p d).2.2 → p.seq = 0 ∧ dst = src ∧ q = d ∧
        (s.currClientAddr.sAddr ≠ 0 → src = s.currClientAddr)) ∧
      (∀ dst q, .reject dst q ∈ (handleClient s src p d).2.2 → s.currClientAddr.sAddr ≠ 0 ∧
        src ≠ s.currClientAddr ∧ q.seq = blockedSeq) ∧
      ((handleClient s src p d).1.currClientAddr = s.currClientAddr ∨
        (handleClient s src p d).1.currClientAddr = src) := by
  refine handleClient_cases (motive := fun r =>
    (∀ dst q, .reply dst q ∈ r.2.2 → p.seq = 0 ∧ dst = src ∧ q = d ∧
      (s.currClientAddr.sAddr ≠ 0 → src = s.currClientAddr)) ∧
    (∀ dst q, .reject dst q ∈ r.2.2 → s.currClientAddr.sAddr ≠ 0 ∧ src ≠ s.currClientAddr ∧
      q.seq = blockedSeq) ∧
    (r.1.currClientAddr = s.currClientAddr ∨ r.1.currClientAddr = src)) ?_ ?_ ?_ ?_ ?_ ?_ ?_ ?_
  · intro _ hacc hne
    refine ⟨by simp, fun dst q hm => ?_, .inl rfl⟩
    obtain ⟨-, rfl⟩ := RtSrvEffect.reject.inj (List.mem_singleton.mp hm)
    exact ⟨hacc, hne, rfl⟩
  · intro h0 hacc
    refine ⟨fun dst q hm => ?_, by simp, .inr rfl⟩
    obtain ⟨rfl, rfl⟩ := RtSrvEffect.reply.inj (List.mem_singleton.mp hm)
    exact ⟨h0, rfl, rfl, hacc⟩
  · exact fun _ _ _ => ⟨by simp, by simp, .inl rfl⟩
  · exact fun _ _ _ _ _ => ⟨by simp, by simp, .inl rfl⟩
  · exact fun _ _ _ _ _ _ => ⟨by simp, by simp, .inl rfl⟩
  · exact fun _ _ _ => ⟨by simp, by simp, .inl rfl⟩
  · exact fun _ _ _ _ _ _ _ => ⟨by simp, by simp, .inl rfl⟩
  · exact fun _ _ _ _ => ⟨by simp, by simp, .inl rfl⟩

theorem handleClient_data {s : RtSrvState} {src dst : SockaddrIn} {p : AckPkt} {d q : NetPkt}
    (h : .data dst q ∈ (handleClient s src p d).2.2) :
    dst = src ∧ p.isNack = true ∧ s.window.find? p.seq = some q := by
  revert h
  refine handleClient_cases (motive := fun r => .data dst q ∈ r.2.2 →
    dst = src ∧ p.isNack = true ∧ s.window.find? p.seq = some q) ?_ ?_ ?_ ?_ ?_ ?_ ?_ ?_
  · exact fun _ _ _ h => by simp at h
  · exact fun _ _ h => by simp at h
  · exact fun _ _ _ h => absurd h List.not_mem_nil
  · intro cached _ hn hw _ h
    obtain ⟨rfl, rfl⟩ := RtSrvEffect.data.inj (List.mem_singleton.mp h)
    exact ⟨rfl, hn, hw⟩
  · intro cached ts _ hn hw _ h
    obtain ⟨rfl, rfl⟩ := RtSrvEffect.data.inj (List.mem_singleton.mp h)
    exact ⟨rfl, hn, hw⟩
  · exact fun _ _ _ h => absurd h List.not_mem_nil
  · exact fun _ _ _ _ _ _ _ h => absurd h List.not_mem_nil
  · exact fun _ _ _ _ h => absurd h List.not_mem_nil

-- ---------------------------------------------------------------------------
-- One pass of the loop
-- ---------------------------------------------------------------------------

def handleApp (s : RtSrvState) (dataPkt : NetPkt) (bytes : Bytes) : RtSrvState :=
  if bytes = [] then s
  else
    let dataPkt := { dataPkt with
      dtSize := bytes.length
      seq := s.cacheSeq
      data := dataPkt.data.memcpy bytes }
    { s with window := s.window.insert dataPkt.seq dataPkt, cacheSeq := s.cacheSeq + 1 }

inductive ClientInput
  | idle
  | failed
  | msg (src : SockaddrIn) (p : AckPkt)
  deriving DecidableEq

/-- One pass: what the two sockets give, the clock when the client socket is
read, and the packet `malloc` returned. A read that fails counts as empty. -/
structure RtSrvEvent where
  client : ClientInput
  app : Option Bytes
  now : ℤ
  fresh : NetPkt
  deriving DecidableEq

def receiveApp (s : RtSrvState) (dataPkt : NetPkt) (app : Option Bytes) : RtSrvState :=
  if s.faulted then s
  else match app with
    | none => s
    | some bytes => handleApp s dataPkt bytes

def rtSrvStep (s : RtSrvState) (e : RtSrvEvent) : RtSrvState × List RtSrvEffect :=
  if s.faulted then (s, [])
  else match e.client with
    | .idle => (receiveApp s e.fresh e.app, [])
    | .failed => (s, [])
    | .msg src p =>
      let (s, dataPkt, out) := handleClient s src p { e.fresh with senderTS := e.now }
      (receiveApp s dataPkt e.app, out)

section
variable {s : RtSrvState} {e : RtSrvEvent} {src : SockaddrIn} {p : AckPkt} {d : NetPkt}
  {app : Option Bytes}

def RtSrvState.cachedPkt (s : RtSrvState) (d : NetPkt) (bytes : Bytes) : NetPkt :=
  { d with dtSize := bytes.length, seq := s.cacheSeq, data := d.data.memcpy bytes }

theorem receiveApp_cases (s : RtSrvState) (d : NetPkt) (app : Option Bytes) :
    receiveApp s d app = s ∨ ∃ bytes, app = some bytes ∧
      receiveApp s d app = { s with
        window := s.window.insert s.cacheSeq (s.cachedPkt d bytes)
        cacheSeq := s.cacheSeq + 1 } := by
  unfold receiveApp handleApp
  split_ifs
  · exact .inl rfl
  · cases app with
    | none => exact .inl rfl
    | some bytes =>
      dsimp only
      split_ifs
      · exact .inl rfl
      · exact .inr ⟨bytes, rfl, rfl⟩

theorem receiveApp_frame (s : RtSrvState) (d : NetPkt) (app : Option Bytes) :
    ∃ window cacheSeq, receiveApp s d app = { s with window := window, cacheSeq := cacheSeq } := by
  rcases receiveApp_cases s d app with h | ⟨bytes, -, h⟩
  · exact ⟨s.window, s.cacheSeq, h⟩
  · exact ⟨_, _, h⟩

theorem receiveApp_empty (happ : app.getD [] = []) : receiveApp s d app = s := by
  unfold receiveApp handleApp
  split_ifs
  · rfl
  · cases app with
    | none => rfl
    | some bytes => exact if_pos happ

theorem rtSrvStep_faulted (hf : s.faulted = true) (e : RtSrvEvent) : rtSrvStep s e = (s, []) := by
  simp [rtSrvStep, hf]

theorem rtSrvStep_msg (hf : s.faulted = false) (hc : e.client = .msg src p) :
    rtSrvStep s e =
      (receiveApp (handleClient s src p { e.fresh with senderTS := e.now }).1
        (handleClient s src p { e.fresh with senderTS := e.now }).2.1 e.app,
        (handleClient s src p { e.fresh with senderTS := e.now }).2.2) := by
  simp [rtSrvStep, hf, hc]

theorem rtSrvStep_cases {motive : RtSrvState × List RtSrvEffect → Prop}
    (stopped : s.faulted = true → motive (s, []))
    (idle : e.client = .idle → motive (receiveApp s e.fresh e.app, []))
    (failed : e.client = .failed → motive (s, []))
    (msg : ∀ src p, s.faulted = false → e.client = .msg src p →
      let r := handleClient s src p { e.fresh with senderTS := e.now }
      motive (receiveApp r.1 r.2.1 e.app, r.2.2)) : motive (rtSrvStep s e) := by
  cases hf : s.faulted with
  | true =>
    rw [rtSrvStep_faulted hf]
    exact stopped hf
  | false =>
    cases hc : e.client with
    | idle =>
      simp only [rtSrvStep, hf, hc, Bool.false_eq_true, ↓reduceIte]
      exact idle hc
    | failed =>
      simp only [rtSrvStep, hf, hc, Bool.false_eq_true, ↓reduceIte]
      exact failed hc
    | msg src p =>
      rw [rtSrvStep_msg hf hc]
      exact msg src p hf hc

theorem rtSrvStep_phaseI (s : RtSrvState) (e : RtSrvEvent) :
    (∀ dst q, .reply dst q ∈ (rtSrvStep s e).2 → ∃ p, e.client = .msg dst p ∧ p.seq = 0 ∧
        q = { e.fresh with senderTS := e.now } ∧
        (s.currClientAddr.sAddr ≠ 0 → dst = s.currClientAddr)) ∧
      (∀ dst q, .reject dst q ∈ (rtSrvStep s e).2 → q.seq = blockedSeq ∧
        ∃ src p, e.client = .msg src p ∧ s.currClientAddr.sAddr ≠ 0 ∧ src ≠ s.currClientAddr) ∧
      ((rtSrvStep s e).1.currClientAddr = s.currClientAddr ∨
        ∃ src p, e.client = .msg src p ∧ (rtSrvStep s e).1.currClientAddr = src) := by
  refine rtSrvStep_cases (motive := fun r =>
    (∀ dst q, .reply dst q ∈ r.2 → ∃ p, e.client = .msg dst p ∧ p.seq = 0 ∧
        q = { e.fresh with senderTS := e.now } ∧
        (s.currClientAddr.sAddr ≠ 0 → dst = s.currClientAddr)) ∧
      (∀ dst q, .reject dst q ∈ r.2 → q.seq = blockedSeq ∧
        ∃ src p, e.client = .msg src p ∧ s.currClientAddr.sAddr ≠ 0 ∧ src ≠ s.currClientAddr) ∧
      (r.1.currClientAddr = s.currClientAddr ∨
        ∃ src p, e.client = .msg src p ∧ r.1.currClientAddr = src)) ?_ ?_ ?_ ?_
  · exact fun _ => ⟨by simp, by simp, .inl rfl⟩
  · intro _
    obtain ⟨w, c, h⟩ := receiveApp_frame s e.fresh e.app
    rw [h]
    exact ⟨by simp, by simp, .inl rfl⟩
  · exact fun _ => ⟨by simp, by simp, .inl rfl⟩
  · intro src p _ hc r
    obtain ⟨h1, h2, h3⟩ := handleClient_phaseI s src p { e.fresh with senderTS := e.now }
    obtain ⟨w, c, h⟩ := receiveApp_frame r.1 r.2.1 e.app
    rw [h]
    refine ⟨fun dst q hm => ?_, fun dst q hm => ?_, h3.imp_right fun h3 => ⟨src, p, hc, h3⟩⟩
    · obtain ⟨h0, rfl, rfl, hacc⟩ := h1 dst q hm
      exact ⟨p, hc, h0, rfl, hacc⟩
    · obtain ⟨hacc, hne, hseq⟩ := h2 dst q hm
      exact ⟨hseq, src, p, hc, hacc, hne⟩

theorem rtSrvStep_data {dst : SockaddrIn} {q : NetPkt} (h : .data dst q ∈ (rtSrvStep s e).2) :
    ∃ p, e.client = .msg dst p ∧ p.isNack = true ∧ s.window.find? p.seq = some q := by
  revert h
  refine rtSrvStep_cases (motive := fun r => .data dst q ∈ r.2 →
    ∃ p, e.client = .msg dst p ∧ p.isNack = true ∧ s.window.find? p.seq = some q) ?_ ?_ ?_ ?_
  · exact fun _ h => absurd h List.not_mem_nil
  · exact fun _ h => absurd h List.not_mem_nil
  · exact fun _ h => absurd h List.not_mem_nil
  · intro src p _ hc r h
    obtain ⟨rfl, hn, hw⟩ := handleClient_data h
    exact ⟨p, hc, hn, hw⟩

end

end Wan.Proj2
