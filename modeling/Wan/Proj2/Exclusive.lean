import Wan.Proj2.RtSrv

/-!
# One client at a time

The server checks the address of a message only for connection requests. A NACK
or an ACK of any other address is handled like one of the accepted client: it is
sent cached data, or it moves `cum_seq` and prunes the cache. `undisturbed_iff`
says exactly which messages of others do no harm, and `exclusive_client` that a
run with only those is the accepted client's run alone.
-/

namespace Wan.Proj2

open Posix Lib

variable {s : RtSrvState} {a src : SockaddrIn} {p : AckPkt} {e : RtSrvEvent} {app : Option Bytes}
  {d d' : NetPkt}

def RtSrvEvent.Foreign (a : SockaddrIn) (e : RtSrvEvent) : Prop :=
  match e.client with
  | .msg src _ => src ≠ a
  | _ => False

instance (a : SockaddrIn) (e : RtSrvEvent) : Decidable (e.Foreign a) := by
  unfold RtSrvEvent.Foreign
  split <;> infer_instance

def RtSrvEvent.alone (a : SockaddrIn) (e : RtSrvEvent) : RtSrvEvent :=
  if e.Foreign a then { e with client := .idle } else e

/-- A message of another address leaves the pass what it would be without it, as
far as the accepted client `a` is concerned, and is sent no data. -/
structure Undisturbed (a : SockaddrIn) (s : RtSrvState) (e : RtSrvEvent) : Prop where
  window : (rtSrvStep s e).1.window = (rtSrvStep s (e.alone a)).1.window
  timetable : (rtSrvStep s e).1.timetable = (rtSrvStep s (e.alone a)).1.timetable
  cumSeq : (rtSrvStep s e).1.cumSeq = (rtSrvStep s (e.alone a)).1.cumSeq
  currClientAddr : (rtSrvStep s e).1.currClientAddr = (rtSrvStep s (e.alone a)).1.currClientAddr
  replies : (rtSrvStep s e).2.filter (·.dst = a) = (rtSrvStep s (e.alone a)).2.filter (·.dst = a)
  data : ∀ dst q, .data dst q ∈ (rtSrvStep s e).2 → dst = a

/-- The message asks for a connection, NACKs a number that is not cached, or
acknowledges nothing new. -/
def Idle (s : RtSrvState) (p : AckPkt) : Prop :=
  p.seq = 0 ∨ (p.isNack = true ∧ p.seq ∉ s.window.keys) ∨ (p.isNack = false ∧ p.seq ≤ s.cumSeq)

/-- The message is idle; and a datagram of the application read in the same pass
finds the time the message left in the packet there already. -/
def Harmless (s : RtSrvState) (e : RtSrvEvent) : Prop :=
  match e.client with
  | .msg _ p => Idle s p ∧ (e.app.getD [] = [] ∨ e.fresh.senderTS = e.now)
  | _ => True

-- ---------------------------------------------------------------------------
-- The application's half of the pass
-- ---------------------------------------------------------------------------

/-- The cached packet takes its time and the bytes behind the datagram from the
packet allocated in the pass, and nothing else. -/
theorem receiveApp_congr (hd : d.data = d'.data) (h : app.getD [] = [] ∨ d'.senderTS = d.senderTS) :
    receiveApp s d app = receiveApp s d' app := by
  rcases h with happ | hts
  · rw [receiveApp_empty happ, receiveApp_empty happ]
  · unfold receiveApp handleApp
    simp only [hts, hd]

theorem senderTS_of_window (hf : s.faulted = false)
    (h : (receiveApp s d app).window = (receiveApp s d' app).window) :
    app.getD [] = [] ∨ d'.senderTS = d.senderTS := by
  refine or_iff_not_imp_left.mpr fun happ => ?_
  cases app with
  | none => exact absurd rfl happ
  | some bytes =>
    have hne : bytes ≠ [] := happ
    simp only [receiveApp, hf, Bool.false_eq_true, ↓reduceIte, handleApp, if_neg hne] at h
    have hfind := congrArg (fun m => OrdMap.find? m s.cacheSeq) h
    simp only [OrdMap.find?_insert, ↓reduceIte, Option.some.injEq, NetPkt.mk.injEq] at hfind
    exact hfind.1.symm

-- ---------------------------------------------------------------------------
-- One pass
-- ---------------------------------------------------------------------------

theorem handleAck_new {n : ℕ} (h : s.cumSeq < n) : (handleAck s n).cumSeq = n := by
  simp only [handleAck, if_pos h]
  split <;> rfl

theorem rtSrvStep_alone (hf : s.faulted = false) (hc : e.client = .msg src p) (hne : src ≠ a) :
    rtSrvStep s (e.alone a) = (receiveApp s e.fresh e.app, []) := by
  have hfor : e.Foreign a := by
    unfold RtSrvEvent.Foreign
    rw [hc]
    exact hne
  simp [RtSrvEvent.alone, hfor, rtSrvStep, hf]

theorem handleClient_idle (hacc : s.currClientAddr.sAddr ≠ 0) (hne : src ≠ s.currClientAddr)
    (h : Idle s p) (d : NetPkt) : ∃ d', d'.data = d.data ∧ d'.senderTS = d.senderTS ∧
      (handleClient s src p d = (s, d', [.reject src d']) ∨
        handleClient s src p d = (s, d', [])) := by
  by_cases h0 : p.seq = 0
  · refine ⟨{ d with seq := blockedSeq }, rfl, rfl, .inl ?_⟩
    simp [handleClient, h0, phaseI, hacc, hne]
  · refine ⟨d, rfl, rfl, .inr ?_⟩
    rcases h with h | ⟨hn, hw⟩ | ⟨hn, hle⟩
    · exact absurd h h0
    · simp [handleClient, h0, hn, handleNack, OrdMap.find?_eq_none.mpr hw]
    · simp [handleClient, h0, hn, handleAck, Nat.not_lt.mpr hle]

theorem idle_of_undisturbed (hf : s.faulted = false) (hc : e.client = .msg src p) (hne : src ≠ a)
    (h : Undisturbed a s e) : Idle s p := by
  have hstep := rtSrvStep_msg hf hc
  have halone := rtSrvStep_alone hf hc hne
  by_cases h0 : p.seq = 0
  · exact .inl h0
  cases hn : p.isNack with
  | true =>
    refine .inr (.inl ⟨hn, fun hmem => hne ?_⟩)
    obtain ⟨cached, hw⟩ := OrdMap.mem_keys.mp hmem
    refine h.data src cached ?_
    rw [hstep]
    simp [handleClient, h0, hn, handleNack, hw]
  | false =>
    refine .inr (.inr ⟨hn, not_lt.mp fun hlt => ?_⟩)
    have hcum := h.cumSeq
    obtain ⟨w, c, hr⟩ :=
      receiveApp_frame (handleAck s p.seq) { e.fresh with senderTS := e.now } e.app
    obtain ⟨w', c', hr'⟩ := receiveApp_frame s e.fresh e.app
    rw [hstep, halone, hr'] at hcum
    simp only [handleClient, h0, hn, Bool.false_eq_true, ↓reduceIte, hr, handleAck_new hlt] at hcum
    exact absurd hcum hlt.ne'

theorem rtSrvStep_harmless (hf : s.faulted = false) (hacc : s.currClientAddr.sAddr ≠ 0)
    (hc : e.client = .msg src p) (hne : src ≠ s.currClientAddr) (h : Harmless s e) :
    (rtSrvStep s e).1 = (rtSrvStep s (e.alone s.currClientAddr)).1 ∧
      ∀ o ∈ (rtSrvStep s e).2, ∃ q, o = .reject src q := by
  unfold Harmless at h
  rw [hc] at h
  obtain ⟨d', hd, hts, heq⟩ := handleClient_idle hacc hne h.1 { e.fresh with senderTS := e.now }
  have hsame : receiveApp s d' e.app = receiveApp s e.fresh e.app :=
    receiveApp_congr hd (h.2.imp_right fun hnow => hnow.trans hts.symm)
  rw [rtSrvStep_msg hf hc, rtSrvStep_alone hf hc hne]
  rcases heq with heq | heq
  · rw [heq]
    refine ⟨hsame, fun o ho => ⟨d', ?_⟩⟩
    exact List.mem_singleton.mp ho
  · rw [heq]
    exact ⟨hsame, fun o ho => absurd ho List.not_mem_nil⟩

theorem undisturbed_iff (hf : s.faulted = false) (hacc : s.currClientAddr.sAddr ≠ 0)
    (hc : e.client = .msg src p) (hne : src ≠ s.currClientAddr) :
    Undisturbed s.currClientAddr s e ↔ Harmless s e := by
  constructor
  · intro h
    have hidle := idle_of_undisturbed hf hc hne h
    obtain ⟨d', hd, hts, heq⟩ := handleClient_idle hacc hne hidle { e.fresh with senderTS := e.now }
    have hwin := h.window
    rw [rtSrvStep_msg hf hc, rtSrvStep_alone hf hc hne] at hwin
    have hw : (receiveApp s d' e.app).window = (receiveApp s e.fresh e.app).window := by
      rcases heq with heq | heq
      · rwa [heq] at hwin
      · rwa [heq] at hwin
    unfold Harmless
    rw [hc]
    exact ⟨hidle, (senderTS_of_window hf hw).imp_right fun hs => hs.trans hts⟩
  · intro h
    obtain ⟨hstate, hout⟩ := rtSrvStep_harmless hf hacc hc hne h
    have hnone : (rtSrvStep s (e.alone s.currClientAddr)).2 = [] := by
      rw [rtSrvStep_alone hf hc hne]
    refine ⟨by rw [hstate], by rw [hstate], by rw [hstate], by rw [hstate], ?_, ?_⟩
    · rw [hnone]
      refine List.filter_eq_nil_iff.mpr fun o ho => ?_
      obtain ⟨q, rfl⟩ := hout o ho
      simp [RtSrvEffect.dst, hne]
    · intro dst q hq
      obtain ⟨q', hq'⟩ := hout _ hq
      cases hq'

-- ---------------------------------------------------------------------------
-- Runs
-- ---------------------------------------------------------------------------

theorem foreign_iff : e.Foreign a ↔ ∃ src p, e.client = .msg src p ∧ src ≠ a := by
  unfold RtSrvEvent.Foreign
  cases e.client with
  | idle => simp
  | failed => simp
  | msg src p => simp

theorem handleClient_currClientAddr (hacc : s.currClientAddr.sAddr ≠ 0) (src : SockaddrIn)
    (p : AckPkt) (d : NetPkt) :
    (handleClient s src p d).1.currClientAddr = s.currClientAddr := by
  refine handleClient_cases (motive := fun r => r.1.currClientAddr = s.currClientAddr)
    ?_ ?_ ?_ ?_ ?_ ?_ ?_ ?_
  · exact fun _ _ _ => rfl
  · -- a request that is not blocked comes from the accepted client
    exact fun _ hown => hown hacc
  · exact fun _ _ _ => rfl
  · exact fun _ _ _ _ _ => rfl
  · exact fun _ _ _ _ _ _ => rfl
  · exact fun _ _ _ => rfl
  · exact fun _ _ _ _ _ _ _ => rfl
  · exact fun _ _ _ _ => rfl

theorem receiveApp_currClientAddr (s : RtSrvState) (d : NetPkt) (app : Option Bytes) :
    (receiveApp s d app).currClientAddr = s.currClientAddr := by
  obtain ⟨w, c, h⟩ := receiveApp_frame s d app
  rw [h]

theorem rtSrvStep_currClientAddr (hacc : s.currClientAddr.sAddr ≠ 0) (e : RtSrvEvent) :
    (rtSrvStep s e).1.currClientAddr = s.currClientAddr := by
  unfold rtSrvStep
  split_ifs
  · rfl
  · split
    · exact receiveApp_currClientAddr _ _ _
    · rfl
    · exact (receiveApp_currClientAddr _ _ _).trans (handleClient_currClientAddr hacc _ _ _)

theorem data_of_own (he : ¬ e.Foreign a) {dst : SockaddrIn} {q : NetPkt}
    (h : .data dst q ∈ (rtSrvStep s e).2) : dst = a := by
  obtain ⟨p, hc, -⟩ := rtSrvStep_data h
  by_contra hne
  exact he (foreign_iff.mpr ⟨dst, p, hc, hne⟩)

theorem undisturbed_of_harmless (hacc : s.currClientAddr.sAddr ≠ 0) (ha : s.currClientAddr = a)
    (he : e.Foreign a) (h : Harmless s e) : Undisturbed a s e := by
  subst ha
  cases hf : s.faulted with
  | true =>
    have hstop := rtSrvStep_faulted hf
    refine ⟨?_, ?_, ?_, ?_, ?_, fun dst q hq => by simp [hstop] at hq⟩ <;> rw [hstop, hstop]
  | false =>
    obtain ⟨src, p, hc, hne⟩ := foreign_iff.mp he
    exact (undisturbed_iff hf hacc hc hne).mpr h

theorem rtSrvStep_alone_eq (hacc : s.currClientAddr.sAddr ≠ 0) (ha : s.currClientAddr = a)
    (h : e.Foreign a → Harmless s e) :
    next rtSrvStep s e = next rtSrvStep s (e.alone a) ∧
      (rtSrvStep s e).2.filter (·.dst = a) = (rtSrvStep s (e.alone a)).2.filter (·.dst = a) := by
  by_cases he : e.Foreign a
  · refine ⟨?_, (undisturbed_of_harmless hacc ha he (h he)).replies⟩
    subst ha
    cases hf : s.faulted with
    | true => simp [next, rtSrvStep_faulted hf]
    | false =>
      obtain ⟨src, p, hc, hne⟩ := foreign_iff.mp he
      exact (rtSrvStep_harmless hf hacc hc hne (h he)).1
  · simp [RtSrvEvent.alone, he]

/-- Once a client is accepted: exactly the harmless messages of other addresses
leave it alone; and a run in which they are all harmless ends where it would end
without them, shows the client the same, and sends data to nobody else. -/
theorem exclusive_client (s : RtSrvState) (hacc : s.currClientAddr.sAddr ≠ 0) :
    let a := s.currClientAddr
    (s.faulted = false → ∀ e : RtSrvEvent, e.Foreign a → (Undisturbed a s e ↔ Harmless s e)) ∧
    ∀ es : List RtSrvEvent,
      Along (next rtSrvStep) (fun t e => e.Foreign a → Harmless t e) s es →
      Along (next rtSrvStep) (fun t e => e.Foreign a → Undisturbed a t e) s es ∧
      let alone := es.map (·.alone a)
      es.foldl (next rtSrvStep) s = alone.foldl (next rtSrvStep) s ∧
        (trace rtSrvStep s es).filter (·.dst = a) =
          (trace rtSrvStep s alone).filter (·.dst = a) ∧
        ∀ dst q, .data dst q ∈ trace rtSrvStep s es → dst = a := by
  intro a
  refine ⟨fun hf e he => ?_, fun es hes => ?_⟩
  · obtain ⟨src, p, hc, hne⟩ := foreign_iff.mp he
    exact undisturbed_iff hf hacc hc hne
  have hkeep : ∀ t e, t.currClientAddr = a → (e.Foreign a → Harmless t e) →
      (next rtSrvStep t e).currClientAddr = a := by
    intro t e ht _
    rw [← ht]
    exact rtSrvStep_currClientAddr (ht ▸ hacc) e
  refine ⟨hes.strengthen (I := fun t => t.currClientAddr = a) rfl hkeep ?_, ?_⟩
  · intro t e ht h he
    exact undisturbed_of_harmless (ht ▸ hacc) ht he (h he)
  intro alone
  -- the two runs are in the same state at every step
  obtain ⟨hend, hout⟩ := unwind_map hkeep
    (fun t e ht h => rtSrvStep_alone_eq (ht ▸ hacc) ht h) rfl hes
  refine ⟨hend, hout, fun dst q hq => ?_⟩
  have hdata : Along (next rtSrvStep)
      (fun t e => ∀ o ∈ (rtSrvStep t e).2, ∀ dst q, o = .data dst q → dst = a) s es := by
    refine hes.strengthen (I := fun t => t.currClientAddr = a) rfl hkeep ?_
    rintro t e ht h o ho dst q rfl
    by_cases he : e.Foreign a
    · exact (undisturbed_of_harmless (ht ▸ hacc) ht he (h he)).data dst q ho
    · exact data_of_own he ho
  exact hdata.trace _ hq dst q rfl

def servedState : RtSrvState :=
  ([⟨.msg ⟨1, 5⟩ ⟨0, true⟩, none, 100, zeroPkt⟩, ⟨.idle, some [7], 0, zeroPkt⟩,
    ⟨.idle, some [8], 0, zeroPkt⟩, ⟨.msg ⟨1, 5⟩ ⟨1, true⟩, none, 200, zeroPkt⟩,
    ⟨.msg ⟨1, 5⟩ ⟨2, true⟩, none, 300, zeroPkt⟩] : List RtSrvEvent).foldl
      (next rtSrvStep) (.init 0)

/-- A second client asks for a connection and is refused. -/
theorem exclusive_client_request :
    let e : RtSrvEvent := ⟨.msg ⟨2, 5⟩ ⟨0, true⟩, none, 400, zeroPkt⟩
    Undisturbed ⟨1, 5⟩ servedState e ∧
      (trace rtSrvStep servedState [e]).filter (·.dst = ⟨1, 5⟩) = [] := by
  intro e
  obtain ⟨hone, hrun⟩ := exclusive_client servedState (by decide)
  have hharm : Harmless servedState e := ⟨.inl rfl, .inl rfl⟩
  obtain ⟨-, -, hout, -⟩ := hrun [e] ⟨fun _ => hharm, trivial⟩
  exact ⟨(hone rfl e (by decide)).mpr hharm, hout⟩

/-- The second client is sent cached data for its NACK, and its ACK drops the
first packet from the cache. -/
theorem second_client_disturbs :
    let nack : RtSrvEvent := ⟨.msg ⟨2, 5⟩ ⟨1, true⟩, none, 400, zeroPkt⟩
    let ack : RtSrvEvent := ⟨.msg ⟨2, 5⟩ ⟨2, false⟩, none, 400, zeroPkt⟩
    servedState.currClientAddr = ⟨1, 5⟩ ∧
      ¬ Undisturbed ⟨1, 5⟩ servedState nack ∧ ¬ Undisturbed ⟨1, 5⟩ servedState ack ∧
      servedState.window.keys = [1, 2] ∧ (rtSrvStep servedState ack).1.window.keys = [2] ∧
      (rtSrvStep servedState nack).2.map (·.dst) = [⟨2, 5⟩] := by
  intro nack ack
  refine ⟨rfl, fun h => ?_, fun h => ?_, by decide, by decide, by decide⟩
  · have hdst := h.data ⟨2, 5⟩ _ (.head _)
    simp at hdst
  · have hcum := h.cumSeq
    exact absurd hcum (by decide)

end Wan.Proj2
