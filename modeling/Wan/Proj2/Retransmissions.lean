import Wan.Proj2.Cache

/-!
# The retransmissions that are reported

The figure is the difference between the data packets sent and `cum_seq`, the highest
number acknowledged, which stands in for the number of different packets. The two are
the same when every number up to the highest one was sent and acknowledged, and
nothing else was; a packet that waits for its acknowledgment, a number that was passed
over, or an acknowledgment of a number never sent makes the figure wrong.
-/

namespace Wan.Proj2

open Posix Lib

variable {s : RtSrvState} {e : RtSrvEvent}

/-- What is handed to `print_stat` as the number of retransmissions. -/
def retransmissions (s : RtSrvState) : ℕ :=
  if s.totalPkts > s.cumSeq then s.totalPkts - s.cumSeq else s.cumSeq - s.totalPkts

def dataSeqs (out : List RtSrvEffect) : List ℕ :=
  out.filterMap fun
    | .data _ p => some p.seq
    | _ => none

def askedFor (s : RtSrvState) (e : RtSrvEvent) : List ℕ :=
  match e.client with
  | .msg _ p =>
    if s.faulted = false ∧ p.seq ≠ 0 ∧ p.isNack = true ∧ p.seq ∈ s.window.keys then [p.seq] else []
  | _ => []

def ackOf (s : RtSrvState) (e : RtSrvEvent) : List ℕ :=
  match e.client with
  | .msg _ p => if s.faulted = false ∧ p.seq ≠ 0 ∧ p.isNack = false then [p.seq] else []
  | _ => []

theorem dataSeqs_append (out out' : List RtSrvEffect) :
    dataSeqs (out ++ out') = dataSeqs out ++ dataSeqs out' :=
  List.filterMap_append

-- ---------------------------------------------------------------------------
-- One pass
-- ---------------------------------------------------------------------------

theorem handleClient_counts (s : RtSrvState) (src : SockaddrIn) (p : AckPkt) (d : NetPkt) :
    (handleClient s src p d).1.totalPkts =
        s.totalPkts + (dataSeqs (handleClient s src p d).2.2).length ∧
      (handleClient s src p d).1.cumSeq =
        if p.seq ≠ 0 ∧ p.isNack = false then max s.cumSeq p.seq else s.cumSeq := by
  refine handleClient_cases (motive := fun r =>
    r.1.totalPkts = s.totalPkts + (dataSeqs r.2.2).length ∧
      r.1.cumSeq = if p.seq ≠ 0 ∧ p.isNack = false then max s.cumSeq p.seq else s.cumSeq)
    ?_ ?_ ?_ ?_ ?_ ?_ ?_ ?_
  · exact fun h0 _ _ => ⟨rfl, (if_neg fun h => h.1 h0).symm⟩
  · exact fun h0 _ => ⟨rfl, (if_neg fun h => h.1 h0).symm⟩
  · exact fun _ hn _ => ⟨rfl, by simp [hn]⟩
  · exact fun _ _ hn _ _ => ⟨rfl, by simp [hn, RtSrvState.sent]⟩
  · exact fun _ _ _ hn _ _ => ⟨rfl, by simp [hn, RtSrvState.sent]⟩
  · intro h0 hn hle
    rw [if_pos ⟨h0, hn⟩]
    exact ⟨rfl, (max_eq_left hle).symm⟩
  · intro timetable window h0 hn hlt _ _
    rw [if_pos ⟨h0, hn⟩]
    exact ⟨rfl, (max_eq_right hlt.le).symm⟩
  · intro h0 hn hlt _
    rw [if_pos ⟨h0, hn⟩]
    exact ⟨rfl, (max_eq_right hlt.le).symm⟩

theorem rtSrvStep_counts (s : RtSrvState) (e : RtSrvEvent) :
    (rtSrvStep s e).1.totalPkts = s.totalPkts + (dataSeqs (rtSrvStep s e).2).length ∧
      (rtSrvStep s e).1.cumSeq = (ackOf s e).foldl max s.cumSeq := by
  refine rtSrvStep_cases (motive := fun r =>
    r.1.totalPkts = s.totalPkts + (dataSeqs r.2).length ∧
      r.1.cumSeq = (ackOf s e).foldl max s.cumSeq) ?_ ?_ ?_ ?_
  · intro hf
    have hnone : ackOf s e = [] := by
      unfold ackOf
      split
      · simp [hf]
      · rfl
    rw [hnone]
    exact ⟨rfl, rfl⟩
  · intro hc
    obtain ⟨w, c, h⟩ := receiveApp_frame s e.fresh e.app
    rw [h, ackOf, hc]
    exact ⟨rfl, rfl⟩
  · intro hc
    rw [ackOf, hc]
    exact ⟨rfl, rfl⟩
  · intro src p hf hc r
    obtain ⟨htotal, hcum⟩ := handleClient_counts s src p { e.fresh with senderTS := e.now }
    obtain ⟨w, c, h⟩ := receiveApp_frame r.1 r.2.1 e.app
    rw [h]
    refine ⟨htotal, hcum.trans ?_⟩
    simp only [ackOf, hc, hf, true_and]
    split_ifs <;> rfl

theorem dataSeqs_handleClient (hnum : ∀ k q, s.window.find? k = some q → q.seq = k)
    (src : SockaddrIn) (p : AckPkt) (d : NetPkt) : dataSeqs (handleClient s src p d).2.2 =
      if p.seq ≠ 0 ∧ p.isNack = true ∧ p.seq ∈ s.window.keys then [p.seq] else [] := by
  refine handleClient_cases (motive := fun r => dataSeqs r.2.2 =
    if p.seq ≠ 0 ∧ p.isNack = true ∧ p.seq ∈ s.window.keys then [p.seq] else [])
    ?_ ?_ ?_ ?_ ?_ ?_ ?_ ?_
  · exact fun h0 _ _ => (if_neg fun h => h.1 h0).symm
  · exact fun h0 _ => (if_neg fun h => h.1 h0).symm
  · exact fun _ _ hw => (if_neg fun h => OrdMap.find?_eq_none.mp hw h.2.2).symm
  · intro cached h0 hn hw _
    rw [if_pos ⟨h0, hn, OrdMap.mem_keys.mpr ⟨cached, hw⟩⟩, ← hnum p.seq cached hw]
    rfl
  · intro cached ts h0 hn hw _
    rw [if_pos ⟨h0, hn, OrdMap.mem_keys.mpr ⟨cached, hw⟩⟩, ← hnum p.seq cached hw]
    rfl
  · exact fun _ hn _ => by simp [hn, dataSeqs]
  · exact fun _ _ _ hn _ _ _ => by simp [hn, dataSeqs]
  · exact fun _ hn _ _ => by simp [hn, dataSeqs]

theorem dataSeqs_rtSrvStep (hnum : ∀ k q, s.window.find? k = some q → q.seq = k) (e : RtSrvEvent) :
    dataSeqs (rtSrvStep s e).2 = askedFor s e := by
  refine rtSrvStep_cases (motive := fun r => dataSeqs r.2 = askedFor s e) ?_ ?_ ?_ ?_
  · intro hf
    unfold askedFor
    split
    · simp [hf, dataSeqs]
    · rfl
  · intro hc
    rw [askedFor, hc]
    rfl
  · intro hc
    rw [askedFor, hc]
    rfl
  · intro src p hf hc r
    refine (dataSeqs_handleClient hnum src p _).trans ?_
    simp only [askedFor, hc, hf, true_and]

-- ---------------------------------------------------------------------------
-- Whole runs
-- ---------------------------------------------------------------------------

variable (sinPort : UInt16) (es : List RtSrvEvent)

def sentIn : List ℕ := dataSeqs (trace rtSrvStep (.init sinPort) es)

def highestAck : ℕ := (gather (next rtSrvStep) ackOf (.init sinPort) es).foldl max 0

def askedIn : List ℕ := gather (next rtSrvStep) askedFor (.init sinPort) es

theorem number_run : ∀ k q,
    (es.foldl (next rtSrvStep) (.init sinPort)).window.find? k = some q → q.seq = k := by
  induction es using List.reverseRecOn with
  | nil =>
    intro k q hq
    simp [RtSrvState.init] at hq
  | append_singleton es e ih =>
    rw [List.foldl_concat]
    exact number_rtSrvStep ih e

theorem sentIn_eq : sentIn sinPort es = askedIn sinPort es := by
  induction es using List.reverseRecOn with
  | nil => rfl
  | append_singleton es e ih =>
    rw [sentIn, askedIn, trace_concat, gather_concat, dataSeqs_append,
      dataSeqs_rtSrvStep (number_run sinPort es), ← askedIn, ← ih, sentIn]

theorem totalPkts_run :
    (es.foldl (next rtSrvStep) (.init sinPort)).totalPkts = (sentIn sinPort es).length := by
  induction es using List.reverseRecOn with
  | nil => rfl
  | append_singleton es e ih =>
    rw [List.foldl_concat, sentIn, trace_concat, dataSeqs_append, List.length_append]
    exact (rtSrvStep_counts _ e).1.trans (congrArg (· + _) ih)

theorem cumSeq_run :
    (es.foldl (next rtSrvStep) (.init sinPort)).cumSeq = highestAck sinPort es := by
  induction es using List.reverseRecOn with
  | nil => rfl
  | append_singleton es e ih =>
    rw [List.foldl_concat, highestAck, gather_concat, List.foldl_append]
    exact (rtSrvStep_counts _ e).2.trans (congrArg (fun c => (ackOf _ e).foldl max c) ih)

/-- After any run the figure is the number of data packets sent beyond the first of
each number exactly when the highest number acknowledged is the number of different
ones that were asked for and cached, or when it is higher than all requests by as many
as were repeated. -/
theorem retransmissions_iff :
    let sent := sentIn sinPort es
    let asked := askedIn sinPort es
    (retransmissions (es.foldl (next rtSrvStep) (.init sinPort)) : ℤ) =
        sent.length - sent.toFinset.card ↔
      highestAck sinPort es = asked.toFinset.card ∨
        (asked.length < highestAck sinPort es ∧
          highestAck sinPort es - asked.length = asked.length - asked.toFinset.card) := by
  intro sent asked
  have hsent : sent = asked := sentIn_eq sinPort es
  have htotal : _ = asked.length := (totalPkts_run sinPort es).trans (congrArg _ hsent)
  have hle : asked.toFinset.card ≤ asked.length := List.toFinset_card_le asked
  rw [retransmissions, htotal, cumSeq_run, hsent]
  split_ifs with h
  · omega
  · omega

/-- A datagram of the application is asked for once. While its acknowledgment is on the
way, the one packet sent is reported as a retransmission. -/
theorem retransmissions_differ :
    let es : List RtSrvEvent := [⟨.idle, some [7], 0, zeroPkt⟩,
      ⟨.msg ⟨1, 5⟩ ⟨1, true⟩, none, 0, zeroPkt⟩]
    retransmissions (es.foldl (next rtSrvStep) (.init 0)) = 1 ∧ sentIn 0 es = [1] := by
  decide +kernel

end Wan.Proj2
