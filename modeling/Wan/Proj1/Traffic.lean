import Wan.Proj1.Labels

/-!
# What the traffic counter counts

`total_trans` grows with every packet a timeout pass looks at, whether it is sent
or only labelled, and not with the reply to a NACK. It is the traffic exactly as
long as every pass finds all its packets labelled `'u'` and no NACK comes. The end
packet gets no label when it is built, so the pass that builds it counts it without
sending it, unless the name has run into its number and made it that of another.
-/

namespace Wan.Proj1

open Posix Lib

variable {env : NcpEnv} {s : NcpState}

-- ---------------------------------------------------------------------------
-- A pass
-- ---------------------------------------------------------------------------

theorem timeoutPass_totalTrans (ps : List NetPkt) (s : NcpState) :
    (timeoutPass ps s).1.totalTrans = s.totalTrans + sizeofNetPkt * ps.length := by
  induction ps generalizing s with
  | nil => simp [timeoutPass]
  | cons p ps ih =>
    rw [timeoutPass_cons, ih]
    simp only [NcpState.visit, List.length_cons]
    push_cast
    ring

theorem timeoutPass_length_iff (ps : List NetPkt) (s : NcpState) :
    (timeoutPass ps s).2.length = ps.length ↔ ∀ p ∈ ps, s.umap.find? p.seq = some .u := by
  constructor
  · intro hlen
    have hsame := (timeoutPass_sublist ps s).eq_of_length hlen
    clear hlen
    induction ps generalizing s with
    | nil => simp
    | cons p ps ih =>
      rw [timeoutPass_cons] at hsame
      dsimp only at hsame
      split_ifs at hsame with hu
      · intro q hq
        rcases List.mem_cons.mp hq with rfl | hq
        · exact hu
        · have hlabel := ih (s.visit p) (List.cons.inj hsame).2 q hq
          rw [NcpState.visit_label] at hlabel
          split_ifs at hlabel with heq
          · rw [heq, hu]
          · exact hlabel
      · have hle := (timeoutPass_sublist ps (s.visit p)).length_le
        rw [hsame, List.length_cons] at hle
        omega
  · intro h
    rw [timeoutPass_all h]

theorem fillWinLoop_startTrans (m : ℕ) (s : NcpState) :
    fillWinLoop env m { s with startTrans := true } =
      { fillWinLoop env m s with startTrans := true } := by
  induction m generalizing s with
  | zero => rfl
  | succ m ih =>
    have hpkt : nextPkt env { s with startTrans := true } = nextPkt env s := rfl
    simp only [fillWinLoop, hpkt]
    split_ifs
    · rfl
    · rw [← ih]

theorem fillWin_startTrans (s : NcpState) :
    fillWin env { s with startTrans := true } = { fillWin env s with startTrans := true } := by
  unfold fillWin
  split_ifs
  · exact fillWinLoop_startTrans _ s
  · rfl

-- ---------------------------------------------------------------------------
-- A step
-- ---------------------------------------------------------------------------

/-- A timeout pass finds the label `'u'` on every packet of the window that `fill_win`
leaves, and no NACK comes. -/
def CountsSent (env : NcpEnv) (s : NcpState) : NcpEvent → Prop
  | .timeout => s.status = .running → s.blocked = false → Labelled (fillWin env s)
  | .ack q => s.status = .running → q.isNack = false

theorem countsSent_iff_timeout (env : NcpEnv) (hb : s.blocked = false) :
    (ncpTimeout env s).1.totalTrans =
        s.totalTrans + sizeofNetPkt * (ncpTimeout env s).2.length ↔ Labelled (fillWin env s) := by
  obtain ⟨r, heq⟩ := ncpTimeout_eq hb (fillWin_startTrans s)
  obtain ⟨w, u, c, pd, pdEnd, hfw⟩ := fillWin_frame env s
  have htotal : (fillWin env s).totalTrans = s.totalTrans := by rw [hfw]
  have hpass := timeoutPass_length_iff (fillWin env s).window
    { fillWin env s with startTrans := true }
  rw [heq, Labelled, ← hpass]
  dsimp only
  rw [timeoutPass_totalTrans, ← htotal, add_right_inj, sizeofNetPkt]
  omega

/-- The call with what was read at `window.end()`. -/
def NcpState.strayCalls (s : NcpState) : ℕ := if s.status = .faulted then 1 else 0

def sendtoCalls (env : NcpEnv) (es : List NcpEvent) : ℕ :=
  (trace (ncpStep env) (.init env) es).length +
    (es.foldl (next (ncpStep env)) (.init env)).strayCalls

/-- A NACK is a call of `sendto_dbg`, whether `find_if` finds a packet or not. -/
theorem calls_recvNack {q : AckPkt} (hr : s.status = .running) (hq : q.isNack = true) :
    (ncpRecv s q).1.totalTrans = s.totalTrans ∧
      (ncpRecv s q).2.length + (ncpRecv s q).1.strayCalls = 1 := by
  cases hf : s.window.find? (fun p => p.seq = q.cumSeq) with
  | none =>
    rw [ncpRecv_missed hq hf]
    exact ⟨rfl, rfl⟩
  | some pkt =>
    obtain ⟨rec, heq⟩ := ncpRecv_found hq hf
    rw [heq]
    exact ⟨rfl, by simp [NcpState.strayCalls, hr]⟩

theorem countsSent_iff (env : NcpEnv) (s : NcpState) (e : NcpEvent) :
    (ncpStep env s e).1.totalTrans + sizeofNetPkt * s.strayCalls = s.totalTrans +
        sizeofNetPkt * ((ncpStep env s e).2.length + (ncpStep env s e).1.strayCalls) ↔
      CountsSent env s e := by
  by_cases hr : s.status = .running
  swap
  · rw [ncpStep_stopped hr]
    refine iff_of_true (by simp) ?_
    cases e with
    | timeout => exact fun hr' => absurd hr' hr
    | ack q => exact fun hr' => absurd hr' hr
  have hstray : s.strayCalls = 0 := by simp [NcpState.strayCalls, hr]
  rw [hstray]
  cases e with
  | timeout =>
    have hstray' : (ncpTimeout env s).1.strayCalls = 0 := by
      simp [NcpState.strayCalls, (ncpTimeout_keeps env s).2.1, hr]
    simp only [ncpStep, hr, CountsSent, forall_const, hstray']
    cases hb : s.blocked with
    | true => simp [ncpTimeout, hb]
    | false => simpa using countsSent_iff_timeout env hb
  | ack q =>
    simp only [ncpStep, hr, CountsSent, forall_const]
    cases hq : q.isNack with
    | false =>
      have hstray' : (ncpRecv s q).1.strayCalls = 0 :=
        if_neg fun hfault => by simpa [hq] using ((ncpRecv_faulted_iff hr).mp hfault).1
      obtain ⟨u, rec, heq, -⟩ := ncpRecv_ack s hq
      rw [hstray', heq]
      simp
    | true =>
      obtain ⟨htotal, hcalls⟩ := calls_recvNack hr hq
      refine iff_of_false (fun h => ?_) (by simp)
      rw [htotal, ← Nat.cast_add, hcalls] at h
      simp [sizeofNetPkt] at h

/-- After every part of a run the counter is the size of a packet times the calls of
`sendto_dbg`, exactly when every timeout pass finds its packets labelled, and no NACK
comes. -/
theorem total_trans_iff (env : NcpEnv) (es : List NcpEvent) :
    (∀ past rest, es = past ++ rest → (past.foldl (next (ncpStep env)) (.init env)).totalTrans =
        sizeofNetPkt * sendtoCalls env past) ↔
      Along (next (ncpStep env)) (CountsSent env) (.init env) es := by
  refine prefixes_iff_along (R := fun past =>
    (past.foldl (next (ncpStep env)) (.init env)).totalTrans = sizeofNetPkt * sendtoCalls env past)
    (by simp [NcpState.init, sendtoCalls, NcpState.strayCalls, trace]) (fun past e _ hpast => ?_) es
  rw [← countsSent_iff env _ e, sendtoCalls, List.foldl_append, trace_concat, List.length_append]
  rw [sendtoCalls] at hpast
  simp only [List.foldl_cons, List.foldl_nil, next]
  push_cast at hpast ⊢
  rw [hpast]
  constructor
  · intro h
    linear_combination h
  · intro h
    linear_combination h

/-- The one packet of a short file is counted when it is built and sent only in the
next pass; the NACK that follows is answered and not counted. -/
theorem total_trans_differs :
    let env : NcpEnv :=
      ⟨true, [7], ⟨[97], by decide⟩, 1, ⟨1, 5⟩, fun _ => fullPkt [] 0 0 false, false⟩
    let es : List NcpEvent := [.timeout, .timeout, .ack ⟨1, 0, true⟩, .ack ⟨1, 0, true⟩]
    [1, 2, 3, 4].map (fun i => ((es.take i).foldl (next (ncpStep env)) (.init env)).totalTrans) =
        [1400, 2800, 2800, 2800] ∧
      [1, 2, 3, 4].map (fun i => sendtoCalls env (es.take i)) = [0, 1, 2, 3] := by
  decide +kernel

end Wan.Proj1
