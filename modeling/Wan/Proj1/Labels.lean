import Wan.Proj1.Chunking

/-!
# What the labels make of the timeout passes

A timeout pass sends the packets labelled `'u'` and labels the others so. The
label goes away again with a NACK, whose reply sends the packet, or with an
acknowledgment of just that number, which takes the packet out of the window. So
what one pass skips the next one sends.

None of this needs a name that fits: one that runs into `seq` gives several packets
one number and with it one label, but the numbers in the window never fall.
-/

namespace Wan.Proj1

open Posix Lib

variable {env : NcpEnv} {s : NcpState} {k : ℤ} {ack : AckPkt} {p : NetPkt} {ps : List NetPkt}

-- ---------------------------------------------------------------------------
-- The numbers in the window
-- ---------------------------------------------------------------------------

def NcpEnv.seqAt (env : NcpEnv) (k : ℤ) : ℤ := overlay 8 k (slice (env.dFname.1 ++ [0]) 20 8)

theorem nextPkt_seq (env : NcpEnv) (s : NcpState) :
    (nextPkt env s).2.2.seq = env.seqAt s.pktCnt := rfl

structure Ascending (env : NcpEnv) (s : NcpState) : Prop where
  sorted : s.window.Pairwise fun p q => p.seq ≤ q.seq
  bound : ∀ p ∈ s.window, p.seq ≤ env.seqAt s.pktCnt

theorem Ascending.fillWinLoop (h : Ascending env s) (m : ℕ) :
    Ascending env (fillWinLoop env m s) := by
  induction m generalizing s with
  | zero => exact h
  | succ m ih =>
    have hnext : env.seqAt s.pktCnt ≤ env.seqAt (s.pktCnt + 1) := overlay_mono _ _ (by omega)
    have hpush (umap : OrdMap ℤ Label) : Ascending env { s with
        window := s.window ++ [(nextPkt env s).2.2]
        pd := (nextPkt env s).1
        pdEnd := (nextPkt env s).2.1
        pktCnt := s.pktCnt + 1
        umap := umap } := by
      constructor
      · refine List.pairwise_append.mpr ⟨h.sorted, List.pairwise_singleton _ _, ?_⟩
        intro p hp q hq
        rw [List.mem_singleton.mp hq, nextPkt_seq]
        exact h.bound p hp
      · intro p hp
        rcases List.mem_append.mp hp with hp | hp
        · exact (h.bound p hp).trans hnext
        · rw [List.mem_singleton.mp hp, nextPkt_seq]
          exact hnext
    simp only [Proj1.fillWinLoop]
    split_ifs
    · exact hpush s.umap
    · exact ih (hpush _)

theorem Ascending.fillWin (h : Ascending env s) : Ascending env (fillWin env s) := by
  unfold Proj1.fillWin
  split_ifs
  · exact h.fillWinLoop _
  · exact h

theorem Ascending.of_sublist {t : NcpState} (h : Ascending env s)
    (hw : t.window.Sublist s.window) (hc : t.pktCnt = s.pktCnt) : Ascending env t :=
  ⟨h.sorted.sublist hw, fun p hp => hc ▸ h.bound p (hw.subset hp)⟩

theorem Ascending.lt_of_mem (h : Ascending env s) {c : ℤ}
    (hp : p ∈ s.window.dropWhile fun q => q.seq ≤ c) : c < p.seq := by
  have hsorted := h.sorted
  generalize s.window = l at hp hsorted
  induction l with
  | nil => cases hp
  | cons q l ih =>
    obtain ⟨hq, hl⟩ := List.pairwise_cons.mp hsorted
    rw [List.dropWhile_cons] at hp
    split_ifs at hp with hle
    · exact ih hp hl
    · have hlt : c < q.seq := by simpa using hle
      rcases List.mem_cons.mp hp with rfl | hp
      · exact hlt
      · exact hlt.trans_le (hq p hp)

theorem window_ncpTimeout (env : NcpEnv) (hb : s.blocked = false) :
    (ncpTimeout env s).1.window = (fillWin env { s with startTrans := true }).window ∧
      (ncpTimeout env s).1.pktCnt = (fillWin env { s with startTrans := true }).pktCnt := by
  obtain ⟨t, ht⟩ : ∃ t, fillWin env { s with startTrans := true } = t := ⟨_, rfl⟩
  obtain ⟨l, heq⟩ := ncpTimeout_eq hb ht
  obtain ⟨tt, u, l', hpass⟩ := timeoutPass_frame t.window t
  rw [heq, hpass, ht]
  exact ⟨rfl, rfl⟩

theorem window_ncpRecv (s : NcpState) (ack : AckPkt) :
    (∃ d, (ncpRecv s ack).1.window = s.window.drop d) ∧ (ncpRecv s ack).1.pktCnt = s.pktCnt := by
  cases hack : ack.isNack with
  | false =>
    obtain ⟨u, rec, heq, -⟩ := ncpRecv_ack s hack
    rw [heq]
    exact ⟨⟨_, List.suffix_iff_eq_drop.mp (List.dropWhile_suffix _)⟩, rfl⟩
  | true =>
    cases hf : s.window.find? (fun p => p.seq = ack.cumSeq) with
    | none =>
      rw [ncpRecv_missed hack hf]
      exact ⟨⟨0, rfl⟩, rfl⟩
    | some pkt =>
      obtain ⟨rec, heq⟩ := ncpRecv_found hack hf
      rw [heq]
      exact ⟨⟨0, rfl⟩, rfl⟩

theorem Ascending.step (h : Ascending env s) (e : NcpEvent) :
    Ascending env (ncpStep env s e).1 := by
  by_cases hr : s.status = .running
  swap
  · rwa [ncpStep_stopped hr]
  cases e with
  | timeout =>
    simp only [ncpStep, hr]
    cases hb : s.blocked with
    | true => simpa [ncpTimeout, hb] using h
    | false =>
      have hstart : Ascending env { s with startTrans := true } := ⟨h.sorted, h.bound⟩
      obtain ⟨hw, hc⟩ := window_ncpTimeout env hb
      exact hstart.fillWin.of_sublist (hw ▸ List.Sublist.refl _) hc
  | ack q =>
    simp only [ncpStep, hr]
    obtain ⟨⟨d, hw⟩, hc⟩ := window_ncpRecv s q
    exact h.of_sublist (hw ▸ List.drop_sublist d s.window) hc

theorem ascending_run (env : NcpEnv) (es : List NcpEvent) :
    Ascending env (es.foldl (next (ncpStep env)) (.init env)) :=
  along_trivial.inv (I := Ascending env) ⟨.nil, by simp [NcpState.init]⟩ fun _ e h _ => h.step e

-- ---------------------------------------------------------------------------
-- Where labels change
-- ---------------------------------------------------------------------------

theorem fillWinLoop_keeps (m : ℕ) (h : s.umap.find? k = some .u) :
    (fillWinLoop env m s).umap.find? k = some .u := by
  induction m generalizing s with
  | zero => exact h
  | succ m ih =>
    simp only [fillWinLoop]
    split_ifs
    · exact h
    · apply ih
      rw [OrdMap.find?_insert, h, ite_self]

theorem fillWin_keeps (h : s.umap.find? k = some .u) :
    (fillWin env s).umap.find? k = some .u := by
  unfold fillWin
  split_ifs
  · exact fillWinLoop_keeps _ h
  · exact h

theorem mem_timeoutPass (hp : p ∈ ps) (h : s.umap.find? p.seq = some .u) :
    p ∈ (timeoutPass ps s).2 := by
  induction ps generalizing s with
  | nil => cases hp
  | cons q ps ih =>
    rw [timeoutPass_cons]
    rcases List.mem_cons.mp hp with rfl | hp
    · rw [if_pos h]
      exact List.mem_cons_self
    · have hrest : p ∈ (timeoutPass ps (s.visit q)).2 :=
        ih hp (by rw [NcpState.visit_label, h, ite_self])
      dsimp only
      split_ifs
      · exact List.mem_cons_of_mem _ hrest
      · exact hrest

theorem mem_ncpTimeout (hb : s.blocked = false) (hp : p ∈ (ncpTimeout env s).1.window)
    (h : s.umap.find? p.seq = some .u) : p ∈ (ncpTimeout env s).2 := by
  obtain ⟨t, ht⟩ : ∃ t, fillWin env { s with startTrans := true } = t := ⟨_, rfl⟩
  obtain ⟨l, heq⟩ := ncpTimeout_eq hb ht
  rw [(window_ncpTimeout env hb).1, ht] at hp
  rw [heq]
  exact mem_timeoutPass hp (ht ▸ fillWin_keeps h)

-- ---------------------------------------------------------------------------
-- Between two passes
-- ---------------------------------------------------------------------------

def NoPass (s : NcpState) (e : NcpEvent) : Prop := e = .timeout → s.blocked = true

instance (s : NcpState) (e : NcpEvent) : Decidable (NoPass s e) :=
  inferInstanceAs (Decidable (_ → _))

def Answered (env : NcpEnv) (p : NetPkt) (s : NcpState) (es : List NcpEvent) : Prop :=
  ∃ pre q post, es = pre ++ .ack q :: post ∧ q.isNack = true ∧
    p ∈ (ncpStep env (pre.foldl (next (ncpStep env)) s) (.ack q)).2

theorem Answered.cons {e : NcpEvent} {es : List NcpEvent}
    (h : Answered env p (next (ncpStep env) s e) es) : Answered env p s (e :: es) := by
  obtain ⟨pre, q, post, rfl, hq, hp⟩ := h
  exact ⟨e :: pre, q, post, rfl, hq, hp⟩

theorem mem_timeoutPass_of_earlier {pre post : List NetPkt} {q : NetPkt} (hq : q ∈ pre)
    (h : q.seq = p.seq) : p ∈ (timeoutPass (pre ++ p :: post) s).2 := by
  induction pre generalizing s with
  | nil => cases hq
  | cons r pre ih =>
    have hrest : p ∈ (timeoutPass (pre ++ p :: post) (s.visit r)).2 := by
      rcases List.mem_cons.mp hq with rfl | hq
      · exact mem_timeoutPass (by simp) (by rw [NcpState.visit_label, if_pos h.symm])
      · exact ih hq
    rw [List.cons_append, timeoutPass_cons]
    dsimp only
    split_ifs
    · exact List.mem_cons_of_mem _ hrest
    · exact hrest

/-- A packet that was labelled in the pass and is the first one of its number keeps the
label while it waits, unless a NACK for it is answered. -/
theorem Ascending.wait (h : Ascending env s) {e : NcpEvent} (he : NoPass s e) :
    ∃ d, (ncpStep env s e).1.window = s.window.drop d ∧ (ncpStep env s e).1.pktCnt = s.pktCnt ∧
      ∀ i p, d ≤ i → s.window[i]? = some p → (∀ q ∈ s.window.take i, q.seq ≠ p.seq) →
        s.umap.find? p.seq = some .u → (ncpStep env s e).1.umap.find? p.seq = some .u ∨
          ∃ q, e = .ack q ∧ q.isNack = true ∧ p ∈ (ncpStep env s e).2 := by
  by_cases hr : s.status = .running
  swap
  · rw [ncpStep_stopped hr]
    exact ⟨0, rfl, rfl, fun i p _ _ _ hu => .inl hu⟩
  cases e with
  | timeout =>
    have hidle : ncpStep env s .timeout = (s, []) := by
      simp [ncpStep, hr, ncpTimeout, he rfl]
    rw [hidle]
    exact ⟨0, rfl, rfl, fun i p _ _ _ hu => .inl hu⟩
  | ack q =>
    simp only [ncpStep, hr]
    obtain ⟨⟨d, hw⟩, hc⟩ := window_ncpRecv s q
    refine ⟨d, hw, hc, fun i p hi hat hfirst hu => ?_⟩
    cases hq : q.isNack with
    | false =>
      obtain ⟨u, rec, heq, hlabel⟩ := ncpRecv_ack s hq
      have hmem : p ∈ s.window.dropWhile fun r => r.seq ≤ q.cumSeq := by
        have hwin : (ncpRecv s q).1.window = s.window.dropWhile fun r => r.seq ≤ q.cumSeq := by
          rw [heq]
        rw [← hwin, hw]
        refine List.mem_of_getElem? (i := i - d) ?_
        rwa [List.getElem?_drop, Nat.add_sub_cancel' hi]
      have hne : p.seq ≠ q.cumSeq := (h.lt_of_mem hmem).ne'
      rw [heq]
      exact .inl (((hlabel _).resolve_right fun hno => hne hno.1).trans hu)
    | true =>
      by_cases hk : p.seq = q.cumSeq
      · -- `find_if` stops at the packet, none before it has its number
        have hfind : s.window.find? (fun r => r.seq = q.cumSeq) = some p := by
          obtain ⟨hlt, rfl⟩ := List.getElem?_eq_some_iff.mp hat
          refine List.find?_eq_some_iff_append.mpr ⟨by simpa using hk, s.window.take i,
            s.window.drop (i + 1), ?_, fun r hr => ?_⟩
          · rw [← List.drop_eq_getElem_cons hlt, List.take_append_drop]
          · simpa [← hk] using hfirst r hr
        obtain ⟨rec, heq⟩ := ncpRecv_found hq hfind
        rw [heq]
        exact .inr ⟨q, rfl, hq, List.mem_singleton_self p⟩
      · left
        cases hf : s.window.find? (fun r => r.seq = q.cumSeq) with
        | none =>
          rw [ncpRecv_missed hq hf, OrdMap.find?_insert, if_neg hk]
          exact hu
        | some pkt =>
          obtain ⟨rec, heq⟩ := ncpRecv_found hq hf
          rw [heq, OrdMap.find?_insert, if_neg hk]
          exact hu

theorem Ascending.wait_run (h : Ascending env s) {es : List NcpEvent}
    (hes : Along (next (ncpStep env)) NoPass s es) :
    let t := es.foldl (next (ncpStep env)) s
    ∃ d, t.window = s.window.drop d ∧ t.pktCnt = s.pktCnt ∧
      ∀ i p, d ≤ i → s.window[i]? = some p → (∀ q ∈ s.window.take i, q.seq ≠ p.seq) →
        s.umap.find? p.seq = some .u → t.umap.find? p.seq = some .u ∨ Answered env p s es := by
  induction es generalizing s with
  | nil => exact ⟨0, rfl, rfl, fun i p _ _ _ hu => .inl hu⟩
  | cons e es ih =>
    obtain ⟨d₁, hw₁, hc₁, hkeep₁⟩ := h.wait hes.1
    obtain ⟨d₂, hw₂, hc₂, hkeep₂⟩ := ih (h.step e) hes.2
    refine ⟨d₁ + d₂, ?_, hc₂.trans hc₁, fun i p hi hat hfirst hu => ?_⟩
    · rw [← List.drop_drop, ← hw₁]
      exact hw₂
    · rcases hkeep₁ i p (by omega) hat hfirst hu with hu₁ | ⟨q, rfl, hq, hout⟩
      · refine (hkeep₂ (i - d₁) p (by omega) ?_ ?_ hu₁).imp_right .cons
        · rwa [hw₁, List.getElem?_drop, Nat.add_sub_cancel' (by omega)]
        · intro q hq
          rw [hw₁, List.take_drop, Nat.add_sub_cancel' (by omega)] at hq
          exact hfirst q (List.mem_of_mem_drop hq)
      · exact .inr ⟨[], q, es, rfl, hq, hout⟩

-- ---------------------------------------------------------------------------
-- Two passes
-- ---------------------------------------------------------------------------

/-- Packet number `k` is in the window and reads `p`: the packets of the window are the
last ones that were built, in turn. -/
def NcpState.Holds (s : NcpState) (k : ℤ) (p : NetPkt) : Prop :=
  ∃ i : ℕ, s.window[i]? = some p ∧ k = s.pktCnt - s.window.length + i

theorem fillWinLoop_pktCnt (m : ℕ) (s : NcpState) :
    (fillWinLoop env m s).pktCnt = s.pktCnt + (loopFetches env m s).length := by
  induction m generalizing s with
  | zero => simp [fillWinLoop, loopFetches]
  | succ m ih =>
    simp only [fillWinLoop, loopFetches]
    split_ifs
    · rfl
    · rw [ih, List.length_cons]
      push_cast
      ring

theorem fillWin_pktCnt (env : NcpEnv) (s : NcpState) :
    (fillWin env s).pktCnt = s.pktCnt + (winFetches env s).length := by
  unfold fillWin winFetches
  split_ifs
  · exact fillWinLoop_pktCnt _ s
  · simp

theorem holds_ncpTimeout (hb : s.blocked = false) (hk : k < s.pktCnt)
    (h : (ncpTimeout env s).1.Holds k p) : s.Holds k p := by
  obtain ⟨i, hat, heq⟩ := h
  obtain ⟨hw, hc⟩ := window_ncpTimeout env hb
  have hw' := fillWin_window env { s with startTrans := true }
  have hc' := fillWin_pktCnt env { s with startTrans := true }
  rw [hw, hw', List.length_append, List.length_map, hc, hc'] at heq
  have hi : i < s.window.length := by
    push_cast at heq
    omega
  rw [hw, hw', List.getElem?_append_left hi] at hat
  exact ⟨i, hat, by push_cast at heq; omega⟩

/-- In every run, with two timeout passes in a row that are not blocked and
whatever happens between them: a packet that both find in the window is sent by
one of them, or by the reply to a NACK between them. -/
theorem never_skipped_twice (env : NcpEnv) (past mid : List NcpEvent) (k : ℤ) (p : NetPkt) :
    let s := past.foldl (next (ncpStep env)) (.init env)
    let first := ncpStep env s .timeout
    let t := mid.foldl (next (ncpStep env)) first.1
    let second := ncpStep env t .timeout
    s.status = .running → s.blocked = false → Along (next (ncpStep env)) NoPass first.1 mid →
      t.status = .running → t.blocked = false → first.1.Holds k p → second.1.Holds k p →
      p ∈ first.2 ∨ p ∈ second.2 ∨ Answered env p first.1 mid := by
  intro s first t second hr hb hmid hr' hb' hp hp'
  have hfirst : first = ncpTimeout env s := by simp only [first, ncpStep, hr]
  have hsecond : second = ncpTimeout env t := by simp only [second, ncpStep, hr']
  have hasc : Ascending env first.1 := (ascending_run env past).step .timeout
  obtain ⟨d, hw, hc, hkeep⟩ := hasc.wait_run hmid
  obtain ⟨i, hat, hk⟩ := hp
  obtain ⟨hi, hget⟩ := List.getElem?_eq_some_iff.mp hat
  -- the packet was in the window all the time
  obtain ⟨j, hat', hk'⟩ : t.Holds k p := by
    rw [hsecond] at hp'
    refine holds_ncpTimeout hb' ?_ hp'
    rw [show t.pktCnt = first.1.pktCnt from hc]
    omega
  have hj : j < t.window.length := (List.getElem?_eq_some_iff.mp hat').1
  have hlen : t.window.length = first.1.window.length - d := by
    rw [show t.window = _ from hw, List.length_drop]
  have hdi : d ≤ i := by
    rw [show t.pktCnt = first.1.pktCnt from hc] at hk'
    omega
  -- the pass that sends it, or labels it
  obtain ⟨u, hu⟩ : ∃ u, fillWin env { s with startTrans := true } = u := ⟨_, rfl⟩
  obtain ⟨l, heq⟩ := ncpTimeout_eq hb hu
  have hwindow : first.1.window = u.window := by
    rw [hfirst, (window_ncpTimeout env hb).1, hu]
  have hout : first.2 = (timeoutPass u.window u).2 := by rw [hfirst, heq]
  have hsplit : first.1.window = first.1.window.take i ++ p :: first.1.window.drop (i + 1) := by
    rw [← hget, ← List.drop_eq_getElem_cons hi, List.take_append_drop]
  by_cases hearlier : ∃ q ∈ first.1.window.take i, q.seq = p.seq
  · obtain ⟨q, hq, hseq⟩ := hearlier
    left
    rw [hout, ← hwindow, hsplit]
    exact mem_timeoutPass_of_earlier hq hseq
  · have hlabel : first.1.umap.find? p.seq = some .u := by
      rw [hfirst, heq]
      exact timeoutPass_labels (hwindow ▸ List.mem_of_getElem? hat)
    have hnone (q : NetPkt) (hq : q ∈ first.1.window.take i) : q.seq ≠ p.seq :=
      fun hseq => hearlier ⟨q, hq, hseq⟩
    rcases hkeep i p hdi hat hnone hlabel with hu' | hans
    · refine .inr (.inl ?_)
      obtain ⟨i', hat'', -⟩ := hp'
      rw [hsecond] at hat'' ⊢
      exact mem_ncpTimeout hb' (List.mem_of_getElem? hat'') hu'
    · exact .inr (.inr hans)

/-- The one packet of a short file, with a NACK for it between the passes: it has
no label in the first pass and the label `'s'` in the second. -/
theorem never_skipped_twice_nack :
    let env : NcpEnv :=
      ⟨true, [7], ⟨[97], by decide⟩, 1, ⟨1, 5⟩, fun _ => fullPkt [] 0 0 false, false⟩
    let first := ncpStep env (.init env) .timeout
    let mid : List NcpEvent := [.ack ⟨0, 0, false⟩, .ack ⟨1, 0, true⟩]
    let second := ncpStep env (mid.foldl (next (ncpStep env)) first.1) .timeout
    first.2 = [] ∧ second.2 = [] ∧ (ncpPkt env 1 ∈ first.2 ∨ ncpPkt env 1 ∈ second.2 ∨
      Answered env (ncpPkt env 1) first.1 mid) := by
  intro env first mid second
  have h := never_skipped_twice env [] mid 1 (ncpPkt env 1) (by decide +kernel)
    (by decide +kernel) (by decide +kernel) (by decide +kernel) (by decide +kernel)
    ⟨0, by decide +kernel, by decide +kernel⟩ ⟨0, by decide +kernel, by decide +kernel⟩
  exact ⟨by decide +kernel, by decide +kernel, h⟩

end Wan.Proj1
