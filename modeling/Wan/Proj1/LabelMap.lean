import Mathlib.Data.List.TakeWhile
import Wan.Proj1.Labels

/-!
# The label map against the window

`fill_win`, the timeout pass and a NACK for a packet of the window label only what is
in it, and a timeout leaves nothing there without a label. An acknowledgment erases one
label, that of its own number, whatever the numbers it takes off the window. So the map
keeps to the window exactly as long as every acknowledgment takes off no other number.
-/

namespace Wan.Proj1

open Posix Lib

variable {env : NcpEnv} {s : NcpState} {k : ℤ} {ack : AckPkt} {ps : List NetPkt}

def KeysInWindow (s : NcpState) : Prop := ∀ k ∈ s.umap.keys, ∃ p ∈ s.window, p.seq = k

def WindowInKeys (s : NcpState) : Prop := ∀ p ∈ s.window, p.seq ∈ s.umap.keys

structure InStep (env : NcpEnv) (s : NcpState) : Prop where
  keys : KeysInWindow s
  size : s.umap.entries.length ≤ env.wSize

/-- An acknowledgment takes off the window no number but its own, and a NACK is for a
packet that is in it. -/
def OneByOne (s : NcpState) : NcpEvent → Prop
  | .timeout => True
  | .ack q => s.status = .running →
      if q.isNack then ∃ p ∈ s.window, p.seq = q.cumSeq
      else ∀ p ∈ s.window, p.seq ≤ q.cumSeq → p.seq = q.cumSeq

theorem inStep_iff (h : (s.window.length : ℤ) ≤ env.wSize) : InStep env s ↔ KeysInWindow s := by
  refine ⟨InStep.keys, fun hk => ⟨hk, ?_⟩⟩
  have hle : s.umap.entries.length ≤ (s.window.map NetPkt.seq).length :=
    OrdMap.length_entries_le fun k hkey => List.mem_map.mpr (hk k hkey)
  rw [List.length_map] at hle
  omega

theorem length_loopFetches (env : NcpEnv) (m : ℕ) (s : NcpState) :
    (loopFetches env m s).length ≤ m := by
  induction m generalizing s with
  | zero => simp [loopFetches]
  | succ m ih =>
    simp only [loopFetches, List.length_cons]
    split_ifs
    · simp
    · exact Nat.succ_le_succ (ih _)

theorem window_le_step (h : (s.window.length : ℤ) ≤ env.wSize) (e : NcpEvent) :
    ((ncpStep env s e).1.window.length : ℤ) ≤ env.wSize := by
  by_cases hr : s.status = .running
  swap
  · rwa [ncpStep_stopped hr]
  cases e with
  | timeout =>
    simp only [ncpStep, hr]
    cases hb : s.blocked with
    | true => simpa [ncpTimeout, hb] using h
    | false =>
      rw [(window_ncpTimeout env hb).1, fillWin_window, List.length_append, List.length_map]
      unfold winFetches
      split_ifs
      · have hnew := length_loopFetches env (env.wSize - s.window.length).toNat
          { s with startTrans := true }
        push_cast
        omega
      · simpa using h
  | ack q =>
    simp only [ncpStep, hr]
    obtain ⟨⟨d, hw⟩, -⟩ := window_ncpRecv s q
    rw [hw, List.length_drop]
    omega

-- ---------------------------------------------------------------------------
-- A timeout
-- ---------------------------------------------------------------------------

theorem KeysInWindow.fillWinLoop (h : KeysInWindow s) (m : ℕ) :
    KeysInWindow (fillWinLoop env m s) := by
  induction m generalizing s with
  | zero => exact h
  | succ m ih =>
    simp only [Proj1.fillWinLoop]
    have hgrow : ∀ k ∈ s.umap.keys, ∃ p ∈ s.window ++ [(nextPkt env s).2.2], p.seq = k := by
      intro k hk
      obtain ⟨p, hp, hseq⟩ := h k hk
      exact ⟨p, List.mem_append_left _ hp, hseq⟩
    split_ifs
    · exact hgrow
    · refine ih fun k hk => ?_
      rcases OrdMap.mem_keys_insert.mp hk with rfl | hk
      · exact ⟨_, List.mem_append_right _ (List.mem_singleton_self _), rfl⟩
      · exact hgrow k hk

theorem KeysInWindow.fillWin (h : KeysInWindow s) : KeysInWindow (fillWin env s) := by
  unfold Proj1.fillWin
  split_ifs
  · exact h.fillWinLoop _
  · exact h

theorem keys_timeoutPass : k ∈ (timeoutPass ps s).1.umap.keys ↔
    k ∈ s.umap.keys ∨ ∃ p ∈ ps, p.seq = k := by
  induction ps generalizing s with
  | nil => simp [timeoutPass]
  | cons p ps ih =>
    have hvisit : k ∈ (s.visit p).umap.keys ↔ k ∈ s.umap.keys ∨ p.seq = k := by
      rw [OrdMap.mem_keys_iff_isSome, OrdMap.mem_keys_iff_isSome, NcpState.visit_label]
      split_ifs with hk
      · simp [hk]
      · simp [Ne.symm hk]
    rw [timeoutPass_cons, ih, hvisit, List.exists_mem_cons_iff, or_assoc]

theorem keys_ncpTimeout (hb : s.blocked = false) : k ∈ (ncpTimeout env s).1.umap.keys ↔
    k ∈ (fillWin env { s with startTrans := true }).umap.keys ∨
      ∃ p ∈ (ncpTimeout env s).1.window, p.seq = k := by
  obtain ⟨t, ht⟩ : ∃ t, fillWin env { s with startTrans := true } = t := ⟨_, rfl⟩
  obtain ⟨l, heq⟩ := ncpTimeout_eq hb ht
  rw [(window_ncpTimeout env hb).1, heq, ht, ← keys_timeoutPass]

theorem KeysInWindow.timeout (h : KeysInWindow s) : KeysInWindow (ncpTimeout env s).1 := by
  cases hb : s.blocked with
  | true => simpa [ncpTimeout, hb] using h
  | false =>
    have hfill : KeysInWindow (Proj1.fillWin env { s with startTrans := true }) :=
      KeysInWindow.fillWin h
    intro k hk
    rcases (keys_ncpTimeout hb).mp hk with hk | hp
    · rw [(window_ncpTimeout env hb).1]
      exact hfill k hk
    · exact hp

theorem WindowInKeys.timeout (h : WindowInKeys s) : WindowInKeys (ncpTimeout env s).1 := by
  cases hb : s.blocked with
  | true => simpa [ncpTimeout, hb] using h
  | false => exact fun p hp => (keys_ncpTimeout hb).mpr (.inr ⟨p, hp, rfl⟩)

-- ---------------------------------------------------------------------------
-- An `ack_pkt`
-- ---------------------------------------------------------------------------

/-- The label of `cum_seq` is erased when anything is dequeued, and no other. -/
theorem keys_dequeueAcked : k ∈ (dequeueAcked ack ps s).umap.keys ↔
    k ∈ s.umap.keys ∧ (k = ack.cumSeq → ∀ p ∈ ps.head?, ack.cumSeq < p.seq) := by
  induction ps generalizing s with
  | nil => simp [dequeueAcked]
  | cons p ps ih =>
    rw [dequeueAcked]
    split_ifs with hle
    · rw [ih, OrdMap.mem_keys_erase]
      have hfront : ¬ ∀ q ∈ (p :: ps).head?, ack.cumSeq < q.seq := fun h => (h p rfl).not_ge hle
      constructor
      · rintro ⟨⟨hk, hne⟩, -⟩
        exact ⟨hk, fun heq => absurd heq hne⟩
      · rintro ⟨hk, himp⟩
        exact ⟨⟨hk, fun heq => hfront (himp heq)⟩, fun heq => absurd (himp heq) hfront⟩
    · refine (and_iff_left fun _ q hq => ?_).symm
      obtain rfl := Option.some.inj hq
      exact not_le.mp hle

theorem keys_ncpRecv_ack (hack : ack.isNack = false) : k ∈ (ncpRecv s ack).1.umap.keys ↔
    k ∈ s.umap.keys ∧ (k = ack.cumSeq → ∀ p ∈ s.window.head?, ack.cumSeq < p.seq) := by
  obtain ⟨t, ht⟩ : ∃ t, dequeueAcked ack s.window { s with blocked := s.blockedBy ack } = t :=
    ⟨_, rfl⟩
  obtain ⟨r, hr⟩ := report_frame t
  have hdq : k ∈ t.umap.keys ↔
      k ∈ s.umap.keys ∧ (k = ack.cumSeq → ∀ p ∈ s.window.head?, ack.cumSeq < p.seq) := by
    rw [← ht]
    exact keys_dequeueAcked
  rw [← hdq]
  simp only [NcpState.blockedBy] at ht
  simp only [ncpRecv, hack, Bool.not_false, ↓reduceIte, ht]
  split_ifs
  · exact Iff.rfl
  · rw [hr]

theorem window_recvAck (hack : ack.isNack = false) :
    (ncpRecv s ack).1.window = s.window.dropWhile fun p => p.seq ≤ ack.cumSeq := by
  obtain ⟨u, rec, heq, -⟩ := ncpRecv_ack s hack
  rw [heq]

theorem mem_window_recvAck {p : NetPkt} (hack : ack.isNack = false) (hp : p ∈ s.window)
    (hlt : ack.cumSeq < p.seq) : p ∈ (ncpRecv s ack).1.window := by
  rw [window_recvAck hack]
  have hsplit := List.takeWhile_append_dropWhile (p := fun p : NetPkt => p.seq ≤ ack.cumSeq)
    (l := s.window)
  rw [← hsplit] at hp
  rcases List.mem_append.mp hp with hp | hp
  · have hle := List.mem_takeWhile_imp hp
    simp only [decide_eq_true_eq] at hle
    omega
  · exact hp

theorem Ascending.keysInWindow_recvAck (h : Ascending env s) (hk : KeysInWindow s)
    (hw : WindowInKeys s) (hack : ack.isNack = false) : KeysInWindow (ncpRecv s ack).1 ↔
      ∀ p ∈ s.window, p.seq ≤ ack.cumSeq → p.seq = ack.cumSeq := by
  constructor
  · intro hk' p hp hle
    by_contra hne
    obtain ⟨q, hq, hseq⟩ :=
      hk' _ ((keys_ncpRecv_ack hack).mpr ⟨hw _ hp, fun heq => absurd heq hne⟩)
    rw [window_recvAck hack] at hq
    have hlt := h.lt_of_mem hq
    omega
  · intro hone k hkey
    obtain ⟨hold, hfront⟩ := (keys_ncpRecv_ack hack).mp hkey
    obtain ⟨p, hp, rfl⟩ := hk k hold
    refine ⟨p, mem_window_recvAck hack hp ?_, rfl⟩
    by_contra hle
    -- the number `cum_seq` is dequeued, so its label is gone
    have hseq := hone p hp (not_lt.mp hle)
    have hsorted := h.sorted
    cases hwin : s.window with
    | nil => simp [hwin] at hp
    | cons q l =>
      rw [hwin] at hp hfront hsorted
      have hlt := hfront hseq q rfl
      rcases List.mem_cons.mp hp with rfl | hp
      · omega
      · have := (List.pairwise_cons.mp hsorted).1 p hp
        omega

theorem Ascending.windowInKeys_recvAck (h : Ascending env s) (hw : WindowInKeys s)
    (hack : ack.isNack = false) : WindowInKeys (ncpRecv s ack).1 := by
  intro p hp
  rw [window_recvAck hack] at hp
  have hlt := h.lt_of_mem hp
  have hmem : p ∈ s.window := (List.dropWhile_suffix _).subset hp
  exact (keys_ncpRecv_ack hack).mpr ⟨hw _ hmem, fun hseq => absurd hseq hlt.ne'⟩

theorem keys_recvNack (hack : ack.isNack = true) (s : NcpState) :
    (ncpRecv s ack).1.window = s.window ∧
      ∀ k, k ∈ (ncpRecv s ack).1.umap.keys ↔ k = ack.cumSeq ∨ k ∈ s.umap.keys := by
  cases hf : s.window.find? (fun p => p.seq = ack.cumSeq) with
  | none =>
    rw [ncpRecv_missed hack hf]
    exact ⟨rfl, fun k => OrdMap.mem_keys_insert⟩
  | some pkt =>
    obtain ⟨rec, heq⟩ := ncpRecv_found hack hf
    rw [heq]
    exact ⟨rfl, fun k => OrdMap.mem_keys_insert⟩

-- ---------------------------------------------------------------------------
-- Whole runs
-- ---------------------------------------------------------------------------

theorem WindowInKeys.step (hw : WindowInKeys s) (h : Ascending env s) (e : NcpEvent) :
    WindowInKeys (ncpStep env s e).1 := by
  unfold ncpStep
  split
  · cases e with
    | timeout => exact hw.timeout
    | ack q =>
      cases hq : q.isNack with
      | false => exact h.windowInKeys_recvAck hw hq
      | true =>
        obtain ⟨hwindow, hkeys⟩ := keys_recvNack hq s
        intro p hp
        exact (hkeys _).mpr (.inr (hw p (hwindow ▸ hp)))
  · exact hw

/-- The step lemma: only an `ack_pkt` can put the map out of step. -/
theorem KeysInWindow.step_iff (hk : KeysInWindow s) (hw : WindowInKeys s) (h : Ascending env s)
    (e : NcpEvent) : KeysInWindow (ncpStep env s e).1 ↔ OneByOne s e := by
  by_cases hr : s.status = .running
  swap
  · rw [ncpStep_stopped hr]
    refine iff_of_true hk ?_
    cases e with
    | timeout => trivial
    | ack q => exact fun hr' => absurd hr' hr
  cases e with
  | timeout =>
    simp only [ncpStep, hr]
    exact iff_of_true hk.timeout trivial
  | ack q =>
    simp only [ncpStep, hr, OneByOne, forall_const]
    cases hq : q.isNack with
    | false => simpa using h.keysInWindow_recvAck hk hw hq
    | true =>
      obtain ⟨hwindow, hkeys⟩ := keys_recvNack hq s
      rw [if_pos rfl]
      constructor
      · intro hk'
        rw [← hwindow]
        exact hk' _ ((hkeys _).mpr (.inl rfl))
      · intro hfound k hkey
        rw [hwindow]
        rcases (hkeys k).mp hkey with rfl | hkey
        · exact hfound
        · exact hk k hkey

/-- Throughout a run of the sender every label is that of a packet in the window, and
there are no more labels than a window holds, exactly when no acknowledgment takes
off the window a number other than its own and every NACK is for a packet in it. -/
theorem label_map_in_step_iff (env : NcpEnv) (es : List NcpEvent) :
    (∀ past rest, es = past ++ rest → InStep env (past.foldl (next (ncpStep env)) (.init env))) ↔
      Along (next (ncpStep env)) OneByOne (.init env) es := by
  have hpos := env.wSize_pos
  refine inv_iff_along (J := fun s => Ascending env s ∧ (s.window.length : ℤ) ≤ env.wSize ∧
    WindowInKeys s) ?_ ?_ ?_ ?_ es
  · rintro s e ⟨h, hsize, hw⟩
    exact ⟨h.step e, window_le_step hsize e, hw.step h e⟩
  · rintro s e ⟨h, hsize, hw⟩ hin
    rw [next, inStep_iff (window_le_step hsize e)]
    exact hin.keys.step_iff hw h e
  · exact ⟨ascending_run env [], hpos.le, fun p hp => by cases hp⟩
  · exact (inStep_iff (s := .init env) hpos.le).mpr fun k hk => by cases hk

/-- Two of three packets are taken off the window by one acknowledgment, and the label
of the first stays. -/
theorem label_left_behind :
    let env : NcpEnv := ⟨true, .replicate (2 * pktDtSize + 1) 7, ⟨[97], by decide⟩, 1, ⟨1, 5⟩,
      fun _ => fullPkt [] 0 0 false, false⟩
    let es : List NcpEvent := [.timeout, .timeout, .ack ⟨2, 0, false⟩]
    let s := es.foldl (next (ncpStep env)) (.init env)
    s.status = .running ∧ s.umap.keys = [1, 3] ∧ s.window.map NetPkt.seq = [3] ∧
      ¬ InStep env s := by
  intro env es s
  have hkeys : s.umap.keys = [1, 3] := by decide +kernel
  have hwindow : s.window.map NetPkt.seq = [3] := by decide +kernel
  refine ⟨by decide +kernel, hkeys, hwindow, fun h => ?_⟩
  obtain ⟨p, hp, hseq⟩ := h.keys 1 (by rw [hkeys]; decide)
  have hmem := List.mem_map_of_mem (f := NetPkt.seq) hp
  rw [hwindow, hseq] at hmem
  exact absurd hmem (by decide)

end Wan.Proj1
