import Wan.Proj1.Ncp

/-!
# The sender's window

`fill_win` builds packet after packet from the two streams, so the `k`-th one is
`ncpPkt env k`, whatever the window held when it was built, and it carries chunk
`k`. Between two passes of the loop the window is a run `b, …, n - 1` of these
packets (`Sending`): acknowledgments move `b`, refilling moves `n`, and the
label map decides only which of them a timeout sends.
-/

namespace Wan.Proj1

open Posix Lib

variable {env : NcpEnv} {s t : NcpState} {src : Bytes} {b n k : ℕ} {ack : AckPkt}

-- ---------------------------------------------------------------------------
-- Building packets
-- ---------------------------------------------------------------------------

def pdAt (src : Bytes) (k : ℕ) : FileStream :=
  ⟨src, if k ≤ lastChunk src then some ((k - 1) * pktDtSize) else none⟩

def pdEndAt (src : Bytes) (k : ℕ) : FileStream :=
  ⟨src, if k ≤ lastChunk src then some src.length else none⟩

def ncpPkt (env : NcpEnv) (k : ℕ) : NetPkt :=
  { env.malloc k with
    wSize := env.wSize
    dtSize := (chunk env.src k).length
    data := (env.malloc k).data.memcpy (chunk env.src k)
    isEnd := decide (k = lastChunk env.src)
    seq := k
    pid := env.pid }.strcpy env.dFname

theorem ncpPkt_of_fits (h : env.NameFits) (k : ℕ) : ncpPkt env k =
    { env.malloc k with
      wSize := env.wSize
      dtSize := (chunk env.src k).length
      data := (env.malloc k).data.memcpy (chunk env.src k)
      isEnd := decide (k = lastChunk env.src)
      seq := k
      pid := env.pid
      dFname := (env.malloc k).dFname.strcpy env.dFname } := NetPkt.strcpy_of_short _ h

theorem ncpPkt_seq (h : env.NameFits) (k : ℕ) : (ncpPkt env k).seq = k := by
  rw [ncpPkt_of_fits h]

theorem ncpPkt_isEnd (h : env.NameFits) (k : ℕ) :
    (ncpPkt env k).isEnd = decide (k = lastChunk env.src) := by
  rw [ncpPkt_of_fits h]

theorem NcpEnv.wSize_pos (env : NcpEnv) : 0 < env.wSize := by
  unfold NcpEnv.wSize
  split_ifs <;> decide

theorem carries_ncpPkt (h : env.NameFits) (hk : 1 ≤ k) (hle : k ≤ lastChunk env.src) :
    Carries env.src env.dFname k (ncpPkt env k) := by
  rw [ncpPkt_of_fits h]
  exact {
    seq := rfl
    payload := by
      have hlen : (chunk env.src k).length ≤ pktDtSize := by
        rw [length_block]
        exact min_le_left _ _
      rw [NetPkt.payload_of_le (by simpa using hlen)]
      exact CharArray.take_memcpy _ hlen
    dtSize := rfl
    name := NetPkt.name_eq rfl env.dFname.2 h
    wSize := env.wSize_pos
    isEnd := rfl
    pos := hk
    le := hle }

theorem fetchNext_at (hk : 1 ≤ k) (hle : k ≤ lastChunk src) (wSize : ℤ) (pkt : NetPkt) :
    fetchNext wSize (pdAt src k) (pdEndAt src k) pkt = (pdAt src (k + 1), pdEndAt src (k + 1),
      { pkt with
        wSize := wSize
        dtSize := (chunk src k).length
        data := pkt.data.memcpy (chunk src k)
        isEnd := decide (k = lastChunk src) }) := by
  -- the read position is inside the file, and the chunk is what is left of it or full
  have hin : (k - 1) * pktDtSize ≤ src.length := by
    rcases Nat.lt_or_ge 1 k with h | h
    · exact ((lt_lastChunk_iff (by omega)).mp (by omega)).le
    · simp [show k - 1 = 0 by omega]
  have hlen : (chunk src k).length = min pktDtSize (src.length - (k - 1) * pktDtSize) :=
    length_block k
  have hnext : k * pktDtSize = (k - 1) * pktDtSize + pktDtSize := by
    rw [← Nat.succ_mul, Nat.succ_eq_add_one, Nat.sub_add_cancel hk]
  have hlast : k < lastChunk src ↔ k * pktDtSize < src.length := lt_lastChunk_iff hk
  have hread : (src.drop ((k - 1) * pktDtSize)).take (chunk src k).length = chunk src k :=
    (List.prefix_iff_eq_take.mp (List.take_prefix _ _)).symm
  obtain ⟨pos, hpos⟩ : ∃ pos, (k - 1) * pktDtSize = pos := ⟨_, rfl⟩
  rw [hpos] at hin hlen hnext hread
  have hsize : (if (src.length : ℤ) - pos < pktDtSize then (src.length : ℤ) - pos
      else pktDtSize) = (chunk src k).length := by
    split_ifs <;> omega
  simp only [fetchNext, pdAt, pdEndAt, hpos, if_pos hle, FileStream.ftell, FileStream.fread, hsize,
    Int.toNat_natCast, hread]
  by_cases he : k = lastChunk src
  · have hend : ((pos + (chunk src k).length : ℕ) : ℤ) ≥ src.length := by omega
    rw [if_pos hend, if_neg (by omega), if_neg (by omega)]
    simp [FileStream.fclose, he]
  · have hmore : ¬ ((pos + (chunk src k).length : ℕ) : ℤ) ≥ src.length := by omega
    have hfull : pos + (chunk src k).length = (k + 1 - 1) * pktDtSize := by
      rw [Nat.add_sub_cancel]
      omega
    rw [if_neg hmore, if_pos (by omega), if_pos (by omega), hfull]
    simp [he]

-- ---------------------------------------------------------------------------
-- The window as a run of packets
-- ---------------------------------------------------------------------------

def pkts (env : NcpEnv) (b n : ℕ) : List NetPkt := (List.range' b (n - b)).map (ncpPkt env)

def NcpEnv.width (env : NcpEnv) : ℕ := env.wSize.toNat

theorem NcpEnv.wSize_eq (env : NcpEnv) : env.wSize = env.width :=
  (Int.toNat_of_nonneg env.wSize_pos.le).symm

theorem NcpEnv.width_pos (env : NcpEnv) : 0 < env.width := by
  have := env.wSize_pos
  have := env.wSize_eq
  omega

theorem mem_pkts {p : NetPkt} : p ∈ pkts env b n ↔ ∃ k, b ≤ k ∧ k < n ∧ p = ncpPkt env k := by
  simp only [pkts, List.mem_map, List.mem_range'_1]
  constructor
  · rintro ⟨k, ⟨h1, h2⟩, rfl⟩
    exact ⟨k, h1, by omega, rfl⟩
  · rintro ⟨k, h1, h2, rfl⟩
    exact ⟨k, ⟨h1, by omega⟩, rfl⟩

theorem pkts_succ (h : b ≤ n) : pkts env b (n + 1) = pkts env b n ++ [ncpPkt env n] := by
  simp [pkts, Nat.succ_sub h, List.range'_concat, Nat.add_sub_cancel' h]

theorem pkts_eq_cons (h : b < n) : pkts env b n = ncpPkt env b :: pkts env (b + 1) n := by
  rw [pkts, show n - b = n - (b + 1) + 1 by omega, List.range'_succ]
  rfl

theorem pkts_self (h : n ≤ b) : pkts env b n = [] := by
  simp [pkts, Nat.sub_eq_zero_of_le h]

theorem length_pkts (env : NcpEnv) (b n : ℕ) : (pkts env b n).length = n - b := by
  simp [pkts]

theorem seq_of_isEnd (h : env.NameFits) {p : NetPkt} (hp : p ∈ pkts env b n)
    (he : p.isEnd = true) : p.seq = lastChunk env.src := by
  obtain ⟨k, -, -, rfl⟩ := mem_pkts.mp hp
  rw [ncpPkt_isEnd h] at he
  rw [ncpPkt_seq h, of_decide_eq_true he]

theorem any_isEnd_pkts (h : env.NameFits) (hb : b ≤ lastChunk env.src) :
    (pkts env b n).any (·.isEnd) = true ↔ ¬ n ≤ lastChunk env.src := by
  rw [List.any_eq_true]
  constructor
  · rintro ⟨p, hp, he⟩
    obtain ⟨k, -, hk, rfl⟩ := mem_pkts.mp hp
    rw [ncpPkt_isEnd h] at he
    have hlast : k = lastChunk env.src := of_decide_eq_true he
    omega
  · intro hn
    refine ⟨ncpPkt env (lastChunk env.src), mem_pkts.mpr ⟨_, hb, by omega, rfl⟩, ?_⟩
    rw [ncpPkt_isEnd h]
    exact decide_eq_true rfl

structure Filled (env : NcpEnv) (s : NcpState) (b n : ℕ) : Prop where
  window : s.window = pkts env b n
  pktCnt : s.pktCnt = n
  pd : s.pd = pdAt env.src n
  pdEnd : s.pdEnd = pdEndAt env.src n
  pos : 1 ≤ b
  le : b ≤ n
  last : n ≤ lastChunk env.src + 1
  width : n ≤ b + env.width

/-- The sender between two passes: the end packet was noticed, and a sender whose
packets are all acknowledged has returned. -/
structure Sending (env : NcpEnv) (s : NcpState) (b n : ℕ) : Prop extends Filled env s b n where
  fits : env.NameFits
  lastPkt : s.lastPkt = if n ≤ lastChunk env.src then -1 else (lastChunk env.src : ℤ)
  live : s.status = .running → b ≤ lastChunk env.src

theorem sending_init (h : env.NameFits) : Sending env (.init env) 1 1 where
  fits := h
  window := rfl
  pktCnt := rfl
  pd := by simp [NcpState.init, pdAt, one_le_blockCount]
  pdEnd := by simp [NcpState.init, pdEndAt, one_le_blockCount]
  pos := le_rfl
  le := le_rfl
  last := Nat.le_add_left _ _
  width := Nat.le_add_right _ _
  lastPkt := by simp [NcpState.init, one_le_blockCount]
  live := fun _ => one_le_blockCount

-- ---------------------------------------------------------------------------
-- Filling
-- ---------------------------------------------------------------------------

theorem nextPkt_eq (h : Filled env s b n) (hn : n ≤ lastChunk env.src) :
    nextPkt env s = (pdAt env.src (n + 1), pdEndAt env.src (n + 1), ncpPkt env n) := by
  have hpos : 1 ≤ n := h.pos.trans h.le
  simp only [nextPkt, h.pd, h.pdEnd, h.pktCnt, Int.toNat_natCast, fetchNext_at hpos hn]
  rfl

theorem ftell_pdAt : (pdAt src k).ftell = -1 ↔ ¬ k ≤ lastChunk src := by
  unfold pdAt FileStream.ftell
  split_ifs with h
  · simp [h]
  · simp [h]

theorem fillWinLoop_frame (env : NcpEnv) (m : ℕ) (s : NcpState) : ∃ window umap pktCnt pd pdEnd,
    fillWinLoop env m s = { s with
      window := window, umap := umap, pktCnt := pktCnt, pd := pd, pdEnd := pdEnd } := by
  induction m generalizing s with
  | zero => exact ⟨_, _, _, _, _, rfl⟩
  | succ m ih =>
    simp only [fillWinLoop]
    split_ifs
    · exact ⟨_, _, _, _, _, rfl⟩
    · obtain ⟨w, u, c, pd, pdEnd, h⟩ := ih _
      exact ⟨w, u, c, pd, pdEnd, h⟩

theorem Filled.push (h : Filled env s b n) (hn : n ≤ lastChunk env.src)
    (hw : n + 1 ≤ b + env.width) (umap : OrdMap ℤ Label) :
    Filled env { s with
      window := s.window ++ [ncpPkt env n]
      pd := pdAt env.src (n + 1)
      pdEnd := pdEndAt env.src (n + 1)
      pktCnt := s.pktCnt + 1
      umap := umap } b (n + 1) where
  window := by rw [pkts_succ h.le, h.window]
  pktCnt := by simp [h.pktCnt]
  pd := rfl
  pdEnd := rfl
  pos := h.pos
  le := h.le.trans (Nat.le_succ n)
  last := Nat.succ_le_succ hn
  width := hw

theorem Filled.loop (h : Filled env s b n) (hn : n ≤ lastChunk env.src) (m : ℕ)
    (hm : n + m ≤ b + env.width) :
    Filled env (fillWinLoop env m s) b (min (n + m) (lastChunk env.src + 1)) := by
  induction m generalizing s n with
  | zero =>
    rw [Nat.add_zero, min_eq_left (by omega)]
    exact h
  | succ m ih =>
    simp only [fillWinLoop, nextPkt_eq h hn]
    have hstep := h.push hn (by omega)
    split_ifs with hend
    · -- the end packet: nothing is left to read
      rw [ftell_pdAt] at hend
      rw [show min (n + (m + 1)) (lastChunk env.src + 1) = n + 1 by omega]
      exact hstep s.umap
    · rw [ftell_pdAt, not_not] at hend
      rw [show n + (m + 1) = n + 1 + m by omega]
      exact ih (hstep _) hend (by omega)

def NcpEnv.limit (env : NcpEnv) (b : ℕ) : ℕ := min (b + env.width) (lastChunk env.src + 1)

theorem Sending.fillWin_eq (h : Sending env s b n) (hn : n = env.limit b) : fillWin env s = s := by
  refine if_neg ?_
  rintro ⟨hroom, hlast⟩
  have := env.wSize_eq
  have hle := h.le
  rw [h.window, length_pkts] at hroom
  rw [h.lastPkt] at hlast
  rw [NcpEnv.limit] at hn
  split_ifs at hlast
  omega

theorem Sending.filled (h : Sending env s b n) : Filled env (fillWin env s) b (env.limit b) := by
  have hw := env.wSize_eq
  have hle := h.le
  have hwidth := h.width
  have hend := h.last
  by_cases hn : n = env.limit b
  · rw [h.fillWin_eq hn, ← hn]
    exact h.toFilled
  · rw [NcpEnv.limit] at hn
    have hmore : n ≤ lastChunk env.src := by omega
    have hlen : s.window.length = n - b := by rw [h.window, length_pkts]
    have hloop := h.loop hmore (env.wSize - s.window.length).toNat (by omega)
    rw [show n + (env.wSize - s.window.length).toNat = b + env.width by omega] at hloop
    unfold fillWin
    rw [if_pos ⟨by omega, by rw [h.lastPkt, if_pos hmore]⟩]
    exact hloop

theorem fillWin_frame (env : NcpEnv) (s : NcpState) : ∃ window umap pktCnt pd pdEnd,
    fillWin env s = { s with
      window := window, umap := umap, pktCnt := pktCnt, pd := pd, pdEnd := pdEnd } := by
  unfold fillWin
  split_ifs
  · exact fillWinLoop_frame env _ s
  · exact ⟨_, _, _, _, _, rfl⟩

-- ---------------------------------------------------------------------------
-- The timeout pass
-- ---------------------------------------------------------------------------

variable {ps : List NetPkt}

def NcpState.visit (s : NcpState) (p : NetPkt) : NcpState :=
  { s with
    totalTrans := s.totalTrans + sizeofNetPkt
    umap := if s.umap.find? p.seq = some .u then s.umap else s.umap.insert p.seq .u
    lastPkt := if p.isEnd then p.seq else s.lastPkt }

theorem timeoutPass_cons (p : NetPkt) (ps : List NetPkt) (s : NcpState) :
    timeoutPass (p :: ps) s = ((timeoutPass ps (s.visit p)).1,
      if s.umap.find? p.seq = some .u then p :: (timeoutPass ps (s.visit p)).2
      else (timeoutPass ps (s.visit p)).2) := rfl

theorem NcpState.visit_label (s : NcpState) (p : NetPkt) (k : ℤ) :
    (s.visit p).umap.find? k = if k = p.seq then some .u else s.umap.find? k := by
  show (if s.umap.find? p.seq = some .u then s.umap else s.umap.insert p.seq .u).find? k = _
  split_ifs with hu hk hk
  · rw [hk, hu]
  · rfl
  · rw [OrdMap.find?_insert, if_pos hk]
  · rw [OrdMap.find?_insert, if_neg hk]

theorem timeoutPass_frame (ps : List NetPkt) (s : NcpState) : ∃ totalTrans umap lastPkt,
    (timeoutPass ps s).1 = { s with
      totalTrans := totalTrans, umap := umap, lastPkt := lastPkt } := by
  induction ps generalizing s with
  | nil => exact ⟨_, _, _, rfl⟩
  | cons p ps ih =>
    obtain ⟨t, u, l, h⟩ := ih (s.visit p)
    exact ⟨t, u, l, h⟩

theorem timeoutPass_sublist (ps : List NetPkt) (s : NcpState) :
    (timeoutPass ps s).2.Sublist ps := by
  induction ps generalizing s with
  | nil => exact .slnil
  | cons p ps ih =>
    rw [timeoutPass_cons]
    dsimp only
    split_ifs
    · exact (ih _).cons_cons p
    · exact (ih _).cons p

theorem timeoutPass_lastPkt {l : ℤ} (h : ∀ p ∈ ps, p.isEnd = true → p.seq = l) :
    (timeoutPass ps s).1.lastPkt = if ps.any (·.isEnd) then l else s.lastPkt := by
  induction ps generalizing s with
  | nil => rfl
  | cons p ps ih =>
    rw [timeoutPass_cons, ih fun q hq => h q (List.mem_cons_of_mem _ hq)]
    cases he : p.isEnd with
    | true => simp [NcpState.visit, he, h p List.mem_cons_self he]
    | false => simp [NcpState.visit, he]

theorem timeoutPass_keeps {k : ℤ} (h : s.umap.find? k = some .u) :
    (timeoutPass ps s).1.umap.find? k = some .u := by
  induction ps generalizing s with
  | nil => exact h
  | cons p ps ih =>
    refine ih (s := s.visit p) ?_
    rw [NcpState.visit_label, h, ite_self]

theorem timeoutPass_labels {p : NetPkt} (hp : p ∈ ps) :
    (timeoutPass ps s).1.umap.find? p.seq = some .u := by
  induction ps generalizing s with
  | nil => simp at hp
  | cons q ps ih =>
    rw [timeoutPass_cons]
    rcases List.mem_cons.mp hp with rfl | hp
    · exact timeoutPass_keeps (by rw [NcpState.visit_label, if_pos rfl])
    · exact ih hp

theorem timeoutPass_all (h : ∀ p ∈ ps, s.umap.find? p.seq = some .u) :
    (timeoutPass ps s).2 = ps := by
  induction ps generalizing s with
  | nil => rfl
  | cons p ps ih =>
    have hrest : ∀ q ∈ ps, (s.visit p).umap.find? q.seq = some .u := by
      intro q hq
      rw [NcpState.visit_label, h q (List.mem_cons_of_mem _ hq), ite_self]
    rw [timeoutPass_cons, ih hrest, if_pos (h p List.mem_cons_self)]

-- ---------------------------------------------------------------------------
-- Dequeueing
-- ---------------------------------------------------------------------------

/-- Every packet dequeued adds the `data_size` of the acknowledgment, and takes away
the label of its `cum_seq`. -/
theorem dequeueAcked_eq (ack : AckPkt) (ps : List NetPkt) (s : NcpState) : ∃ umap,
    dequeueAcked ack ps s = { s with
      window := ps.dropWhile fun p => p.seq ≤ ack.cumSeq
      successTrans := s.successTrans +
        (ps.takeWhile fun p => p.seq ≤ ack.cumSeq).length * ack.dataSize
      umap := umap } ∧
      ∀ k, umap.find? k = s.umap.find? k ∨ (k = ack.cumSeq ∧ umap.find? k = none) := by
  induction ps generalizing s with
  | nil => exact ⟨s.umap, by simp [dequeueAcked], fun _ => .inl rfl⟩
  | cons p ps ih =>
    simp only [dequeueAcked, List.dropWhile_cons, List.takeWhile_cons, decide_eq_true_eq]
    split_ifs
    · obtain ⟨u, h, hlabel⟩ := ih { s with
        successTrans := s.successTrans + ack.dataSize
        umap := s.umap.erase ack.cumSeq }
      refine ⟨u, ?_, fun k => ?_⟩
      · rw [h, NcpState.mk.injEq]
        refine ⟨rfl, rfl, rfl, rfl, rfl, rfl, rfl, rfl, rfl, ?_, rfl, rfl⟩
        push_cast [List.length_cons]
        ring
      · have hk := hlabel k
        rw [OrdMap.find?_erase] at hk
        split_ifs at hk with heq
        · exact .inr ⟨heq, hk.elim id And.right⟩
        · exact hk
    · exact ⟨s.umap, by simp, fun _ => .inl rfl⟩

/-- The new front of the window `b, …, n - 1` once everything up to `cumSeq` is
acknowledged. -/
def acked (b n : ℕ) (cumSeq : ℤ) : ℕ := max b (min n (cumSeq + 1).toNat)

theorem pkts_dropWhile (h : env.NameFits) (b n : ℕ) (cumSeq : ℤ) :
    (pkts env b n).dropWhile (fun p => p.seq ≤ cumSeq) = pkts env (acked b n cumSeq) n := by
  by_cases hlt : b < n
  · rw [pkts_eq_cons hlt, List.dropWhile_cons]
    have hseq : (ncpPkt env b).seq = b := ncpPkt_seq h b
    by_cases hb : (b : ℤ) ≤ cumSeq
    · rw [if_pos (by simpa [hseq] using hb), pkts_dropWhile h (b + 1) n cumSeq]
      simp only [acked]
      rw [show max (b + 1) (min n (cumSeq + 1).toNat) = max b (min n (cumSeq + 1).toNat) by omega]
    · rw [if_neg (by simpa [hseq] using hb), ← pkts_eq_cons hlt, acked,
        show max b (min n (cumSeq + 1).toNat) = b by omega]
  · rw [pkts_self (by omega), pkts_self (by rw [acked]; omega)]
    rfl
termination_by n - b

-- ---------------------------------------------------------------------------
-- One pass of the loop
-- ---------------------------------------------------------------------------

theorem report_frame (s : NcpState) : ∃ l, s.report = { s with lastRecordBytes := l } := by
  unfold NcpState.report
  split_ifs
  · exact ⟨_, rfl⟩
  · exact ⟨s.lastRecordBytes, rfl⟩

theorem ncpTimeout_eq (hb : s.blocked = false)
    (ht : fillWin env { s with startTrans := true } = t) : ∃ lastRecordBytes,
    ncpTimeout env s = ({ (timeoutPass t.window t).1 with lastRecordBytes := lastRecordBytes },
      (timeoutPass t.window t).2) := by
  obtain ⟨l, hl⟩ := report_frame (timeoutPass t.window t).1
  refine ⟨l, ?_⟩
  rw [← hl, ← ht, ncpTimeout, if_neg (by simp [hb])]

theorem Filled.of_eq (h : Filled env s b n) (hw : t.window = s.window) (hc : t.pktCnt = s.pktCnt)
    (hp : t.pd = s.pd) (he : t.pdEnd = s.pdEnd) : Filled env t b n :=
  ⟨hw.trans h.window, hc.trans h.pktCnt, hp.trans h.pd, he.trans h.pdEnd, h.pos, h.le, h.last,
    h.width⟩

theorem Sending.start (h : Sending env s b n) : Sending env { s with startTrans := true } b n :=
  ⟨h.toFilled.of_eq rfl rfl rfl rfl, h.fits, h.lastPkt, h.live⟩

def Labelled (s : NcpState) : Prop := ∀ p ∈ s.window, s.umap.find? p.seq = some .u

theorem Filled.le_limit (h : Filled env s b n) : n ≤ env.limit b := le_min h.width h.last

theorem NcpEnv.lt_limit (hb : b ≤ lastChunk env.src) : b < env.limit b := by
  have := env.width_pos
  rw [NcpEnv.limit]
  omega

/-- A timeout fills the window and sends part of it; the second one in a row
sends all of it. -/
theorem Sending.timeout (h : Sending env s b n) (hr : s.status = .running)
    (hb : s.blocked = false) :
    Sending env (ncpTimeout env s).1 b (env.limit b) ∧
      (ncpTimeout env s).2.Sublist (pkts env b (env.limit b)) ∧
      (ncpTimeout env s).1.status = .running ∧ (ncpTimeout env s).1.blocked = false ∧
      Labelled (ncpTimeout env s).1 ∧
      (n = env.limit b → Labelled s → (ncpTimeout env s).2 = pkts env b n) := by
  have hstart : Sending env { s with startTrans := true } b n := h.start
  have hfill := hstart.filled
  have hnoop := hstart.fillWin_eq
  obtain ⟨w, u, c, pd, pdEnd, hfw⟩ := fillWin_frame env { s with startTrans := true }
  obtain ⟨t, ht⟩ : ∃ t, fillWin env { s with startTrans := true } = t := ⟨_, rfl⟩
  obtain ⟨rec, heq⟩ := ncpTimeout_eq hb ht
  rw [ht] at hfill hnoop hfw
  have hstatus : t.status = .running := by rw [hfw]; exact hr
  have hblocked : t.blocked = false := by rw [hfw]; exact hb
  have hlast : t.lastPkt = s.lastPkt := by rw [hfw]
  -- the pass notices the end packet when it is in the window
  have hend : (timeoutPass t.window t).1.lastPkt =
      if t.window.any (·.isEnd) then (lastChunk env.src : ℤ) else t.lastPkt :=
    timeoutPass_lastPkt fun p hp he => seq_of_isEnd h.fits (hfill.window ▸ hp) he
  have hany : t.window.any (·.isEnd) = true ↔ ¬ env.limit b ≤ lastChunk env.src := by
    rw [hfill.window]
    exact any_isEnd_pkts h.fits (h.live hr)
  obtain ⟨tt, u', l, hpass⟩ := timeoutPass_frame t.window t
  have hlabels : Labelled (timeoutPass t.window t).1 := by
    intro p hp
    exact timeoutPass_labels (by rwa [hpass] at hp)
  have hle := h.toFilled.le_limit
  rw [heq]
  refine ⟨⟨?_, h.fits, ?_, fun _ => h.live hr⟩, ?_, ?_, ?_, hlabels, ?_⟩
  · rw [hpass]
    exact hfill.of_eq rfl rfl rfl rfl
  · show (timeoutPass t.window t).1.lastPkt = _
    rw [hend]
    split_ifs with h1 h2 h2
    · exact absurd h2 (hany.mp h1)
    · rfl
    · rw [hlast, h.lastPkt, if_pos (by omega)]
    · exact absurd (hany.mpr h2) h1
  · rw [← hfill.window]
    exact timeoutPass_sublist _ _
  · rw [hpass]
    exact hstatus
  · rw [hpass]
    exact hblocked
  · intro hn hlab
    have hst := hnoop hn
    show (timeoutPass t.window t).2 = _
    rw [hn, ← hfill.window]
    exact timeoutPass_all (by rw [hst]; exact hlab)

def NcpState.blockedBy (s : NcpState) (ack : AckPkt) : Bool :=
  if ack.cumSeq < 0 then true else if s.blocked then false else s.blocked

theorem NcpState.blockedBy_nonneg (hb : s.blocked = false) (hack : 0 ≤ ack.cumSeq) :
    s.blockedBy ack = false := by
  simp [NcpState.blockedBy, hb, hack]

theorem ncpRecv_ack (s : NcpState) (hack : ack.isNack = false) :
    ∃ umap lastRecordBytes, ncpRecv s ack = ({ s with
      blocked := s.blockedBy ack
      window := s.window.dropWhile fun p => p.seq ≤ ack.cumSeq
      successTrans := s.successTrans +
        (s.window.takeWhile fun p => p.seq ≤ ack.cumSeq).length * ack.dataSize
      umap := umap
      lastRecordBytes := lastRecordBytes
      status := if s.lastPkt ≠ -1 ∧ ack.cumSeq ≥ s.lastPkt then .returned else s.status }, []) ∧
      ∀ k, umap.find? k = s.umap.find? k ∨ (k = ack.cumSeq ∧ umap.find? k = none) := by
  obtain ⟨u, hdq, hlabel⟩ := dequeueAcked_eq ack s.window { s with blocked := s.blockedBy ack }
  obtain ⟨rec, hrec⟩ := report_frame { s with
    blocked := s.blockedBy ack
    window := s.window.dropWhile fun p => p.seq ≤ ack.cumSeq
    successTrans := s.successTrans +
      (s.window.takeWhile fun p => p.seq ≤ ack.cumSeq).length * ack.dataSize
    umap := u }
  simp only [NcpState.blockedBy] at hdq hrec ⊢
  simp only [ncpRecv, hack, Bool.not_false, ↓reduceIte, hdq]
  by_cases hret : s.lastPkt ≠ -1 ∧ ack.cumSeq ≥ s.lastPkt
  · simp only [if_pos hret]
    exact ⟨u, s.lastRecordBytes, rfl, hlabel⟩
  · simp only [if_neg hret, hrec]
    exact ⟨u, rec, rfl, hlabel⟩

theorem ncpRecv_missed (hack : ack.isNack = true)
    (hf : s.window.find? (fun p => p.seq = ack.cumSeq) = none) :
    ncpRecv s ack = ({ s with
      blocked := s.blockedBy ack
      umap := s.umap.insert ack.cumSeq .s
      status := .faulted }, []) := by
  simp only [ncpRecv, hack, Bool.not_true, Bool.false_eq_true, ↓reduceIte, hf]
  rfl

theorem ncpRecv_found {pkt : NetPkt} (hack : ack.isNack = true)
    (hf : s.window.find? (fun p => p.seq = ack.cumSeq) = some pkt) :
    ∃ lastRecordBytes, ncpRecv s ack = ({ s with
      blocked := s.blockedBy ack
      umap := s.umap.insert ack.cumSeq .s
      lastRecordBytes := lastRecordBytes }, [pkt]) := by
  obtain ⟨rec, hrec⟩ := report_frame { s with
    blocked := s.blockedBy ack
    umap := s.umap.insert ack.cumSeq .s }
  simp only [NcpState.blockedBy] at hrec ⊢
  simp only [ncpRecv, hack, Bool.not_true, Bool.false_eq_true, ↓reduceIte, hf, hrec]
  exact ⟨rec, rfl⟩

theorem Sending.recvAck (h : Sending env s b n) (hr : s.status = .running)
    (hack : ack.isNack = false) :
    Sending env (ncpRecv s ack).1 (acked b n ack.cumSeq) n ∧ (ncpRecv s ack).2 = [] ∧
      (ncpRecv s ack).1.status =
        if n = lastChunk env.src + 1 ∧ (lastChunk env.src : ℤ) ≤ ack.cumSeq then .returned
        else .running := by
  have hle := h.le
  have hend := h.last
  have hlive := h.live hr
  have hdone : (s.lastPkt ≠ -1 ∧ ack.cumSeq ≥ s.lastPkt) ↔
      n = lastChunk env.src + 1 ∧ (lastChunk env.src : ℤ) ≤ ack.cumSeq := by
    rw [h.lastPkt]
    split_ifs <;> omega
  obtain ⟨u, rec, heq, -⟩ := ncpRecv_ack s hack
  rw [heq]
  refine ⟨⟨{
    window := by rw [← pkts_dropWhile h.fits, h.window]
    pktCnt := h.pktCnt
    pd := h.pd
    pdEnd := h.pdEnd
    pos := h.pos.trans (le_max_left _ _)
    le := by rw [acked]; omega
    last := h.last
    width := h.width.trans (Nat.add_le_add_right (le_max_left _ _) _) }, h.fits, h.lastPkt, ?_⟩,
    rfl, ?_⟩
  · intro hrun
    have hmore : ¬ (n = lastChunk env.src + 1 ∧ (lastChunk env.src : ℤ) ≤ ack.cumSeq) := by
      rw [← hdone]
      intro hret
      simp [hret] at hrun
    rw [acked]
    omega
  · simp only [hdone, hr]

theorem Sending.recvNack (h : Sending env s b n) (hr : s.status = .running)
    (hack : ack.isNack = true) :
    Sending env (ncpRecv s ack).1 b n ∧ (∀ p ∈ (ncpRecv s ack).2, p ∈ pkts env b n) ∧
      (ncpRecv s ack).1.status ≠ .returned := by
  cases hf : s.window.find? (fun p => p.seq = ack.cumSeq) with
  | none =>
    rw [ncpRecv_missed hack hf]
    exact ⟨⟨h.toFilled.of_eq rfl rfl rfl rfl, h.fits, h.lastPkt, by rintro ⟨⟩⟩, by simp,
      by rintro ⟨⟩⟩
  | some pkt =>
    have hmem : pkt ∈ pkts env b n := h.window ▸ List.mem_of_find?_eq_some hf
    obtain ⟨rec, heq⟩ := ncpRecv_found hack hf
    rw [heq]
    refine ⟨⟨h.toFilled.of_eq rfl rfl rfl rfl, h.fits, h.lastPkt, h.live⟩, ?_, by simp [hr]⟩
    intro p hp
    rwa [List.mem_singleton.mp hp]

theorem ncpStep_stopped {e : NcpEvent} (hr : s.status ≠ .running) : ncpStep env s e = (s, []) := by
  unfold ncpStep
  split
  · contradiction
  · rfl

/-- What any event does to a sender: the window only moves forward, its front
only as far as an acknowledgment says, and `return 0` needs an acknowledgment of
the end packet. -/
theorem Sending.step (h : Sending env s b n) (e : NcpEvent) : ∃ b' n',
    Sending env (ncpStep env s e).1 b' n' ∧ n ≤ n' ∧
      (∀ p ∈ (ncpStep env s e).2, ∃ k, 1 ≤ k ∧ k < n' ∧ p = ncpPkt env k) ∧
      (b' = b ∨ ∃ q, e = .ack q ∧ q.isNack = false ∧ (b' : ℤ) ≤ q.cumSeq + 1) ∧
      ((ncpStep env s e).1.status = .returned → s.status = .returned ∨
        ∃ q, e = .ack q ∧ q.isNack = false ∧ (lastChunk env.src : ℤ) ≤ q.cumSeq) := by
  have hpos := h.pos
  by_cases hr : s.status = .running
  swap
  · rw [ncpStep_stopped hr]
    exact ⟨b, n, h, le_rfl, by simp, .inl rfl, .inl⟩
  have hmem : ∀ {p m}, p ∈ pkts env b m → ∃ k, 1 ≤ k ∧ k < m ∧ p = ncpPkt env k := by
    intro p m hp
    obtain ⟨k, hbk, hk, rfl⟩ := mem_pkts.mp hp
    exact ⟨k, by omega, hk, rfl⟩
  cases e with
  | timeout =>
    simp only [ncpStep, hr]
    cases hb : s.blocked with
    | true =>
      have hidle : ncpTimeout env s = (s, []) := by simp [ncpTimeout, hb]
      rw [hidle]
      exact ⟨b, n, h, le_rfl, by simp, .inl rfl, fun hret => by simp [hr] at hret⟩
    | false =>
      obtain ⟨hs, hout, hrun, -⟩ := h.timeout hr hb
      exact ⟨b, env.limit b, hs, h.toFilled.le_limit, fun p hp => hmem (hout.subset hp), .inl rfl,
        fun hret => by simp [hrun] at hret⟩
  | ack q =>
    simp only [ncpStep, hr]
    cases hq : q.isNack with
    | true =>
      obtain ⟨hs, hout, hret⟩ := h.recvNack hr hq
      exact ⟨b, n, hs, le_rfl, fun p hp => hmem (hout p hp), .inl rfl, fun hr' => absurd hr' hret⟩
    | false =>
      obtain ⟨hs, hout, hret⟩ := h.recvAck hr hq
      refine ⟨acked b n q.cumSeq, n, hs, le_rfl, by simp [hout], ?_, fun hr' => ?_⟩
      · by_cases hfront : acked b n q.cumSeq = b
        · exact .inl hfront
        · refine .inr ⟨q, rfl, hq, ?_⟩
          rw [acked] at hfront ⊢
          omega
      · rw [hret] at hr'
        split_ifs at hr' with hcond
        exact .inr ⟨q, rfl, hq, hcond.2⟩

theorem ncpTimeout_keeps (env : NcpEnv) (s : NcpState) :
    (ncpTimeout env s).1.blocked = s.blocked ∧ (ncpTimeout env s).1.status = s.status ∧
      (ncpTimeout env s).1.successTrans = s.successTrans := by
  cases hb : s.blocked with
  | true =>
    rw [ncpTimeout, if_pos hb]
    exact ⟨hb, rfl, rfl⟩
  | false =>
    obtain ⟨w, u, c, pd, pdEnd, hf⟩ := fillWin_frame env { s with startTrans := true }
    obtain ⟨l, heq⟩ := ncpTimeout_eq hb hf
    obtain ⟨tt, u', l', hp⟩ := timeoutPass_frame w { s with
      window := w, umap := u, pktCnt := c, pd := pd, pdEnd := pdEnd, startTrans := true }
    rw [heq]
    dsimp only at hp ⊢
    rw [hp]
    exact ⟨hb, rfl, rfl⟩

theorem ncpRecv_blocked (s : NcpState) (ack : AckPkt) :
    (ncpRecv s ack).1.blocked = s.blockedBy ack := by
  cases hack : ack.isNack with
  | false =>
    obtain ⟨u, rec, heq, -⟩ := ncpRecv_ack s hack
    rw [heq]
  | true =>
    cases hf : s.window.find? (fun p => p.seq = ack.cumSeq) with
    | none => rw [ncpRecv_missed hack hf]
    | some pkt =>
      obtain ⟨rec, heq⟩ := ncpRecv_found hack hf
      rw [heq]

theorem ncpStep_blocked (hb : s.blocked = false) {e : NcpEvent}
    (he : ∀ q, e = .ack q → 0 ≤ q.cumSeq) : (ncpStep env s e).1.blocked = false := by
  unfold ncpStep
  split
  · cases e with
    | timeout => exact (ncpTimeout_keeps env s).1.trans hb
    | ack q => exact (ncpRecv_blocked s q).trans (NcpState.blockedBy_nonneg hb (he q rfl))
  · exact hb

theorem ncpRecv_faulted_iff (hr : s.status = .running) :
    (ncpRecv s ack).1.status = .faulted ↔
      ack.isNack = true ∧ ∀ p ∈ s.window, p.seq ≠ ack.cumSeq := by
  cases hack : ack.isNack with
  | false =>
    obtain ⟨u, rec, heq, -⟩ := ncpRecv_ack s hack
    rw [heq]
    refine iff_of_false ?_ (by simp)
    dsimp only
    split_ifs <;> simp [hr]
  | true =>
    cases hf : s.window.find? (fun p => p.seq = ack.cumSeq) with
    | none =>
      rw [ncpRecv_missed hack hf]
      refine iff_of_true rfl ⟨rfl, fun p hp => ?_⟩
      simpa using List.find?_eq_none.mp hf p hp
    | some pkt =>
      obtain ⟨rec, heq⟩ := ncpRecv_found hack hf
      rw [heq]
      refine iff_of_false (by simp [hr]) fun h => ?_
      exact h.2 pkt (List.mem_of_find?_eq_some hf) (by simpa using List.find?_some hf)

theorem ncpStep_faulted {e : NcpEvent} (h : (ncpStep env s e).1.status = .faulted) :
    s.status = .faulted ∨ ∃ q, e = .ack q ∧ s.status = .running ∧ q.isNack = true ∧
      ∀ p ∈ s.window, p.seq ≠ q.cumSeq := by
  unfold ncpStep at h
  split at h
  case h_1 hr =>
    cases e with
    | timeout =>
      rw [(ncpTimeout_keeps env s).2.1] at h
      exact .inl h
    | ack q => exact .inr ⟨q, rfl, hr, (ncpRecv_faulted_iff hr).mp h⟩
  case h_2 => exact .inl h

end Wan.Proj1
