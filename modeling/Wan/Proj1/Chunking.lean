import Wan.Proj1.NcpWindow
import Wan.Lib.Run

/-!
# The packets of a run

Every packet the sender ever transmits was built by one call of `fetch_next`. The
calls of a run are made for packets 1, 2, … in turn, each on open streams: the
call that closes them is the one for the last chunk, and the pass it is made in
records its number, after which `fill_win` makes no more.
-/

namespace Wan.Proj1

open Posix Lib

variable {env : NcpEnv} {s : NcpState} {b n : ℕ}

/-- One call of `fetch_next` by `fill_win`: the streams it is given and the
packet that comes of it. -/
structure Fetch where
  pd : FileStream
  pdEnd : FileStream
  pkt : NetPkt

-- The calls made by `fillWinLoop`, `fillWin` and one pass of the loop.

def loopFetches (env : NcpEnv) : ℕ → NcpState → List Fetch
  | 0, _ => []
  | newAmt + 1, s =>
    let (pd, pdEnd, pkt) := nextPkt env s
    let t := { s with
      window := s.window ++ [pkt]
      pd := pd
      pdEnd := pdEnd
      pktCnt := s.pktCnt + 1 }
    ⟨s.pd, s.pdEnd, pkt⟩ :: if pd.ftell = -1 then []
      else loopFetches env newAmt { t with umap := t.umap.insert pkt.seq .u }

def winFetches (env : NcpEnv) (s : NcpState) : List Fetch :=
  if s.window.length < env.wSize ∧ s.lastPkt = -1 then
    loopFetches env (env.wSize - s.window.length).toNat s
  else []

def fetches (env : NcpEnv) (s : NcpState) (e : NcpEvent) : List Fetch :=
  match s.status, e with
  | .running, .timeout => if s.blocked then [] else winFetches env { s with startTrans := true }
  | _, _ => []

theorem fillWinLoop_window (m : ℕ) (s : NcpState) :
    (fillWinLoop env m s).window = s.window ++ (loopFetches env m s).map Fetch.pkt := by
  induction m generalizing s with
  | zero => simp [fillWinLoop, loopFetches]
  | succ m ih =>
    simp only [fillWinLoop, loopFetches]
    split_ifs
    · rfl
    · rw [ih]
      simp

theorem fillWin_window (env : NcpEnv) (s : NcpState) :
    (fillWin env s).window = s.window ++ (winFetches env s).map Fetch.pkt := by
  unfold fillWin winFetches
  split_ifs
  · exact fillWinLoop_window _ s
  · simp

-- ---------------------------------------------------------------------------
-- The calls of one pass
-- ---------------------------------------------------------------------------

def fetchAt (env : NcpEnv) (k : ℕ) : Fetch := ⟨pdAt env.src k, pdEndAt env.src k, ncpPkt env k⟩

def fetchesFrom (env : NcpEnv) (n n' : ℕ) : List Fetch :=
  (List.range' n (n' - n)).map (fetchAt env)

theorem fetchesFrom_self (env : NcpEnv) (n : ℕ) : fetchesFrom env n n = [] := by
  simp [fetchesFrom]

theorem fetchesFrom_append {m k : ℕ} (h : n ≤ m) (h' : m ≤ k) :
    fetchesFrom env n m ++ fetchesFrom env m k = fetchesFrom env n k := by
  have hm : m = n + 1 * (m - n) := by omega
  rw [fetchesFrom, fetchesFrom, fetchesFrom, ← List.map_append, ← Nat.sub_add_sub_cancel h' h,
    Nat.add_comm (k - m), ← List.range'_append, ← hm]

theorem fetchesFrom_eq_cons {m : ℕ} (h : n < m) :
    fetchesFrom env n m = fetchAt env n :: fetchesFrom env (n + 1) m := by
  rw [fetchesFrom, show m - n = m - (n + 1) + 1 by omega, List.range'_succ]
  rfl

theorem Filled.loopFetches_eq (h : Filled env s b n) (hn : n ≤ lastChunk env.src) (m : ℕ)
    (hm : n + m ≤ b + env.width) :
    loopFetches env m s = fetchesFrom env n (min (n + m) (lastChunk env.src + 1)) := by
  induction m generalizing s n with
  | zero => rw [Nat.add_zero, min_eq_left (by omega), fetchesFrom_self, loopFetches]
  | succ m ih =>
    have hcall : (⟨s.pd, s.pdEnd, ncpPkt env n⟩ : Fetch) = fetchAt env n := by
      rw [h.pd, h.pdEnd]
      rfl
    simp only [loopFetches, nextPkt_eq h hn, hcall]
    rw [fetchesFrom_eq_cons (by omega)]
    congr 1
    split_ifs with hend
    · rw [ftell_pdAt] at hend
      rw [show min (n + (m + 1)) (lastChunk env.src + 1) = n + 1 by omega, fetchesFrom_self]
    · rw [ftell_pdAt, not_not] at hend
      rw [show n + (m + 1) = n + 1 + m by omega]
      exact ih (h.push hn (by omega) _) hend (by omega)

theorem Sending.winFetches_eq (h : Sending env s b n) :
    winFetches env s = fetchesFrom env n (env.limit b) := by
  have hw := env.wSize_eq
  have hle := h.le
  have hwidth := h.width
  have hend := h.last
  have hlen : s.window.length = n - b := by rw [h.window, length_pkts]
  unfold winFetches
  split_ifs with hroom
  · have hmore : n ≤ lastChunk env.src := by
      by_contra hno
      have hlast := h.lastPkt
      rw [if_neg hno, hroom.2] at hlast
      omega
    rw [h.loopFetches_eq hmore _ (by omega), NcpEnv.limit,
      show n + (env.wSize - s.window.length).toNat = b + env.width by omega]
  · have hfull : n = env.limit b := by
      by_contra hne
      rw [NcpEnv.limit] at hne
      exact hroom ⟨by omega, by rw [h.lastPkt, if_pos (by omega)]⟩
    rw [← hfull, fetchesFrom_self]

theorem Sending.fetches_eq (h : Sending env s b n) {e : NcpEvent} {b' n' : ℕ}
    (h' : Sending env (next (ncpStep env) s e) b' n') : fetches env s e = fetchesFrom env n n' := by
  have heq {b₂ n₂ : ℕ} (h₂ : Sending env (next (ncpStep env) s e) b₂ n₂) : n' = n₂ := by
    exact_mod_cast h'.pktCnt.symm.trans h₂.pktCnt
  have hsame (hs : (next (ncpStep env) s e).pktCnt = s.pktCnt) : fetchesFrom env n n' = [] := by
    have hn : n' = n := by exact_mod_cast (h'.pktCnt.symm.trans hs).trans h.pktCnt
    rw [hn, fetchesFrom_self]
  cases hr : s.status with
  | returned => simp [fetches, hr, hsame, next, ncpStep]
  | faulted => simp [fetches, hr, hsame, next, ncpStep]
  | running =>
    cases e with
    | timeout =>
      cases hb : s.blocked with
      | true => simp [fetches, hr, hb, hsame, next, ncpStep, ncpTimeout]
      | false =>
        have ht := (h.timeout hr hb).1
        have hn : n' = env.limit b := heq (by simpa only [next, ncpStep, hr] using ht)
        have hstart : Sending env { s with startTrans := true } b n := h.start
        have hcalls : fetches env s .timeout = winFetches env { s with startTrans := true } := by
          simp [fetches, hr, hb]
        rw [hcalls, hstart.winFetches_eq, hn]
    | ack q =>
      have hnone : fetches env s (.ack q) = [] := by simp only [fetches, hr]
      have hn : n' = n := by
        cases hq : q.isNack with
        | true => exact heq (by simpa only [next, ncpStep, hr] using (h.recvNack hr hq).1)
        | false => exact heq (by simpa only [next, ncpStep, hr] using (h.recvAck hr hq).1)
      rw [hnone, hn, fetchesFrom_self]

-- ---------------------------------------------------------------------------
-- Whole runs
-- ---------------------------------------------------------------------------

theorem Sending.run (h : Sending env s b n) (es : List NcpEvent) : ∃ b' n',
    Sending env (es.foldl (next (ncpStep env)) s) b' n' ∧ n ≤ n' ∧
      gather (next (ncpStep env)) (fetches env) s es = fetchesFrom env n n' ∧
      ∀ p ∈ trace (ncpStep env) s es, ∃ k, 1 ≤ k ∧ k < n' ∧ p = ncpPkt env k := by
  induction es generalizing s b n with
  | nil => exact ⟨b, n, h, le_rfl, (fetchesFrom_self env n).symm, by simp [trace]⟩
  | cons e es ih =>
    obtain ⟨b₁, n₁, h₁, hle₁, hout, -⟩ := h.step e
    obtain ⟨b₂, n₂, h₂, hle₂, hcalls, hsent⟩ := ih h₁
    refine ⟨b₂, n₂, h₂, hle₁.trans hle₂, ?_, ?_⟩
    · rw [gather, h.fetches_eq h₁, show gather _ _ (next (ncpStep env) s e) es = _ from hcalls,
        fetchesFrom_append hle₁ hle₂]
    · intro p hp
      rcases List.mem_append.mp hp with hp | hp
      · obtain ⟨k, h1, hk, rfl⟩ := hout p hp
        exact ⟨k, h1, hk.trans_le hle₂, rfl⟩
      · exact hsent p hp

/-- With a name that fits, over any run, whatever acknowledgments arrive: the window
holds consecutive numbers up to the last packet built, at most `W_SIZE` of them;
packet after packet is built from open streams and carries its chunk, the last one alone as
the end packet; nothing else is ever transmitted; and `last_pkt` is recorded
with the pass that built the end packet. -/
theorem window_chunking (env : NcpEnv) (hname : env.NameFits) (es : List NcpEvent) :
    let s := es.foldl (next (ncpStep env)) (.init env)
    let calls := gather (next (ncpStep env)) (fetches env) (.init env) es
    let built := calls.map Fetch.pkt
    (∃ b n : ℕ, s.window.map NetPkt.seq = (List.range' b (n - b)).map (↑) ∧ b ≤ n ∧
        s.pktCnt = n) ∧
      (s.window.length : ℤ) ≤ env.wSize ∧
      built.map NetPkt.seq = (List.range' 1 built.length).map (↑) ∧
      (∀ p ∈ built, ∃ k, Carries env.src env.dFname k p) ∧
      (∀ p ∈ s.window, p ∈ built) ∧ (∀ p ∈ trace (ncpStep env) (.init env) es, p ∈ built) ∧
      (∀ c ∈ calls, c.pd.pos.isSome ∧ c.pdEnd.pos.isSome) ∧
      s.lastPkt = if built.any NetPkt.isEnd then (lastChunk env.src : ℤ) else -1 := by
  intro s calls built
  obtain ⟨b, n, h, hle, hcalls, hsent⟩ := (sending_init hname).run es
  have hpos := h.pos
  have hlast := h.last
  have hbuilt : built = pkts env 1 n := by
    rw [show built = calls.map Fetch.pkt from rfl, show calls = _ from hcalls, fetchesFrom,
      List.map_map]
    rfl
  have hmem {k : ℕ} (h1 : 1 ≤ k) (hk : k < n) : ncpPkt env k ∈ built := by
    rw [hbuilt]
    exact mem_pkts.mpr ⟨k, h1, hk, rfl⟩
  have hseqs (b' n' : ℕ) : (pkts env b' n').map NetPkt.seq =
      (List.range' b' (n' - b')).map (↑) := by
    rw [pkts, List.map_map]
    exact List.map_congr_left fun k _ => ncpPkt_seq hname k
  refine ⟨⟨b, n, ?_, h.le, h.pktCnt⟩, ?_, ?_, ?_, ?_, ?_, ?_, ?_⟩
  · rw [h.window, hseqs]
  · have := h.width
    have := env.wSize_eq
    rw [h.window, length_pkts]
    omega
  · rw [hbuilt, hseqs, length_pkts]
  · intro p hp
    rw [hbuilt] at hp
    obtain ⟨k, h1, hk, rfl⟩ := mem_pkts.mp hp
    exact ⟨k, carries_ncpPkt hname h1 (by omega)⟩
  · intro p hp
    rw [h.window] at hp
    obtain ⟨k, h1, hk, rfl⟩ := mem_pkts.mp hp
    exact hmem (hpos.trans h1) hk
  · intro p hp
    obtain ⟨k, h1, hk, rfl⟩ := hsent p hp
    exact hmem h1 hk
  · intro c hc
    rw [show calls = _ from hcalls] at hc
    obtain ⟨k, hk, rfl⟩ := List.mem_map.mp hc
    rw [List.mem_range'_1] at hk
    have hopen : k ≤ lastChunk env.src := by omega
    simp [fetchAt, pdAt, pdEndAt, hopen]
  · have hany : (pkts env 1 n).any (·.isEnd) = true ↔ ¬ n ≤ lastChunk env.src :=
      any_isEnd_pkts hname one_le_blockCount
    rw [h.lastPkt, hbuilt]
    split_ifs with h1 h2 h2
    · exact absurd h1 (hany.mp h2)
    · rfl
    · rfl
    · exact absurd (hany.mpr h1) h2

/-- A file of two packets: the second timeout sends both, and the end packet was
noticed by the first one. -/
theorem window_chunking_two :
    let env : NcpEnv := ⟨true, .replicate (pktDtSize + 1) 7, ⟨[97], by decide⟩, 1, ⟨1, 5⟩,
      fun _ => fullPkt [] 0 0 false, false⟩
    let es : List NcpEvent := [.timeout, .timeout]
    let s := es.foldl (next (ncpStep env)) (.init env)
    (trace (ncpStep env) (.init env) es).map NetPkt.seq = [1, 1, 2] ∧ s.lastPkt = 2 ∧
      (s.window.length : ℤ) ≤ env.wSize := by
  intro env es s
  have h := window_chunking env (by decide) es
  exact ⟨by decide +kernel, by decide +kernel, h.2.1⟩

end Wan.Proj1
