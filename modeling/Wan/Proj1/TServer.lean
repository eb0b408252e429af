import Wan.Proj1.Framing

/-!
# The TCP receiver with all its connections (t_rcv.cpp)

`main` accepts up to ten connections over its whole life and serves those that
`select` reports, each with one pass of `tRcvPass`. The buffers, the counters and
the one output file are shared; a connection has only its own stream. A socket that
was just accepted is not in the set `select` filled, so it waits for the next pass.

The file is closed when the first connection ends. A pass over another connection
after that writes to the closed file, or closes it again: the program is then taken
to have failed (`misused`).
-/

namespace Wan.Proj1

open Posix

abbrev maxSocks : ℕ := 10

/-- `Recv_socks[j]` and `Valid[j]`, with what is still to come on the connection. -/
structure RecvSock where
  valid : Bool
  calls : ℕ
  stream : Bytes
  deriving DecidableEq

structure TServerState where
  /-- The locals of `main`, with the connection that was served last. -/
  main : TRcvState
  recvSocks : List RecvSock
  /-- Connections that wait to be accepted. -/
  pending : List Bytes
  misused : Bool
  /-- What was written, piece by piece, with the index of the connection it came from. -/
  pieces : List (ℕ × Bytes)

def TServerState.init (messLen : CharArray sizeofInt) (messBuf : CharArray maxPktSize) :
    TServerState where
  main := .init messLen messBuf []
  recvSocks := []
  pending := []
  misused := false
  pieces := []

def TServerState.failed (s : TServerState) : Prop := s.misused = true ∨ s.main.status = .overrun

instance (s : TServerState) : Decidable s.failed :=
  inferInstanceAs (Decidable (s.misused = true ∨ s.main.status = .overrun))

inductive TServerEvent
  /-- Someone connects, and will send these bytes before closing. -/
  | connect (stream : Bytes)
  /-- A pass of the loop, with the connections `select` reports readable. -/
  | pass (ready : ℕ → Bool)

-- ---------------------------------------------------------------------------
-- One pass of the loop
-- ---------------------------------------------------------------------------

def TServerState.enter (s : TServerState) (c : RecvSock) : TRcvState :=
  { s.main with status := .valid, calls := c.calls, stream := c.stream }

def TServerState.leave (s : TServerState) (j : ℕ) (r : TRcvState) : TServerState :=
  { s with
    main := r
    recvSocks := s.recvSocks.set j ⟨r.status = .valid, r.calls, r.stream⟩
    pieces := s.pieces ++
      if r.status = .valid then [(j, r.written.drop s.main.written.length)] else [] }

def serveSock (ret : ℕ → Returns) (rounds j : ℕ) (c : RecvSock) (s : TServerState) :
    Option TServerState :=
  if s.main.pdOpen then (tRcvPass (ret j) rounds (s.enter c)).map (s.leave j)
  else some { s with misused := true }

/-- `for (j = 0; j < i; j++)`. -/
def serveSocks (ret : ℕ → Returns) (rounds : ℕ) (ready : ℕ → Bool) :
    List ℕ → TServerState → Option TServerState
  | [], s => some s
  | j :: js, s =>
    if s.failed then some s
    else match s.recvSocks[j]? with
      | none => serveSocks ret rounds ready js s
      | some c =>
        if c.valid ∧ ready j then
          (serveSock ret rounds j c s).bind (serveSocks ret rounds ready js)
        else serveSocks ret rounds ready js s

def TServerState.accept (s : TServerState) : TServerState :=
  match s.pending with
  | [] => s
  | stream :: rest => { s with
      recvSocks := s.recvSocks ++ [⟨true, 0, stream⟩]
      pending := rest }

def tServerPass (ret : ℕ → Returns) (rounds : ℕ) (ready : ℕ → Bool) (s : TServerState) :
    Option TServerState :=
  if s.failed then some s
  else if s.pending ≠ [] ∧ s.recvSocks.length = maxSocks then some s -- Already at max connections!
  else serveSocks ret rounds ready (List.range s.recvSocks.length) s.accept

def tServerStep (ret : ℕ → Returns) (rounds : ℕ) (s : TServerState) :
    TServerEvent → Option TServerState
  | .connect stream => some { s with pending := s.pending ++ [stream] }
  | .pass ready => tServerPass ret rounds ready s

-- ---------------------------------------------------------------------------
-- A connection that breaks off
-- ---------------------------------------------------------------------------

variable {n : ℕ} {want : ℤ} {rounds : ℕ} {s : TRcvState}

theorem recvLoop_short (p : Pieces) (r : Reading n)
    (hwant : ((r.bytesRead + r.stream.length : ℕ) : ℤ) < want)
    (hrounds : r.stream.length < rounds) :
    ∃ buf calls, recvLoop p.ret want rounds r =
      some ⟨r.bytesRead + r.stream.length, buf, calls, []⟩ := by
  induction rounds generalizing r with
  | zero => exact absurd hrounds (Nat.not_lt_zero _)
  | succ m ih =>
    by_cases hend : r.stream = []
    · refine ⟨r.buf, r.calls + 1, ?_⟩
      rw [recvLoop_end p.ret r (by push_cast at hwant; omega) hend (Nat.succ_pos m), hend]
      rfl
    · have hlen : 0 < r.stream.length := List.length_pos_of_ne_nil hend
      have hroom : min (want - r.bytesRead).toNat r.stream.length = r.stream.length := by
        push_cast at hwant
        omega
      have hpos := p.pos r.calls r.stream.length hlen
      have hmax := p.le r.calls r.stream.length hlen
      obtain ⟨got, hgot⟩ := Int.eq_ofNat_of_zero_le hpos.le
      have hsum : r.bytesRead + got + (r.stream.drop got).length =
          r.bytesRead + r.stream.length := by
        rw [List.length_drop]
        omega
      obtain ⟨buf, calls, heq⟩ := ih ⟨r.bytesRead + got, r.buf.memcpyAt r.bytesRead
        (r.stream.take got), r.calls + 1, r.stream.drop got⟩ (by rw [hsum]; exact hwant)
        (by rw [List.length_drop]; omega)
      refine ⟨buf, calls, ?_⟩
      rw [recvLoop, if_pos (by push_cast at hwant; omega)]
      simp only [recv, if_neg hend, hroom, if_neg (not_le.mpr hpos)]
      rw [hgot, Int.toNat_natCast, heq, hsum]

def Cut (cut : Bytes) : Prop :=
  ∃ data rest : Bytes, data.length ≤ maxDataLen ∧ cut ++ rest = frame data ∧ rest ≠ []

theorem tRcvPass_cut_length (p : Pieces) (hshort : s.stream.length < sizeofInt)
    (hrounds : maxPktSize ≤ rounds) :
    ∃ t, tRcvPass p.ret rounds s = some t ∧ t.status = .cleared ∧ t.pdOpen = false ∧
      t.written = s.written := by
  have hmax : sizeofInt < maxPktSize := by decide
  obtain ⟨buf, calls, heq⟩ := recvLoop_short p
    (⟨0, s.messLen, s.calls, s.stream⟩ : Reading sizeofInt)
    (show ((0 + s.stream.length : ℕ) : ℤ) < (sizeofInt : ℕ) by simpa using hshort)
    (show s.stream.length < rounds by omega)
  have hread : 0 + s.stream.length < sizeofInt := by omega
  simp only [tRcvPass, heq, if_pos hread]
  exact ⟨_, rfl, rfl, rfl, rfl⟩

theorem readData_cut (p : Pieces) {data : Bytes} (hlen : s.messLen.toList = leBytes sizeofInt
    ((data.length + sizeofInt : ℕ) : ℤ)) (hle : data.length ≤ maxDataLen)
    (hshort : s.stream.length < data.length) (hrounds : maxPktSize ≤ rounds) :
    ∃ t, readData p.ret rounds s = some t ∧ t.status = .cleared ∧ t.pdOpen = false ∧
      t.written = s.written := by
  obtain ⟨hdata, -⟩ := dataLen_of_length hlen hle
  have hmax : maxDataLen < maxPktSize := by decide
  obtain ⟨buf, calls, heq⟩ := recvLoop_short p ⟨0, s.messBuf, s.calls, s.stream⟩
    (show ((0 + s.stream.length : ℕ) : ℤ) < s.dataLen by rw [hdata]; omega)
    (show s.stream.length < rounds by omega)
  simp only [readData]
  rw [show ({ s with dataLens := s.dataLens ++ [s.dataLen] } : TRcvState).dataLen = s.dataLen
    from rfl, heq]
  dsimp only
  rw [if_neg (by omega), if_pos]
  · exact ⟨_, rfl, rfl, rfl, rfl⟩
  · show ((0 + s.stream.length : ℕ) : ℤ) < s.dataLen
    rw [hdata]
    omega

theorem Cut.cases {cut : Bytes} (h : Cut cut) : cut.length < sizeofInt ∨
    ∃ data part : Bytes, data.length ≤ maxDataLen ∧ part.length < data.length ∧
      cut = leBytes sizeofInt ((data.length + sizeofInt : ℕ) : ℤ) ++ part := by
  obtain ⟨data, rest, hle, hframe, hne⟩ := h
  have hrest : 0 < rest.length := List.length_pos_of_ne_nil hne
  have hpre : (leBytes sizeofInt ((data.length + sizeofInt : ℕ) : ℤ)).length = sizeofInt :=
    length_leBytes _ _
  rcases List.append_eq_append_iff.mp hframe with ⟨more, hmore, hdata⟩ | ⟨part, hcut, hdata⟩
  · have hsum := congrArg List.length hmore
    rw [List.length_append, hpre] at hsum
    by_cases hnil : more = []
    · subst hnil
      refine .inr ⟨data, [], hle, ?_, by rw [hmore, List.append_nil, List.append_nil]⟩
      rw [List.nil_append] at hdata
      rwa [← hdata]
    · have hmore' : 0 < more.length := List.length_pos_of_ne_nil hnil
      exact .inl (by omega)
  · refine .inr ⟨data, part, hle, ?_, hcut⟩
    rw [hdata, List.length_append]
    omega

/-- The pass that meets the end of the connection, in the middle of a frame or before
one, clears it and closes the file. Nothing of the frame is written. -/
theorem tRcvPass_cut (p : Pieces) (hcut : Cut s.stream) (hrounds : maxPktSize ≤ rounds) :
    ∃ t, tRcvPass p.ret rounds s = some t ∧ t.status = .cleared ∧ t.pdOpen = false ∧
      t.written = s.written := by
  rcases hcut.cases with hshort | ⟨data, part, hle, hshort, hstream⟩
  · exact tRcvPass_cut_length p hshort hrounds
  · obtain ⟨u, hpass, hlen, hrest, -, hwritten, -⟩ := tRcvPass_length p hstream hrounds
    have hread := readData_cut p hlen hle (by rwa [hrest]) hrounds
    rwa [← hpass, hwritten] at hread

theorem TRcvState.report_pdOpen (s : TRcvState) : s.report.pdOpen = s.pdOpen := by
  unfold TRcvState.report
  split_ifs <;> rfl

theorem tRcvPass_pdOpen {ret : Returns} {t : TRcvState} (h : tRcvPass ret rounds s = some t)
    (hvalid : t.status = .valid) : t.pdOpen = s.pdOpen := by
  simp only [tRcvPass] at h
  split at h
  · cases h
  · split_ifs at h
    · obtain rfl := Option.some.inj h
      cases hvalid
    · simp only [readData] at h
      split at h
      · cases h
      · split_ifs at h
        · obtain rfl := Option.some.inj h
          cases hvalid
        · obtain rfl := Option.some.inj h
          cases hvalid
        · obtain rfl := Option.some.inj h
          rw [TRcvState.writeFrame] at hvalid ⊢
          split_ifs at hvalid ⊢
          exact TRcvState.report_pdOpen _

-- ---------------------------------------------------------------------------
-- What the peers send
-- ---------------------------------------------------------------------------

/-- What a peer hands to its socket: frames, and at most a part of one more. -/
structure TPeer where
  datas : List Bytes
  cut : Bytes
  fits : ∀ d ∈ datas, d.length ≤ maxDataLen
  short : Cut cut

def TPeer.stream (p : TPeer) : Bytes := p.datas.flatMap frame ++ p.cut

def piecesOf (j : ℕ) (pieces : List (ℕ × Bytes)) : List Bytes :=
  (pieces.filter fun e => e.1 = j).map Prod.snd

theorem piecesOf_append (j : ℕ) (pieces more : List (ℕ × Bytes)) :
    piecesOf j (pieces ++ more) = piecesOf j pieces ++ piecesOf j more := by
  simp [piecesOf]

structure Delivered (p : TPeer) (done : List Bytes) (c : RecvSock) : Prop where
  going : c.valid = true → ∃ rest, p.datas = done ++ rest ∧ c.stream = rest.flatMap frame ++ p.cut
  ended : c.valid = false → done = p.datas

theorem Delivered.front {p : TPeer} {done : List Bytes} {c : RecvSock} (h : Delivered p done c) :
    done <+: p.datas := by
  cases hv : c.valid with
  | true =>
    obtain ⟨rest, heq, -⟩ := h.going hv
    exact ⟨rest, heq.symm⟩
  | false =>
    rw [h.ended hv]

-- ---------------------------------------------------------------------------
-- What every pass keeps
-- ---------------------------------------------------------------------------

structure Serves (peers : List TPeer) (s : TServerState) : Prop where
  sound : s.main.status ≠ .overrun
  written : s.main.written = s.pieces.flatMap Prod.snd
  socks : ∀ (j : ℕ) c, s.recvSocks[j]? = some c →
    ∃ p, peers[j]? = some p ∧ Delivered p (piecesOf j s.pieces) c
  owned : ∀ e ∈ s.pieces, e.1 < s.recvSocks.length
  waiting : s.pending = (peers.drop s.recvSocks.length).map TPeer.stream
  count : s.recvSocks.length ≤ peers.length ∧ s.recvSocks.length ≤ maxSocks
  closed : s.recvSocks.countP (fun c => !c.valid) = if s.main.pdOpen then 0 else 1

variable {peers : List TPeer} {s : TServerState} {c : RecvSock} {j : ℕ}

theorem serves_init (messLen : CharArray sizeofInt) (messBuf : CharArray maxPktSize) :
    Serves [] (.init messLen messBuf) where
  sound := by simp [TServerState.init, TRcvState.init]
  written := rfl
  socks := by simp [TServerState.init]
  owned := by simp [TServerState.init]
  waiting := rfl
  count := by simp [TServerState.init]
  closed := rfl

theorem Serves.connect (h : Serves peers s) (p : TPeer) :
    Serves (peers ++ [p]) { s with pending := s.pending ++ [p.stream] } where
  sound := h.sound
  written := h.written
  socks := by
    intro j c hc
    obtain ⟨p', hp', hd⟩ := h.socks j c hc
    exact ⟨p', List.getElem?_append_left (List.getElem?_eq_some_iff.mp hp').1 ▸ hp', hd⟩
  owned := h.owned
  waiting := by
    rw [List.drop_append_of_le_length h.count.1, List.map_append, ← h.waiting]
    rfl
  count := ⟨by simpa using Nat.le_succ_of_le h.count.1, h.count.2⟩
  closed := h.closed

theorem piecesOf_of_owned {pieces : List (ℕ × Bytes)} (h : ∀ e ∈ pieces, e.1 < j) :
    piecesOf j pieces = [] := by
  rw [piecesOf, List.map_eq_nil_iff, List.filter_eq_nil_iff]
  intro e he
  simpa using (h e he).ne

theorem Serves.accept (h : Serves peers s)
    (hroom : ¬ (s.pending ≠ [] ∧ s.recvSocks.length = maxSocks)) : Serves peers s.accept := by
  unfold TServerState.accept
  split
  · exact h
  · rename_i stream rest hpending
    have hwait := h.waiting
    obtain ⟨hle, hmax⟩ := h.count
    have hfew : s.recvSocks.length ≠ maxSocks := fun heq => hroom ⟨by simp [hpending], heq⟩
    -- the next peer is the one that waits
    obtain ⟨p, hp⟩ : ∃ p, peers[s.recvSocks.length]? = some p := by
      rw [hpending] at hwait
      cases hp : peers[s.recvSocks.length]? with
      | some p => exact ⟨p, rfl⟩
      | none =>
        rw [List.drop_of_length_le (List.getElem?_eq_none_iff.mp hp)] at hwait
        cases hwait
    obtain ⟨hlt, hget⟩ := List.getElem?_eq_some_iff.mp hp
    rw [hpending, List.drop_eq_getElem_cons hlt, List.map_cons, hget] at hwait
    obtain ⟨rfl, hrest⟩ := List.cons.inj hwait
    refine ⟨h.sound, h.written, fun j c hc => ?_, fun e he => ?_, ?_, ?_, ?_⟩
    · by_cases hj : j < s.recvSocks.length
      · rw [List.getElem?_append_left hj] at hc
        exact h.socks j c hc
      · have hlen := (List.getElem?_eq_some_iff.mp hc).1
        rw [List.length_append, List.length_singleton] at hlen
        obtain rfl : j = s.recvSocks.length := by omega
        obtain rfl := Option.some.inj (List.getElem?_concat_length.symm.trans hc)
        refine ⟨p, hp, fun _ => ⟨p.datas, ?_, rfl⟩, fun hno => by cases hno⟩
        rw [piecesOf_of_owned h.owned, List.nil_append]
    · rw [List.length_append, List.length_singleton]
      exact Nat.lt_succ_of_lt (h.owned e he)
    · rw [List.length_append, List.length_singleton]
      exact hrest
    · rw [List.length_append, List.length_singleton]
      omega
    · rw [List.countP_append, h.closed]
      rfl

theorem Serves.leave (h : Serves peers s) {p : TPeer} {r : TRcvState} {d : Bytes}
    (hc : s.recvSocks[j]? = some c) (hp : peers[j]? = some p) (hv : c.valid = true)
    (hpd : s.main.pdOpen = true) (hsound : r.status ≠ .overrun)
    (hpdOpen : r.pdOpen = decide (r.status = .valid))
    (hwritten : r.written = s.main.written ++ if r.status = .valid then d else [])
    (hdel : Delivered p (piecesOf j s.pieces ++ if r.status = .valid then [d] else [])
      ⟨r.status = .valid, r.calls, r.stream⟩) : Serves peers (s.leave j r) := by
  obtain ⟨hj, hget⟩ := List.getElem?_eq_some_iff.mp hc
  have hpieces : (s.leave j r).pieces =
      s.pieces ++ if r.status = .valid then [(j, d)] else [] := by
    show s.pieces ++ (if _ then _ else _) = _
    split_ifs with hr
    · rw [hwritten, if_pos hr, List.drop_left]
    · rfl
  have hlen : (s.leave j r).recvSocks.length = s.recvSocks.length := List.length_set
  refine ⟨hsound, ?_, fun i c' hc' => ?_, fun e he => ?_, ?_, ?_, ?_⟩
  · rw [hpieces, List.flatMap_append, ← h.written]
    show r.written = _
    rw [hwritten]
    split_ifs <;> simp
  · rw [hpieces, piecesOf_append]
    by_cases hij : i = j
    · subst hij
      obtain rfl := Option.some.inj ((List.getElem?_set_self hj).symm.trans hc')
      refine ⟨p, hp, ?_⟩
      convert hdel using 2
      split_ifs <;> simp [piecesOf]
    · obtain ⟨p', hp', hd'⟩ := h.socks i c' ((List.getElem?_set_ne (Ne.symm hij)).symm.trans hc')
      refine ⟨p', hp', ?_⟩
      convert hd' using 1
      split_ifs <;> simp [piecesOf, Ne.symm hij]
  · rw [hlen]
    rw [hpieces] at he
    rcases List.mem_append.mp he with he | he
    · exact h.owned e he
    · split_ifs at he
      · obtain rfl := List.mem_singleton.mp he
        exact hj
      · cases he
  · rw [hlen]
    exact h.waiting
  · rw [hlen]
    exact h.count
  · have hnone := h.closed
    rw [if_pos hpd] at hnone
    show List.countP _ (s.recvSocks.set j _) = if r.pdOpen = true then 0 else 1
    rw [List.countP_set hj, hnone, hget, hv, hpdOpen]
    by_cases hr : r.status = .valid <;> simp [hr]

theorem Serves.serve (h : Serves peers s) (ps : ℕ → Pieces) (hrounds : maxPktSize ≤ rounds)
    (hc : s.recvSocks[j]? = some c) (hv : c.valid = true) :
    ∃ t, serveSock (fun i => (ps i).ret) rounds j c s = some t ∧ Serves peers t := by
  unfold serveSock
  split_ifs with hpd
  · obtain ⟨p, hp, hd⟩ := h.socks j c hc
    obtain ⟨rest, hdatas, hstream⟩ := hd.going hv
    cases rest with
    | nil =>
      -- nothing is left but what was cut off
      have hcut : (s.enter c).stream = p.cut := hstream
      obtain ⟨r, hr, hstatus, hclosed, hwritten⟩ :=
        tRcvPass_cut (s := s.enter c) (ps j) (hcut ▸ p.short) hrounds
      have hno : r.status ≠ .valid := by simp [hstatus]
      refine ⟨s.leave j r, by rw [hr]; rfl, h.leave (d := []) hc hp hv hpd (by simp [hstatus])
        (by simp [hclosed, hno]) (by rw [if_neg hno, List.append_nil]; exact hwritten) ?_⟩
      rw [if_neg hno, List.append_nil]
      refine ⟨fun hyes => absurd (of_decide_eq_true hyes) hno, fun _ => ?_⟩
      rw [hdatas, List.append_nil]
    | cons d rest =>
      have hle : d.length ≤ maxDataLen := p.fits d (by rw [hdatas]; simp)
      have hfront : (s.enter c).stream = leBytes sizeofInt ((d.length + sizeofInt : ℕ) : ℤ) ++
          (d ++ (rest.flatMap frame ++ p.cut)) := by
        show c.stream = _
        rw [hstream, List.flatMap_cons, frame]
        simp only [List.append_assoc]
      obtain ⟨r, hr, hvalid, hrest, hwritten, -⟩ := tRcvPass_frame (ps j) hle hfront rfl hrounds
      have hopen := tRcvPass_pdOpen hr hvalid
      refine ⟨s.leave j r, by rw [hr]; rfl, h.leave (d := d) hc hp hv hpd (by simp [hvalid])
        (by rw [hopen, decide_eq_true hvalid]; exact hpd)
        (by rw [if_pos hvalid]; exact hwritten) ?_⟩
      rw [if_pos hvalid]
      refine ⟨fun _ => ⟨rest, ?_, hrest⟩, fun hno => absurd hvalid (of_decide_eq_false hno)⟩
      rw [hdatas, List.append_assoc]
      rfl
  · exact ⟨_, rfl, ⟨h.sound, h.written, h.socks, h.owned, h.waiting, h.count, h.closed⟩⟩

theorem Serves.serveSocks (h : Serves peers s) (ps : ℕ → Pieces) (hrounds : maxPktSize ≤ rounds)
    (ready : ℕ → Bool) (js : List ℕ) :
    ∃ t, serveSocks (fun i => (ps i).ret) rounds ready js s = some t ∧ Serves peers t := by
  induction js generalizing s with
  | nil => exact ⟨s, rfl, h⟩
  | cons j js ih =>
    rw [Proj1.serveSocks]
    split_ifs with hf
    · exact ⟨s, rfl, h⟩
    · cases hc : s.recvSocks[j]? with
      | none => exact ih h
      | some c =>
        dsimp only
        split_ifs with hready
        · obtain ⟨t, ht, hserves⟩ := h.serve ps hrounds hc hready.1
          rw [ht]
          exact ih hserves
        · exact ih h

theorem Serves.pass (h : Serves peers s) (ps : ℕ → Pieces) (hrounds : maxPktSize ≤ rounds)
    (ready : ℕ → Bool) :
    ∃ t, tServerPass (fun i => (ps i).ret) rounds ready s = some t ∧ Serves peers t := by
  unfold tServerPass
  split_ifs with hf hfull
  · exact ⟨s, rfl, h⟩
  · exact ⟨s, rfl, h⟩
  · exact (h.accept hfull).serveSocks ps hrounds ready _

-- ---------------------------------------------------------------------------
-- Whole runs
-- ---------------------------------------------------------------------------

/-- What is sent on the connections, in the order in which they are made. -/
def connects (es : List TServerEvent) : List Bytes :=
  es.filterMap fun
    | .connect stream => some stream
    | .pass _ => none

theorem serves_run (ps : ℕ → Pieces) (hrounds : maxPktSize ≤ rounds)
    (messLen : CharArray sizeofInt) (messBuf : CharArray maxPktSize) (es : List TServerEvent)
    {peers : List TPeer} (hconn : connects es = peers.map TPeer.stream) :
    ∃ s, es.foldlM (tServerStep (fun i => (ps i).ret) rounds) (.init messLen messBuf) = some s ∧
      Serves peers s := by
  induction es using List.reverseRecOn generalizing peers with
  | nil =>
    obtain rfl : peers = [] := List.map_eq_nil_iff.mp hconn.symm
    exact ⟨_, rfl, serves_init messLen messBuf⟩
  | append_singleton es e ih =>
    cases e with
    | connect stream =>
      have hsplit : connects es ++ [stream] = peers.map TPeer.stream := by
        simpa [connects] using hconn
      obtain ⟨before, last, rfl, hbefore, hlast⟩ := List.map_eq_append_iff.mp hsplit.symm
      obtain ⟨p, rfl, rfl⟩ := List.map_eq_singleton_iff.mp hlast
      obtain ⟨s, hs, hserves⟩ := ih hbefore.symm
      exact ⟨_, by rw [List.foldlM_append, hs]; rfl, hserves.connect p⟩
    | pass ready =>
      obtain ⟨s, hs, hserves⟩ := ih (by simpa [connects] using hconn)
      obtain ⟨t, ht, hserves'⟩ := hserves.pass ps hrounds ready
      refine ⟨t, ?_, hserves'⟩
      rw [List.foldlM_append, hs]
      simpa [tServerStep] using ht

/-- A connection waits that will never be accepted. -/
def TServerState.Blocked (s : TServerState) : Prop :=
  s.pending ≠ [] ∧ s.recvSocks.length = maxSocks

/-- The file is finished: it is closed, or the loop never gets to a connection. -/
def TServerState.Over (s : TServerState) : Prop := s.main.pdOpen = false ∨ s.Blocked

theorem serveSocks_closed {ret : ℕ → Returns} {ready : ℕ → Bool} {js : List ℕ} {t : TServerState}
    (hpd : s.main.pdOpen = false) (h : serveSocks ret rounds ready js s = some t) :
    t.main = s.main := by
  induction js generalizing s with
  | nil =>
    obtain rfl := Option.some.inj h
    rfl
  | cons j js ih =>
    rw [serveSocks] at h
    split_ifs at h with hf
    · obtain rfl := Option.some.inj h
      rfl
    · cases hc : s.recvSocks[j]? with
      | none =>
        simp only [hc] at h
        exact ih hpd h
      | some c =>
        simp only [hc, serveSock, hpd, Bool.false_eq_true, ↓reduceIte, Option.bind_some] at h
        split_ifs at h
        · exact ih (s := { s with misused := true }) hpd h
        · exact ih hpd h

theorem TServerState.accept_main (s : TServerState) : s.accept.main = s.main := by
  unfold TServerState.accept
  split <;> rfl

theorem TServerState.Over.step {ret : ℕ → Returns} {e : TServerEvent} {t : TServerState}
    (h : s.Over) (ht : tServerStep ret rounds s e = some t) : t.Over ∧ t.main = s.main := by
  cases e with
  | connect stream =>
    obtain rfl := Option.some.inj ht
    refine ⟨h.imp_right fun hb => ⟨?_, hb.2⟩, rfl⟩
    show s.pending ++ [stream] ≠ []
    simp
  | pass ready =>
    simp only [tServerStep, tServerPass] at ht
    split_ifs at ht with hf hfull
    · obtain rfl := Option.some.inj ht
      exact ⟨h, rfl⟩
    · obtain rfl := Option.some.inj ht
      exact ⟨h, rfl⟩
    · have hpd := h.resolve_right hfull
      have hmain := serveSocks_closed (s := s.accept) (by rwa [s.accept_main]) ht
      rw [s.accept_main] at hmain
      exact ⟨.inl (hmain ▸ hpd), hmain⟩

theorem TServerState.Over.run {ret : ℕ → Returns} {more : List TServerEvent} {t : TServerState}
    (h : s.Over) (ht : more.foldlM (tServerStep ret rounds) s = some t) : t.main = s.main := by
  induction more generalizing s with
  | nil =>
    obtain rfl := Option.some.inj ht
    rfl
  | cons e more ih =>
    rw [List.foldlM_cons] at ht
    obtain ⟨u, hu, ht⟩ := Option.bind_eq_some_iff.mp ht
    obtain ⟨hover, hmain⟩ := h.step hu
    exact (ih hover ht).trans hmain

/-- Whatever the peers send, connection by connection, as frames of at most
`maxDataLen` bytes and perhaps a part of one more, and however `recv` cuts the
streams and `select` reports the connections: every pass ends; the file is made of
whole frames; those of one connection are the first ones its peer sent, in order, and
all of them once it has ended; at most ten connections are ever accepted; and when
the first one ends, or an eleventh waits, the file stays as it is for ever. -/
theorem files_interleave (ps : ℕ → Pieces) (rounds : ℕ) (hrounds : maxPktSize ≤ rounds)
    (messLen : CharArray sizeofInt) (messBuf : CharArray maxPktSize) (peers : List TPeer)
    (es : List TServerEvent) (hconn : connects es = peers.map TPeer.stream) :
    ∃ s, es.foldlM (tServerStep (fun j => (ps j).ret) rounds) (.init messLen messBuf) = some s ∧
      s.main.status ≠ .overrun ∧ s.main.written = s.pieces.flatMap Prod.snd ∧
      (∀ e ∈ s.pieces, e.1 < s.recvSocks.length) ∧
      (∀ (j : ℕ) c, s.recvSocks[j]? = some c → ∃ p, peers[j]? = some p ∧
        piecesOf j s.pieces <+: p.datas ∧ (c.valid = false → piecesOf j s.pieces = p.datas)) ∧
      s.recvSocks.length ≤ maxSocks ∧
      s.recvSocks.countP (fun c => !c.valid) = (if s.main.pdOpen then 0 else 1) ∧
      (s.Over → ∀ (more : List TServerEvent) t,
        more.foldlM (tServerStep (fun j => (ps j).ret) rounds) s = some t →
        t.main.written = s.main.written) := by
  obtain ⟨s, hs, h⟩ := serves_run ps hrounds messLen messBuf es hconn
  refine ⟨s, hs, h.sound, h.written, h.owned, fun j c hc => ?_, h.count.2, h.closed,
    fun hover more t ht => by rw [hover.run ht]⟩
  obtain ⟨p, hp, hd⟩ := h.socks j c hc
  exact ⟨p, hp, hd.front, hd.ended⟩

/-- Two connections, with the frames of `[5]`, `[7]` and of `[6]`. The second one is
readable first. -/
theorem files_interleave_two :
    let one : TPeer := ⟨[[5], [7]], [], by decide, [], _, Nat.zero_le _, rfl, List.cons_ne_nil _ _⟩
    let two : TPeer := ⟨[[6]], [], by decide, [], _, Nat.zero_le _, rfl, List.cons_ne_nil _ _⟩
    let es : List TServerEvent := [.connect one.stream, .connect two.stream,
      .pass fun _ => false, .pass fun _ => false, .pass fun j => j = 1, .pass fun j => j = 0]
    ∃ s, es.foldlM (tServerStep (fun _ _ len => len) maxPktSize)
        (.init (.replicate _ 0) (.replicate _ 0)) = some s ∧
      s.main.written = s.pieces.flatMap Prod.snd ∧ s.recvSocks.length ≤ maxSocks := by
  intro one two es
  obtain ⟨s, hs, -, hwritten, -, -, hmax, -⟩ := files_interleave (fun _ => .whole) maxPktSize le_rfl
    (.replicate _ 0) (.replicate _ 0) [one, two] es rfl
  exact ⟨s, hs, hwritten, hmax⟩

example :
    let es : List TServerEvent := [.connect (frame [5] ++ frame [7]), .connect (frame [6]),
      .pass fun _ => false, .pass fun _ => false, .pass fun j => j = 1, .pass fun j => j = 0]
    (es.foldlM (tServerStep (fun _ _ len => len) 5)
        (.init (.replicate _ 0) (.replicate _ 0))).map (fun s => s.pieces) =
      some [(1, [6]), (0, [5])] := by
  decide +kernel

-- ---------------------------------------------------------------------------
-- Files
-- ---------------------------------------------------------------------------

def TPeer.ofFile (src : Bytes) : TPeer where
  datas := (List.range' 1 (frameCount src)).map (frameData src)
  cut := []
  fits := by
    intro d hd
    obtain ⟨k, -, rfl⟩ := List.mem_map.mp hd
    exact length_frameData_le src k
  short := ⟨[], frame [], Nat.zero_le _, rfl, List.cons_ne_nil _ _⟩

theorem TPeer.stream_ofFile (src : Bytes) :
    (TPeer.ofFile src).stream = frames src (frameCount src) := by
  simp [TPeer.stream, TPeer.ofFile, frames, List.flatMap_map]

theorem TPeer.flatten_ofFile (src : Bytes) : (TPeer.ofFile src).datas.flatten = src := by
  rw [TPeer.ofFile, ← List.flatMap_def]
  exact firstBlocks_frameCount src

theorem flatten_piecesOf_sublist (j : ℕ) (pieces : List (ℕ × Bytes)) :
    (piecesOf j pieces).flatten.Sublist (pieces.flatMap Prod.snd) := by
  rw [piecesOf, ← List.flatMap_def]
  exact List.filter_sublist.flatMap _

theorem piecesOf_all {j : ℕ} {pieces : List (ℕ × Bytes)} (h : ∀ e ∈ pieces, e.1 = j) :
    (piecesOf j pieces).flatten = pieces.flatMap Prod.snd := by
  rw [piecesOf, List.filter_eq_self.mpr (by simpa using h), ← List.flatMap_def]

/-- When senders of files connect, in any number and order, and the file is closed,
then all of one of the files went into it, in order, and it is that file unless
another sender's frames came in between. -/
theorem closed_file (ps : ℕ → Pieces) (rounds : ℕ) (hrounds : maxPktSize ≤ rounds)
    (messLen : CharArray sizeofInt) (messBuf : CharArray maxPktSize) (srcs : List Bytes)
    (es : List TServerEvent)
    (hconn : connects es = srcs.map fun src => frames src (frameCount src)) :
    ∃ s, es.foldlM (tServerStep (fun j => (ps j).ret) rounds) (.init messLen messBuf) = some s ∧
      (s.main.pdOpen = false → ∃ (j : ℕ) (src : Bytes), srcs[j]? = some src ∧
        (piecesOf j s.pieces).flatten = src ∧ src.Sublist s.main.written ∧
        ((∀ e ∈ s.pieces, e.1 = j) → s.main.written = src)) := by
  have hpeers : connects es = (srcs.map TPeer.ofFile).map TPeer.stream := by
    rw [hconn, List.map_map]
    exact List.map_congr_left fun src _ => (TPeer.stream_ofFile src).symm
  obtain ⟨s, hs, h⟩ := serves_run ps hrounds messLen messBuf es hpeers
  refine ⟨s, hs, fun hpd => ?_⟩
  have hclosed := h.closed
  rw [hpd, if_neg Bool.false_ne_true] at hclosed
  -- one connection has ended
  obtain ⟨c, hc, hv⟩ := List.countP_pos_iff.mp (hclosed.symm ▸ Nat.one_pos)
  obtain ⟨j, hj⟩ := List.mem_iff_getElem?.mp hc
  obtain ⟨p, hp, hd⟩ := h.socks j c hj
  rw [List.getElem?_map] at hp
  obtain ⟨src, hsrc, rfl⟩ := Option.map_eq_some_iff.mp hp
  have hall : (piecesOf j s.pieces).flatten = src := by
    rw [hd.ended (by simpa using hv), TPeer.flatten_ofFile]
  refine ⟨j, src, hsrc, hall, ?_, fun honly => ?_⟩
  · rw [h.written, ← hall]
    exact flatten_piecesOf_sublist j s.pieces
  · rw [h.written, ← piecesOf_all honly, hall]

/-- Two senders. The one frame of the second goes in between the two of the first, whose
end then closes the file. -/
theorem closed_file_two :
    let srcs : List Bytes := [.replicate (maxDataLen + 1) 5, [6]]
    let es : List TServerEvent := [.connect (frames (.replicate (maxDataLen + 1) 5) 2),
      .connect (frames [6] 1), .pass fun _ => false, .pass fun _ => false, .pass fun j => j = 0,
      .pass fun j => j = 1, .pass fun j => j = 0, .pass fun j => j = 0]
    ∃ s, es.foldlM (tServerStep (fun _ => Pieces.whole.ret) maxPktSize)
        (.init (.replicate _ 0) (.replicate _ 0)) = some s ∧ s.main.pdOpen = false ∧
      s.pieces.map Prod.fst = [0, 1, 0] ∧ ∃ src ∈ srcs, src.Sublist s.main.written := by
  intro srcs es
  obtain ⟨s, hs, hfile⟩ := closed_file (fun _ => .whole) maxPktSize le_rfl
    (.replicate _ 0) (.replicate _ 0) srcs es (by decide +kernel)
  have hend : (es.foldlM (tServerStep (fun _ => Pieces.whole.ret) maxPktSize)
      (.init (.replicate _ 0) (.replicate _ 0))).map
        (fun s => (s.main.pdOpen, s.pieces.map Prod.fst)) = some (false, [0, 1, 0]) := by
    decide +kernel
  rw [hs] at hend
  obtain ⟨hclosed, horder⟩ := Prod.mk.inj (Option.some.inj hend)
  obtain ⟨j, src, hsrc, -, hsub, -⟩ := hfile hclosed
  exact ⟨s, hs, hclosed, horder, src, List.mem_of_getElem? hsrc, hsub⟩

end Wan.Proj1
