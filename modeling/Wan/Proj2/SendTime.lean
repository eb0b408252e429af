import Wan.Proj2.Cache

/-!
# The original send time

The server records in `timetable` when a number was first sent, and puts the
recorded time into the packet allocated in the pass. What it sends, however, is
the cached packet, whose `senderTS` was left by the pass that cached it: what
`malloc` found there, or the time of a message handled in the same pass. So all
transmissions of a number carry the same time, and it is the recorded one only
if the two happen to agree.
-/

namespace Wan.Proj2

open Posix Lib

/-- A data packet as it was sent, with what `timetable` had for its number then. -/
structure Transmission where
  pkt : NetPkt
  recorded : Option ℤ
  deriving DecidableEq

variable {s : RtSrvState} {e : RtSrvEvent} {src : SockaddrIn} {p : AckPkt} {d : NetPkt}
  {sent : List Transmission}

def transmissions (timetable : OrdMap ℕ ℤ) (out : List RtSrvEffect) : List Transmission :=
  out.filterMap fun
    | .data _ q => some ⟨q, timetable.find? q.seq⟩
    | _ => none

def transmits (s : RtSrvState) (e : RtSrvEvent) : List Transmission :=
  transmissions (rtSrvStep s e).1.timetable (rtSrvStep s e).2

def firstOf (sent : List Transmission) (k : ℕ) : Option Transmission :=
  sent.find? fun x => x.pkt.seq = k

def Original (sent : List Transmission) : Prop :=
  ∀ x ∈ sent, ∃ first, firstOf sent x.pkt.seq = some first ∧ first.recorded = some x.pkt.senderTS

/-- The first request for a cached number finds the reading of the clock already
in the cached packet. -/
def StampedWhenCached (s : RtSrvState) (e : RtSrvEvent) : Prop :=
  s.faulted = false → ∀ src p, e.client = .msg src p → p.seq ≠ 0 → p.isNack = true →
    ∀ cached, s.window.find? p.seq = some cached → s.timetable.find? p.seq = none →
      cached.senderTS = e.now

-- ---------------------------------------------------------------------------
-- First transmissions
-- ---------------------------------------------------------------------------

theorem firstOf_append {k : ℕ} {first : Transmission} (h : firstOf sent k = some first)
    (more : List Transmission) : firstOf (sent ++ more) k = some first := by
  rw [firstOf, List.find?_append, show sent.find? _ = _ from h]
  rfl

theorem firstOf_isSome {x : Transmission} (hx : x ∈ sent) :
    ∃ first, firstOf sent x.pkt.seq = some first ∧ first ∈ sent ∧ first.pkt.seq = x.pkt.seq := by
  cases hf : firstOf sent x.pkt.seq with
  | none => simpa using List.find?_eq_none.mp hf x hx
  | some first =>
    exact ⟨first, rfl, List.mem_of_find?_eq_some hf, by simpa using List.find?_some hf⟩

theorem Original.of_append {more : List Transmission} (h : Original (sent ++ more)) :
    Original sent := by
  intro x hx
  obtain ⟨first, hf, -⟩ := firstOf_isSome hx
  obtain ⟨first', hf', hrec⟩ := h x (List.mem_append_left _ hx)
  rw [firstOf_append hf] at hf'
  obtain rfl := Option.some.inj hf'
  exact ⟨first, hf, hrec⟩

theorem original_append {x : Transmission} : Original (sent ++ [x]) ↔ Original sent ∧
    ∃ first, firstOf (sent ++ [x]) x.pkt.seq = some first ∧
      first.recorded = some x.pkt.senderTS := by
  constructor
  · exact fun h => ⟨h.of_append, h x (by simp)⟩
  · rintro ⟨h, hx⟩ y hy
    rcases List.mem_append.mp hy with hy | hy
    · obtain ⟨first, hf, hrec⟩ := h y hy
      exact ⟨first, firstOf_append hf _, hrec⟩
    · rwa [List.mem_singleton.mp hy]

-- ---------------------------------------------------------------------------
-- What the maps say of the transmissions so far
-- ---------------------------------------------------------------------------

structure Logged (sent : List Transmission) (s : RtSrvState) : Prop where
  number : ∀ k q, s.window.find? k = some q → q.seq = k ∧ k < s.cacheSeq
  below : ∀ x ∈ sent, x.pkt.seq < s.cacheSeq
  same : ∀ x ∈ sent, ∀ q, s.window.find? x.pkt.seq = some q → x.pkt = q
  first : ∀ k ts, s.timetable.find? k = some ts →
    ∃ x, firstOf sent k = some x ∧ x.recorded = some ts
  unsent : ∀ k q, s.window.find? k = some q → s.timetable.find? k = none →
    ∀ x ∈ sent, x.pkt.seq ≠ k

theorem logged_init (sinPort : UInt16) : Logged [] (.init sinPort) where
  number := fun k q h => by simp [RtSrvState.init] at h
  below := by simp
  same := by simp
  first := fun k ts h => by simp [RtSrvState.init] at h
  unsent := by simp

theorem Logged.receiveApp (h : Logged sent s) (d : NetPkt) (app : Option Bytes) :
    Logged sent (receiveApp s d app) := by
  rcases receiveApp_cases s d app with heq | ⟨bytes, -, heq⟩
  · rwa [heq]
  · rw [heq]
    refine ⟨fun k q hq => ?_, fun x hx => (h.below x hx).trans (Nat.lt_succ_self _),
      fun x hx q hq => ?_, h.first, fun k q hq hts x hx => ?_⟩
    · rw [OrdMap.find?_insert] at hq
      split_ifs at hq with hk
      · obtain rfl := Option.some.inj hq
        exact ⟨hk.symm, hk ▸ Nat.lt_succ_self _⟩
      · exact ⟨(h.number k q hq).1, (h.number k q hq).2.trans (Nat.lt_succ_self _)⟩
    · rw [OrdMap.find?_insert, if_neg (h.below x hx).ne] at hq
      exact h.same x hx q hq
    · rw [OrdMap.find?_insert] at hq
      split_ifs at hq with hk
      · rw [hk]
        exact (h.below x hx).ne
      · exact h.unsent k q hq hts x hx

theorem Logged.transmit (h : Logged sent s) {cached : NetPkt} {k : ℕ}
    (hw : s.window.find? k = some cached) {ts : ℤ} {timetable : OrdMap ℕ ℤ}
    (hts : ∀ j, timetable.find? j = if j = k then some ts else s.timetable.find? j)
    (hkeep : s.timetable.find? k = none ∨ s.timetable.find? k = some ts) :
    Logged (sent ++ [⟨cached, some ts⟩]) (s.sent k timetable) := by
  obtain ⟨hseq, hlt⟩ := h.number k cached hw
  refine ⟨h.number, fun x hx => ?_, fun x hx q hq => ?_, fun j t hj => ?_,
    fun j q hq hnone x hx => ?_⟩
  · rcases List.mem_append.mp hx with hx | hx
    · exact h.below x hx
    · rw [List.mem_singleton.mp hx]
      exact hseq ▸ hlt
  · rcases List.mem_append.mp hx with hx | hx
    · exact h.same x hx q hq
    · rw [List.mem_singleton.mp hx] at hq ⊢
      exact Option.some.inj (hw.symm.trans (hseq ▸ hq))
  · rw [show (s.sent k timetable).timetable = timetable from rfl, hts] at hj
    split_ifs at hj with hjk
    · obtain rfl := Option.some.inj hj
      rcases hkeep with hnone | hsome
      · -- the first transmission of `k`
        refine ⟨⟨cached, some ts⟩, ?_, rfl⟩
        have hnew : sent.find? (fun x => x.pkt.seq = j) = none :=
          List.find?_eq_none.mpr fun x hx => by simpa [hjk] using h.unsent k cached hw hnone x hx
        rw [firstOf, List.find?_append, hnew]
        simp [hseq, hjk]
      · obtain ⟨x, hx, hrec⟩ := h.first k ts hsome
        exact ⟨x, hjk ▸ firstOf_append hx _, hrec⟩
    · obtain ⟨x, hx, hrec⟩ := h.first j t hj
      exact ⟨x, firstOf_append hx _, hrec⟩
  · rw [show (s.sent k timetable).timetable = timetable from rfl, hts] at hnone
    split_ifs at hnone with hjk
    rcases List.mem_append.mp hx with hx | hx
    · exact h.unsent j q hq hnone x hx
    · rw [List.mem_singleton.mp hx]
      exact fun heq => hjk (heq.symm.trans hseq)

theorem Logged.prune (h : Logged sent s) {c : ℕ} {timetable : OrdMap ℕ ℤ}
    {window : OrdMap ℕ NetPkt} (ht : pruneBelow c s.timetable = some timetable)
    (hw : pruneBelow c s.window = some window) :
    Logged sent { s with cumSeq := c, timetable := timetable, window := window } where
  number := fun k q hq => h.number k q ((pruneBelow_iff hw).mp hq).1
  below := h.below
  same := fun x hx q hq => h.same x hx q ((pruneBelow_iff hw).mp hq).1
  first := fun k ts hk => h.first k ts ((pruneBelow_iff ht).mp hk).1
  unsent := fun k q hq hnone => by
    obtain ⟨hq, hle⟩ := (pruneBelow_iff hw).mp hq
    refine h.unsent k q hq ?_
    cases hk : s.timetable.find? k with
    | none => rfl
    | some ts =>
      rw [show timetable.find? k = some ts from (pruneBelow_iff ht).mpr ⟨hk, hle⟩] at hnone
      cases hnone

theorem Logged.transmit_first (h : Logged sent s) {cached : NetPkt} {k : ℕ}
    (hw : s.window.find? k = some cached) (hnone : s.timetable.find? k = none) (now : ℤ) :
    Logged (sent ++ [⟨cached, some now⟩]) (s.sent k (s.timetable.insert k now)) ∧
      (Original (sent ++ [⟨cached, some now⟩]) ↔ Original sent ∧ cached.senderTS = now) := by
  have hts : ∀ j, (s.timetable.insert k now).find? j =
      if j = k then some now else s.timetable.find? j := fun j => OrdMap.find?_insert
  have hlog := h.transmit hw hts (.inl hnone)
  refine ⟨hlog, original_append.trans (and_congr_right fun _ => ?_)⟩
  obtain ⟨x, hx, hrec⟩ := hlog.first k now (by simp [RtSrvState.sent, hts])
  rw [(h.number _ _ hw).1, hx]
  constructor
  · rintro ⟨first, hf, hr⟩
    obtain rfl := Option.some.inj hf
    exact Option.some.inj (hr.symm.trans hrec)
  · rintro rfl
    exact ⟨x, rfl, hrec⟩

/-- The first transmission of a number was of the same packet, so a later one is
original with it. -/
theorem Logged.transmit_again (h : Logged sent s) {cached : NetPkt} {k : ℕ} {ts : ℤ}
    (hw : s.window.find? k = some cached) (hsome : s.timetable.find? k = some ts) :
    Logged (sent ++ [⟨cached, some ts⟩]) (s.sent k s.timetable) ∧
      (Original (sent ++ [⟨cached, some ts⟩]) ↔ Original sent) := by
  have hts : ∀ j, s.timetable.find? j = if j = k then some ts else s.timetable.find? j := by
    intro j
    split_ifs with hj
    · rw [hj, hsome]
    · rfl
  refine ⟨h.transmit hw hts (.inr hsome), Original.of_append,
    fun ho => original_append.mpr ⟨ho, ?_⟩⟩
  obtain ⟨x, hx, -⟩ := h.first k ts hsome
  have hmem := List.mem_of_find?_eq_some hx
  have hxs : x.pkt.seq = k := by simpa using List.find?_some hx
  obtain ⟨y, hy, hr⟩ := ho x hmem
  rw [hxs, hx] at hy
  obtain rfl := Option.some.inj hy
  have hsame : x.pkt = cached := h.same x hmem cached (hxs ▸ hw)
  refine ⟨x, ?_, hsame ▸ hr⟩
  rw [(h.number _ _ hw).1]
  exact firstOf_append hx _

/-- A client message: the log stays true, and the send times stay the original
ones exactly when a first request finds the time in the cached packet. -/
theorem Logged.handleClient (h : Logged sent s) (src : SockaddrIn) (p : AckPkt) (d : NetPkt) :
    let r := handleClient s src p d
    Logged (sent ++ transmissions r.1.timetable r.2.2) r.1 ∧
      (Original (sent ++ transmissions r.1.timetable r.2.2) ↔ Original sent ∧
        (p.seq ≠ 0 → p.isNack = true → ∀ cached, s.window.find? p.seq = some cached →
          s.timetable.find? p.seq = none → cached.senderTS = d.senderTS)) := by
  intro r
  refine handleClient_cases (motive := fun r =>
    Logged (sent ++ transmissions r.1.timetable r.2.2) r.1 ∧
      (Original (sent ++ transmissions r.1.timetable r.2.2) ↔ Original sent ∧
        (p.seq ≠ 0 → p.isNack = true → ∀ cached, s.window.find? p.seq = some cached →
          s.timetable.find? p.seq = none → cached.senderTS = d.senderTS))) ?_ ?_ ?_ ?_ ?_ ?_ ?_ ?_
  · intro h0 _ _
    simp only [transmissions, List.filterMap_cons, List.filterMap_nil, List.append_nil]
    exact ⟨h, fun ho => ⟨ho, fun hne => absurd h0 hne⟩, And.left⟩
  · intro h0 _
    simp only [transmissions, List.filterMap_cons, List.filterMap_nil, List.append_nil]
    exact ⟨⟨h.number, h.below, h.same, h.first, h.unsent⟩,
      fun ho => ⟨ho, fun hne => absurd h0 hne⟩, And.left⟩
  · intro _ _ hnone
    simp only [transmissions, List.filterMap_nil, List.append_nil]
    exact ⟨h, fun ho => ⟨ho, fun _ _ cached hw => by simp [hnone] at hw⟩, And.left⟩
  · intro cached h0 hn hw hnone
    have hnew : transmissions (s.sent p.seq (s.timetable.insert p.seq d.senderTS)).timetable
        [.data src cached] = [⟨cached, some d.senderTS⟩] := by
      simp [transmissions, RtSrvState.sent, OrdMap.find?_insert, (h.number _ _ hw).1]
    obtain ⟨hlog, horig⟩ := h.transmit_first hw hnone d.senderTS
    dsimp only
    rw [hnew]
    refine ⟨hlog, horig.trans (and_congr_right fun _ => ?_)⟩
    constructor
    · intro hstamp _ _ cached' hw' _
      obtain rfl := Option.some.inj (hw.symm.trans hw')
      exact hstamp
    · exact fun hst => hst h0 hn cached hw hnone
  · intro cached ts h0 hn hw hsome
    have hnew : transmissions (s.sent p.seq s.timetable).timetable [.data src cached] =
        [⟨cached, some ts⟩] := by
      simp [transmissions, RtSrvState.sent, (h.number _ _ hw).1, hsome]
    obtain ⟨hlog, horig⟩ := h.transmit_again hw hsome
    dsimp only
    rw [hnew]
    refine ⟨hlog, horig.trans (iff_self_and.mpr fun _ _ _ _ _ hnone => ?_)⟩
    rw [hsome] at hnone
    cases hnone
  · intro _ hn _
    simp only [transmissions, List.filterMap_nil, List.append_nil]
    exact ⟨h, fun ho => ⟨ho, fun _ hn' => by simp [hn] at hn'⟩, And.left⟩
  · intro timetable window _ hn _ ht hw
    simp only [transmissions, List.filterMap_nil, List.append_nil]
    exact ⟨h.prune ht hw, fun ho => ⟨ho, fun _ hn' => by simp [hn] at hn'⟩, And.left⟩
  · intro _ hn _ _
    simp only [transmissions, List.filterMap_nil, List.append_nil]
    exact ⟨⟨h.number, h.below, h.same, h.first, h.unsent⟩,
      fun ho => ⟨ho, fun _ hn' => by simp [hn] at hn'⟩, And.left⟩

theorem Logged.step (h : Logged sent s) (e : RtSrvEvent) :
    Logged (sent ++ transmits s e) (next rtSrvStep s e) ∧
      (Original (sent ++ transmits s e) ↔ Original sent ∧ StampedWhenCached s e) := by
  cases hf : s.faulted with
  | true =>
    simp only [transmits, next, rtSrvStep_faulted hf, transmissions, List.filterMap_nil,
      List.append_nil]
    exact ⟨h, fun ho => ⟨ho, fun hr => by simp [hf] at hr⟩, And.left⟩
  | false =>
    cases hc : e.client with
    | idle =>
      have heq : rtSrvStep s e = (Proj2.receiveApp s e.fresh e.app, []) := by
        simp [rtSrvStep, hf, hc]
      simp only [transmits, next, heq, transmissions, List.filterMap_nil, List.append_nil]
      exact ⟨h.receiveApp _ _, fun ho => ⟨ho, fun _ src p hm => by simp [hc] at hm⟩, And.left⟩
    | failed =>
      have heq : rtSrvStep s e = (s, []) := by simp [rtSrvStep, hf, hc]
      simp only [transmits, next, heq, transmissions, List.filterMap_nil, List.append_nil]
      exact ⟨h, fun ho => ⟨ho, fun _ src p hm => by simp [hc] at hm⟩, And.left⟩
    | msg src p =>
      obtain ⟨hlog, horig⟩ := h.handleClient src p { e.fresh with senderTS := e.now }
      obtain ⟨w, c, happ⟩ := receiveApp_frame
        (Proj2.handleClient s src p { e.fresh with senderTS := e.now }).1
        (Proj2.handleClient s src p { e.fresh with senderTS := e.now }).2.1 e.app
      have htt := congrArg RtSrvState.timetable happ
      simp only [transmits, next, rtSrvStep_msg hf hc, htt]
      refine ⟨hlog.receiveApp _ _, horig.trans (and_congr_right fun _ => ?_)⟩
      constructor
      · intro hst _ src' p' hm
        obtain ⟨rfl, rfl⟩ := ClientInput.msg.inj (hc.symm.trans hm)
        exact hst
      · exact fun hst => hst hf src p hc

/-- In a run of the server, every data packet carries the clock reading recorded
for its number when that was first sent, exactly when each first request finds
this reading in the cached packet. -/
theorem original_send_time_iff (sinPort : UInt16) (es : List RtSrvEvent) :
    Original (gather (next rtSrvStep) transmits (.init sinPort) es) ↔
      Along (next rtSrvStep) StampedWhenCached (.init sinPort) es := by
  have hgen : Logged (gather (next rtSrvStep) transmits (.init sinPort) es)
      (es.foldl (next rtSrvStep) (.init sinPort)) ∧
      (Original (gather (next rtSrvStep) transmits (.init sinPort) es) ↔
        Along (next rtSrvStep) StampedWhenCached (.init sinPort) es) := by
    induction es using List.reverseRecOn with
    | nil => exact ⟨logged_init sinPort, iff_of_true (by simp [gather, Original]) trivial⟩
    | append_singleton es e ih =>
      obtain ⟨hlog, hiff⟩ := ih
      obtain ⟨hlog', hstep⟩ := hlog.step e
      rw [gather_concat, List.foldl_append, along_concat]
      exact ⟨hlog', hstep.trans (and_congr_left' hiff)⟩
  exact hgen.2

/-- A datagram is cached in a packet that holds zeros, and requested at time 5 and
again at time 9: both transmissions carry 0, and 5 is recorded. -/
theorem cached_stamp_sent :
    let app : RtSrvEvent := ⟨.idle, some [7], 1, zeroPkt⟩
    let nack (now : ℤ) : RtSrvEvent := ⟨.msg ⟨1, 5⟩ ⟨1, true⟩, none, now, zeroPkt⟩
    let sent := gather (next rtSrvStep) transmits (.init 0) [app, nack 5, nack 9]
    sent.map (fun x => (x.pkt.seq, x.pkt.senderTS, x.recorded)) = [(1, 0, some 5), (1, 0, some 5)] ∧
      ¬ Original sent := by
  intro app nack sent
  refine ⟨by decide +kernel, fun h => ?_⟩
  have hmem : ∃ x ∈ sent, x.pkt.seq = 1 ∧ x.pkt.senderTS = 0 := by decide +kernel
  have hfirst : (firstOf sent 1).map (·.recorded) = some (some 5) := by decide +kernel
  obtain ⟨x, hx, hseq, hts⟩ := hmem
  obtain ⟨first, hf, hrec⟩ := h x hx
  rw [hseq] at hf
  rw [hf, Option.map_some, hrec, hts] at hfirst
  simp at hfirst

end Wan.Proj2
