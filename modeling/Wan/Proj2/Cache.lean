import Wan.Proj2.RtSrv

/-!
# The server's cache

The window holds application datagrams under the numbers they were given
(`Cached`), whatever clients send. As long as clients acknowledge only numbers
they were sent, it holds exactly the numbers from `cum_seq` on (`Contiguous`),
and the pruning loops stop where they should.
-/

namespace Wan.Proj2

open Posix Lib

variable {s : RtSrvState} {e : RtSrvEvent} {src : SockaddrIn} {p : AckPkt} {d : NetPkt}
  {app : Option Bytes} {apps : List Bytes} {k : ℕ}

-- ---------------------------------------------------------------------------
-- Numbered datagrams
-- ---------------------------------------------------------------------------

def Numbered (apps : List Bytes) (q : NetPkt) : Prop :=
  1 ≤ q.seq ∧ apps[q.seq - 1]? = some q.payload

theorem Numbered.append {q : NetPkt} (h : Numbered apps q) (more : List Bytes) :
    Numbered (apps ++ more) q := by
  refine ⟨h.1, ?_⟩
  rw [List.getElem?_append_left]
  · exact h.2
  · exact (List.getElem?_eq_some_iff.mp h.2).1

def accepted (s : RtSrvState) (e : RtSrvEvent) : List Bytes :=
  if (rtSrvStep s e).1.cacheSeq = s.cacheSeq then [] else e.app.toList

def Fits (app : Option Bytes) : Prop := ∀ bytes, app = some bytes → bytes.length ≤ dataLen

structure Cached (apps : List Bytes) (s : RtSrvState) : Prop where
  count : s.cacheSeq = apps.length + 1
  window : ∀ k q, s.window.find? k = some q → q.seq = k ∧ Numbered apps q

theorem cached_init (sinPort : UInt16) : Cached [] (.init sinPort) where
  count := rfl
  window := fun k q h => by simp [RtSrvState.init] at h

theorem pruneBelow_iff {ν : Type} {m rest : OrdMap ℕ ν} {c : ℕ} (h : pruneBelow c m = some rest)
    {v : ν} : rest.find? k = some v ↔ m.find? k = some v ∧ c ≤ k := by
  simp only [pruneBelow] at h
  split_ifs at h
  obtain rfl := Option.some.inj h
  exact OrdMap.find?_popWhile_lt

theorem mem_keys_pruneBelow {ν : Type} {m rest : OrdMap ℕ ν} {c : ℕ}
    (h : pruneBelow c m = some rest) : k ∈ rest.keys ↔ k ∈ m.keys ∧ c ≤ k := by
  simp only [OrdMap.mem_keys, pruneBelow_iff h, exists_and_right]

theorem pruneBelow_ne_none {ν : Type} {m : OrdMap ℕ ν} {c : ℕ} (hk : k ∈ m.keys) (hc : c ≤ k) :
    pruneBelow c m ≠ none := by
  obtain ⟨v, hv⟩ := OrdMap.mem_keys.mp hk
  have hmem : (k, v) ∈ (m.popWhile fun _ e => e.1 < c).2.entries :=
    OrdMap.find?_iff.mp (OrdMap.find?_popWhile_lt.mpr ⟨hv, hc⟩)
  simp only [pruneBelow]
  rw [if_neg (List.ne_nil_of_mem hmem)]
  exact Option.some_ne_none _

theorem handleClient_window (s : RtSrvState) (src : SockaddrIn) (p : AckPkt) (d : NetPkt) :
    (handleClient s src p d).1.cacheSeq = s.cacheSeq ∧
      ∀ k q, (handleClient s src p d).1.window.find? k = some q → s.window.find? k = some q := by
  refine handleClient_cases (motive := fun r => r.1.cacheSeq = s.cacheSeq ∧
    ∀ k q, r.1.window.find? k = some q → s.window.find? k = some q) ?_ ?_ ?_ ?_ ?_ ?_ ?_ ?_
  · exact fun _ _ _ => ⟨rfl, fun _ _ h => h⟩
  · exact fun _ _ => ⟨rfl, fun _ _ h => h⟩
  · exact fun _ _ _ => ⟨rfl, fun _ _ h => h⟩
  · exact fun _ _ _ _ _ => ⟨rfl, fun _ _ h => h⟩
  · exact fun _ _ _ _ _ _ => ⟨rfl, fun _ _ h => h⟩
  · exact fun _ _ _ => ⟨rfl, fun _ _ h => h⟩
  · exact fun _ _ _ _ _ _ hw => ⟨rfl, fun _ _ h => ((pruneBelow_iff hw).mp h).1⟩
  · exact fun _ _ _ _ => ⟨rfl, fun _ _ h => h⟩

inductive CacheStep (s : RtSrvState) (app : Option Bytes) (t : RtSrvState) : Prop
  | same (count : t.cacheSeq = s.cacheSeq)
      (window : ∀ k q, t.window.find? k = some q → s.window.find? k = some q)
  | added (bytes : Bytes) (d : NetPkt) (app : app = some bytes)
      (count : t.cacheSeq = s.cacheSeq + 1)
      (window : ∀ k q, t.window.find? k = some q →
        (k = s.cacheSeq ∧ q = s.cachedPkt d bytes) ∨ s.window.find? k = some q)

theorem receiveApp_cache {t : RtSrvState} (hcount : t.cacheSeq = s.cacheSeq)
    (hwin : ∀ k q, t.window.find? k = some q → s.window.find? k = some q) (d : NetPkt)
    (app : Option Bytes) : CacheStep s app (receiveApp t d app) := by
  rcases receiveApp_cases t d app with h | ⟨bytes, hbytes, h⟩
  · rw [h]
    exact .same hcount hwin
  · rw [h]
    refine .added bytes d hbytes (congrArg (· + 1) hcount) fun k q hq => ?_
    rw [OrdMap.find?_insert] at hq
    split_ifs at hq with hk
    · refine .inl ⟨hk.trans hcount, ?_⟩
      rw [← Option.some.inj hq, RtSrvState.cachedPkt, RtSrvState.cachedPkt, hcount]
    · exact .inr (hwin k q hq)

theorem rtSrvStep_cache (s : RtSrvState) (e : RtSrvEvent) :
    CacheStep s e.app (rtSrvStep s e).1 := by
  refine rtSrvStep_cases (motive := fun r => CacheStep s e.app r.1) ?_ ?_ ?_ ?_
  · exact fun _ => .same rfl fun _ _ h => h
  · exact fun _ => receiveApp_cache rfl (fun _ _ h => h) _ _
  · exact fun _ => .same rfl fun _ _ h => h
  · intro src p _ _ r
    obtain ⟨hcount, hwin⟩ := handleClient_window s src p { e.fresh with senderTS := e.now }
    exact receiveApp_cache hcount hwin _ _

theorem number_rtSrvStep (h : ∀ k q, s.window.find? k = some q → q.seq = k) (e : RtSrvEvent) :
    ∀ k q, (rtSrvStep s e).1.window.find? k = some q → q.seq = k := by
  intro k q hq
  cases rtSrvStep_cache s e with
  | same _ hwin => exact h k q (hwin k q hq)
  | added bytes d _ _ hwin =>
    rcases hwin k q hq with ⟨rfl, rfl⟩ | hq
    · rfl
    · exact h k q hq

/-- Whatever is received, the cache holds datagrams under their numbers, and what
is sent as data is one of them. -/
theorem Cached.step (h : Cached apps s) (hfit : Fits e.app) :
    Cached (apps ++ accepted s e) (rtSrvStep s e).1 ∧
      ∀ dst q, .data dst q ∈ (rtSrvStep s e).2 → Numbered apps q := by
  refine ⟨?_, fun dst q hm => ?_⟩
  · cases rtSrvStep_cache s e with
    | same hcount hwin =>
      rw [accepted, if_pos hcount, List.append_nil]
      exact ⟨hcount.trans h.count, fun k q hq => h.window k q (hwin k q hq)⟩
    | added bytes d happ hcount hwin =>
      rw [accepted, if_neg (by simp [hcount]), happ]
      refine ⟨by simp [hcount, h.count], fun k q hq => ?_⟩
      rcases hwin k q hq with ⟨rfl, rfl⟩ | hq
      · -- the new packet
        have hpay : (d.data.memcpy bytes).toList.take bytes.length = bytes :=
          CharArray.take_memcpy d.data (hfit bytes happ)
        refine ⟨rfl, by simp [RtSrvState.cachedPkt, h.count], ?_⟩
        simp [RtSrvState.cachedPkt, NetPkt.payload, h.count, hpay]
      · obtain ⟨hseq, hnum⟩ := h.window k q hq
        exact ⟨hseq, hnum.append _⟩
  · obtain ⟨p, -, -, hw⟩ := rtSrvStep_data hm
    exact (h.window _ q hw).2

-- ---------------------------------------------------------------------------
-- The cached range
-- ---------------------------------------------------------------------------

/-- The cache holds the numbers from `cum_seq` up to the next one to be given, and
send times only of these. -/
structure Contiguous (s : RtSrvState) : Prop where
  running : s.faulted = false
  below : s.cumSeq < s.cacheSeq
  keys : ∀ k, k ∈ s.window.keys ↔ max 1 s.cumSeq ≤ k ∧ k < s.cacheSeq
  sent : ∀ k ∈ s.timetable.keys, k ∈ s.window.keys

def Sent (s : RtSrvState) (k : ℕ) : Prop :=
  1 ≤ k ∧ k < s.cacheSeq ∧ (k < s.cumSeq ∨ k ∈ s.timetable.keys)

theorem contiguous_init (sinPort : UInt16) : Contiguous (.init sinPort) where
  running := rfl
  below := Nat.zero_lt_one
  keys := fun k => by
    simp only [RtSrvState.init, OrdMap.keys_empty, List.not_mem_nil, false_iff]
    omega
  sent := fun k hk => by simp [RtSrvState.init] at hk

theorem Contiguous.of_sent (h : Contiguous s) (hk : Sent s k) (hc : s.cumSeq ≤ k) :
    k ∈ s.timetable.keys ∧ k ∈ s.window.keys := by
  have ht : k ∈ s.timetable.keys := hk.2.2.resolve_left (not_lt.mpr hc)
  exact ⟨ht, h.sent k ht⟩

theorem Contiguous.prune (h : Contiguous s) (hlt : s.cumSeq < k) (hk : Sent s k)
    {timetable : OrdMap ℕ ℤ} {window : OrdMap ℕ NetPkt}
    (ht : pruneBelow k s.timetable = some timetable) (hw : pruneBelow k s.window = some window) :
    Contiguous { s with cumSeq := k, timetable := timetable, window := window } ∧
      ∀ j, Sent s j → Sent { s with cumSeq := k, timetable := timetable, window := window } j := by
  refine ⟨⟨h.running, hk.2.1, fun j => ?_, fun j hj => ?_⟩, fun j hj => ⟨hj.1, hj.2.1, ?_⟩⟩
  · show j ∈ window.keys ↔ max 1 k ≤ j ∧ j < s.cacheSeq
    rw [mem_keys_pruneBelow hw, h.keys]
    omega
  · show j ∈ window.keys
    obtain ⟨hj, hle⟩ := (mem_keys_pruneBelow ht).mp hj
    exact (mem_keys_pruneBelow hw).mpr ⟨h.sent j hj, hle⟩
  · show j < k ∨ j ∈ timetable.keys
    refine or_iff_not_imp_left.mpr fun hge => ?_
    rcases hj.2.2 with hc | hj
    · omega
    · exact (mem_keys_pruneBelow ht).mpr ⟨hj, by omega⟩

theorem Contiguous.request (h : Contiguous s) (hw : k ∈ s.window.keys) (timetable : OrdMap ℕ ℤ)
    (ht : ∀ j, j ∈ timetable.keys ↔ j = k ∨ j ∈ s.timetable.keys) :
    Contiguous (s.sent k timetable) ∧ (∀ j, Sent s j → Sent (s.sent k timetable) j) ∧
      Sent (s.sent k timetable) k := by
  obtain ⟨hlo, hhi⟩ := (h.keys k).mp hw
  refine ⟨⟨h.running, h.below, h.keys, fun j hj => ?_⟩, fun j hj => ⟨hj.1, hj.2.1, ?_⟩,
    (le_max_left _ _).trans hlo, hhi, .inr ((ht k).mpr (.inl rfl))⟩
  · rcases (ht j).mp hj with rfl | hj
    · exact hw
    · exact h.sent j hj
  · exact hj.2.2.imp_right fun hj => (ht j).mpr (.inr hj)

theorem Contiguous.handleClient (h : Contiguous s) (src : SockaddrIn) (d : NetPkt)
    (hack : p.isNack = false → s.cumSeq < p.seq → Sent s p.seq) :
    Contiguous (handleClient s src p d).1 ∧
      (∀ j, Sent s j → Sent (handleClient s src p d).1 j) ∧
      (∀ dst q, .data dst q ∈ (handleClient s src p d).2.2 →
        Sent (handleClient s src p d).1 p.seq) ∧
      ((handleClient s src p d).1.cumSeq = s.cumSeq ∨
        (p.isNack = false ∧ s.cumSeq < p.seq ∧ (handleClient s src p d).1.cumSeq = p.seq)) := by
  refine handleClient_cases (motive := fun r => Contiguous r.1 ∧ (∀ j, Sent s j → Sent r.1 j) ∧
    (∀ dst q, .data dst q ∈ r.2.2 → Sent r.1 p.seq) ∧
    (r.1.cumSeq = s.cumSeq ∨ (p.isNack = false ∧ s.cumSeq < p.seq ∧ r.1.cumSeq = p.seq)))
    ?_ ?_ ?_ ?_ ?_ ?_ ?_ ?_
  · exact fun _ _ _ =>
      ⟨h, fun _ hj => hj, fun _ _ hm => (nomatch List.mem_singleton.mp hm), .inl rfl⟩
  · exact fun _ _ => ⟨⟨h.running, h.below, h.keys, h.sent⟩, fun _ hj => hj,
      fun _ _ hm => (nomatch List.mem_singleton.mp hm), .inl rfl⟩
  · exact fun _ _ _ => ⟨h, fun _ hj => hj, fun _ _ hm => absurd hm List.not_mem_nil, .inl rfl⟩
  · intro cached _ _ hw _
    obtain ⟨h1, h2, h3⟩ := h.request (OrdMap.mem_keys.mpr ⟨cached, hw⟩)
      (s.timetable.insert p.seq d.senderTS) fun j => OrdMap.mem_keys_insert
    exact ⟨h1, h2, fun _ _ _ => h3, .inl rfl⟩
  · intro cached ts _ _ hw ht
    have hmem : p.seq ∈ s.timetable.keys := OrdMap.mem_keys.mpr ⟨ts, ht⟩
    obtain ⟨h1, h2, h3⟩ := h.request (OrdMap.mem_keys.mpr ⟨cached, hw⟩)
      s.timetable fun j => ⟨.inr, fun hj => by rcases hj with rfl | hj <;> assumption⟩
    exact ⟨h1, h2, fun _ _ _ => h3, .inl rfl⟩
  · exact fun _ _ _ => ⟨h, fun _ hj => hj, fun _ _ hm => absurd hm List.not_mem_nil, .inl rfl⟩
  · intro timetable window _ hn hlt ht hw
    obtain ⟨h1, h2⟩ := h.prune hlt (hack hn hlt) ht hw
    exact ⟨h1, h2, fun _ _ hm => absurd hm List.not_mem_nil, .inr ⟨hn, hlt, rfl⟩⟩
  · intro _ hn hlt hnone
    obtain ⟨ht, hw⟩ := h.of_sent (hack hn hlt) hlt.le
    rcases hnone with hnone | hnone
    · exact absurd hnone (pruneBelow_ne_none ht le_rfl)
    · exact absurd hnone (pruneBelow_ne_none hw le_rfl)

theorem Contiguous.receiveApp (h : Contiguous s) (d : NetPkt) (app : Option Bytes) :
    Contiguous (receiveApp s d app) ∧ (∀ j, Sent s j → Sent (receiveApp s d app) j) ∧
      (receiveApp s d app).cumSeq = s.cumSeq ∧ s.cacheSeq ≤ (receiveApp s d app).cacheSeq := by
  rcases receiveApp_cases s d app with heq | ⟨bytes, rfl, heq⟩
  · rw [heq]
    exact ⟨h, fun _ hj => hj, rfl, le_rfl⟩
  · have hbelow := h.below
    rw [heq]
    refine ⟨⟨h.running, Nat.lt_succ_of_lt hbelow, fun j => ?_, fun j hj => ?_⟩,
      fun j hj => ⟨hj.1, Nat.lt_succ_of_lt hj.2.1, hj.2.2⟩, rfl, Nat.le_succ _⟩
    · rw [OrdMap.mem_keys_insert, h.keys]
      dsimp only
      omega
    · exact OrdMap.mem_keys_insert.mpr (.inr (h.sent j hj))

theorem Contiguous.step (h : Contiguous s)
    (hack : ∀ src p, e.client = .msg src p → p.isNack = false → s.cumSeq < p.seq → Sent s p.seq) :
    Contiguous (rtSrvStep s e).1 ∧ (∀ j, Sent s j → Sent (rtSrvStep s e).1 j) ∧
      (∀ dst q, .data dst q ∈ (rtSrvStep s e).2 →
        ∃ k, s.window.find? k = some q ∧ Sent (rtSrvStep s e).1 k) ∧
      ((rtSrvStep s e).1.cumSeq = s.cumSeq ∨ ∃ src p, e.client = .msg src p ∧ p.isNack = false ∧
        s.cumSeq < p.seq ∧ (rtSrvStep s e).1.cumSeq = p.seq) ∧
      s.cacheSeq ≤ (rtSrvStep s e).1.cacheSeq := by
  cases hc : e.client with
  | idle =>
    have heq : rtSrvStep s e = (Proj2.receiveApp s e.fresh e.app, []) := by
      simp [rtSrvStep, h.running, hc]
    obtain ⟨h1, h2, h3, h4⟩ := h.receiveApp e.fresh e.app
    rw [heq]
    exact ⟨h1, h2, fun _ _ hm => absurd hm List.not_mem_nil, .inl h3, h4⟩
  | failed =>
    have heq : rtSrvStep s e = (s, []) := by
      simp [rtSrvStep, h.running, hc]
    rw [heq]
    exact ⟨h, fun _ hj => hj, fun _ _ hm => absurd hm List.not_mem_nil, .inl rfl, le_rfl⟩
  | msg src p =>
    obtain ⟨h1, h2, h3, h4⟩ := h.handleClient src { e.fresh with senderTS := e.now } (hack src p hc)
    obtain ⟨hcount, -⟩ := handleClient_window s src p { e.fresh with senderTS := e.now }
    obtain ⟨h5, h6, h7, h8⟩ := h1.receiveApp
      (Proj2.handleClient s src p { e.fresh with senderTS := e.now }).2.1 e.app
    rw [rtSrvStep_msg h.running hc]
    refine ⟨h5, fun j hj => h6 j (h2 j hj), fun dst q hm => ?_, ?_, hcount ▸ h8⟩
    · exact ⟨p.seq, (handleClient_data hm).2.2, h6 p.seq (h3 dst q hm)⟩
    · rcases h4 with h4 | ⟨hn, hlt, h4⟩
      · exact .inl (h7.trans h4)
      · exact .inr ⟨src, p, rfl, hn, hlt, h7.trans h4⟩

end Wan.Proj2
