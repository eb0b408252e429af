import Wan.Proj2.NoDiscard
import Wan.Proj2.Calibration
import Wan.Proj2.Rejection
import Wan.Proj2.Stranded

/-!
# Which losses are made good

While the application is silent, what the receiver waits for can only come from a
few places: an entry of its timetable that will expire, a packet or a request in
flight, or a request it still has to make. `Alive` lists them. When there is one,
the receiver can be brought level with the server; when there is none, nothing
that happens moves `cum_seq` again, whatever the server still holds.

Such a dead end exists because a NACK is only sent for a number that is not in the
window: when `cum_seq` itself is held, and no held number behind it expires any
more, the receiver has nothing to ask for.
-/

namespace Wan.Proj2

open Posix Lib

variable {s t : RtNet} {r : RtRcvState} {a : SockaddrIn} {e : RtNetEvent} {k : ℕ} {now : ℤ}

/-- The application sends nothing, allocated memory holds 0 where the number of a
packet goes, and the receiver reads its clock no earlier than `now`. -/
def RtNetEvent.Silent (now : ℤ) : RtNetEvent → Prop
  | .srvPass _ app _ fresh => app.getD [] = [] ∧ fresh.seq = 0
  | .deliverRcv _ clock => ∀ i, now ≤ clock i
  | .rcvTimeout clock => ∀ i, now ≤ clock i
  | _ => True

/-- Where a packet with number `k` may still come from. -/
inductive Alive (s : RtNet) (k : ℕ) : Prop
  | expiring (ts : ℤ) (held : (ts, k) ∈ s.rcv.timetable.entries)
  | coming (o : RtSrvEffect) (flight : o ∈ s.toRcv) (seq : o.pkt.seq = k)
  | asked (q : AckPkt) (flight : q ∈ s.toSrv) (nack : q.isNack = true) (seq : q.seq = k)
      (given : k < s.srv.cacheSeq)
  | missing (gap : k ∉ s.rcv.window.keys) (near : k < s.rcv.cumSeq + wSize)
      (given : k < s.srv.cacheSeq)

def Stuck (s : RtNet) : Prop := ∀ k, s.rcv.cumSeq ≤ k → ¬ Alive s k

theorem exists_late (m : OrdMap ℤ ℕ) (delta now : ℤ) :
    ∃ c, now ≤ c ∧ ∀ e ∈ m.entries, expired delta c e.1 = true := by
  obtain ⟨top, htop⟩ : ∃ top, ∀ e ∈ m.entries, e.1 ≤ top := by
    induction m.entries with
    | nil => exact ⟨0, by simp⟩
    | cons d ds ih =>
      obtain ⟨top, htop⟩ := ih
      refine ⟨max d.1 top, fun e he => ?_⟩
      rcases List.mem_cons.mp he with rfl | he
      · exact le_max_left _ _
      · exact (htop e he).trans (le_max_right _ _)
  obtain ⟨c, hc⟩ : ∃ c, max now (top + 2 ^ 31 * 1000000) = c := ⟨_, rfl⟩
  refine ⟨c, hc ▸ le_max_left _ _, fun e he => ?_⟩
  have hle : top + 2 ^ 31 * 1000000 ≤ c := hc ▸ le_max_right _ _
  have hold := htop e he
  have hint : deadline delta < 2 ^ 31 := (toInt_range _).2
  rw [expired, decide_eq_true_eq, toMS, Int.tdiv_eq_ediv_of_nonneg (by omega)]
  omega

theorem lt_cumSeq_deliver {ts c : ℤ} (hc : 1 ≤ r.cumSeq) (hk : (ts, k) ∈ r.timetable.entries)
    (hx : expired r.delta c ts = true) : k < (deliver r fun _ => c).1.cumSeq := by
  have htop := le_topDeliverSeq (OrdMap.find?_iff.mpr hk) hx
  show k < if r.cumSeq > 0 ∧ topDeliverSeq r (fun _ => c) ≥ r.cumSeq then _ else _
  split_ifs with h
  · exact Nat.lt_succ_of_le htop
  · exact htop.trans_lt (not_le.mp fun hle => h ⟨hc, hle⟩)

-- ---------------------------------------------------------------------------
-- What runs keep
-- ---------------------------------------------------------------------------

theorem RtNetEvent.Silent.fits (h : e.Silent now) : AppFits e := by
  cases e with
  | srvPass i app t fresh =>
    intro bytes hbytes
    obtain ⟨happ, -⟩ := h
    rw [hbytes, Option.getD_some] at happ
    simp [happ]
  | _ => trivial

def RtNetEvent.FreshZero : RtNetEvent → Prop
  | .srvPass _ _ _ fresh => fresh.seq = 0
  | _ => True

theorem RtNetEvent.Silent.freshZero (h : e.Silent now) : e.FreshZero := by
  cases e with
  | srvPass i app t fresh => exact h.2
  | _ => trivial

theorem RepliesZero.step (h : RepliesZero s) (he : e.FreshZero) :
    RepliesZero (rtNetStep a s e) := by
  refine rtNetStep_cases (motive := RepliesZero) ?_ ?_ ?_ ?_
  · rintro toSrv client app t fresh - - ⟨i, rfl⟩ o ho hr
    rcases List.mem_append.mp ho with ho | ho
    · exact h o ho hr
    · cases o with
      | reject dst q => cases hr
      | data dst q => cases hr
      | reply dst q =>
        obtain ⟨-, -, -, rfl, -⟩ := (rtSrvStep_phaseI _ _).1 dst q ho
        exact he
  · exact fun toRcv i clock o hsub _ _ o' ho' hr => h o' (hsub o' ho') hr
  · exact fun clock _ o ho hr => h o ho hr
  · exact fun toRcv toSrv hsub _ o ho hr => h o (hsub o ho) hr

structure Serving (a : SockaddrIn) (s : RtNet) : Prop where
  kept : Kept a s
  requested : Requested s
  zero : RepliesZero s
  running : s.srv.cacheSeq ≤ blockedSeq → s.rcv.exited = false

theorem serving_init (a : SockaddrIn) (sinPort : UInt16) : Serving a (.init sinPort) where
  kept := kept_init a sinPort
  requested := requested_init sinPort
  zero := fun _ ho => absurd ho List.not_mem_nil
  running := fun _ => rfl

/-- Number 0xffffffff is not given yet, so nothing in flight has it. -/
theorem Serving.notBlocked (h : Serving a s) (hsmall : s.srv.cacheSeq ≤ blockedSeq)
    {o : RtSrvEffect} (ho : o ∈ s.toRcv) : o.pkt.seq ≠ blockedSeq := by
  intro hb
  rcases h.kept.flight o ho with h0 | hsent
  · rw [h0] at hb
    cases hb
  · exact absurd hsent.2.1 (not_lt.mpr (hb ▸ hsmall))

theorem Serving.step (h : Serving a s) (he : Tame a s e) : Serving a (rtNetStep a s e) where
  kept := h.kept.step he
  requested := h.requested.step h.zero
  zero := he.2
  running := by
    refine rtNetStep_cases (motive := fun t => t.srv.cacheSeq ≤ blockedSeq → t.rcv.exited = false)
      ?_ ?_ ?_ ?_
    · intro toSrv client app t fresh _ _ _ hsmall
      refine h.running (le_trans ?_ hsmall)
      show s.srv.cacheSeq ≤ (rtSrvStep s.srv ⟨client, app, t, fresh⟩).1.cacheSeq
      cases rtSrvStep_cache s.srv ⟨client, app, t, fresh⟩ with
      | same hcount _ => exact hcount.ge
      | added _ _ _ hcount _ => exact hcount ▸ Nat.le_succ _
    · intro toRcv i clock o _ _ ho hsmall
      refine Bool.eq_false_iff.mpr fun hx => ?_
      obtain ⟨pkt, clock', heq, hb⟩ := exited_rtRcvStep (h.running hsmall) hx
      obtain ⟨rfl, -⟩ := RtRcvEvent.recv.inj heq
      exact h.notBlocked hsmall (List.mem_of_getElem? ho) hb
    · intro clock _ hsmall
      refine Bool.eq_false_iff.mpr fun hx => ?_
      obtain ⟨pkt, clock', heq, -⟩ := exited_rtRcvStep (h.running hsmall) hx
      cases heq
    · exact fun _ _ _ _ => h.running

theorem Serving.silent (h : Serving a s) (he : e.Silent now) : Serving a (rtNetStep a s e) :=
  h.step ⟨he.fits, h.zero.step he.freshZero⟩

theorem cacheSeq_rtSrvStep {q : RtSrvState} {e : RtSrvEvent} (happ : e.app.getD [] = []) :
    (rtSrvStep q e).1.cacheSeq = q.cacheSeq := by
  refine rtSrvStep_cases (motive := fun r => r.1.cacheSeq = q.cacheSeq) ?_ ?_ ?_ ?_
  · exact fun _ => rfl
  · exact fun _ => by rw [receiveApp_empty happ]
  · exact fun _ => rfl
  · intro src p _ _ r
    rw [receiveApp_empty happ]
    exact (handleClient_window _ _ _ _).1

theorem cacheSeq_silent (he : e.Silent now) : (rtNetStep a s e).srv.cacheSeq = s.srv.cacheSeq := by
  refine rtNetStep_cases (motive := fun t => t.srv.cacheSeq = s.srv.cacheSeq) ?_ ?_ ?_ ?_
  · rintro toSrv client app t fresh - - ⟨i, rfl⟩
    exact cacheSeq_rtSrvStep he.1
  · exact fun _ _ _ _ _ _ _ => rfl
  · exact fun _ _ => rfl
  · exact fun _ _ _ _ => rfl

-- ---------------------------------------------------------------------------
-- Moving on
-- ---------------------------------------------------------------------------

def Advances (a : SockaddrIn) (now : ℤ) (s : RtNet) : Prop :=
  ∃ later : List RtNetEvent, (∀ e ∈ later, e.Silent now) ∧
    s.rcv.cumSeq < (later.foldl (rtNetStep a) s).rcv.cumSeq

theorem Advances.one (he : e.Silent now) (hlt : s.rcv.cumSeq < (rtNetStep a s e).rcv.cumSeq) :
    Advances a now s :=
  ⟨[e], by simpa using he, hlt⟩

theorem Advances.after (he : e.Silent now) (hle : s.rcv.cumSeq ≤ (rtNetStep a s e).rcv.cumSeq)
    (h : Advances a now (rtNetStep a s e)) : Advances a now s := by
  obtain ⟨later, hsilent, hlt⟩ := h
  exact ⟨e :: later, List.forall_mem_cons.mpr ⟨he, hsilent⟩, hle.trans_lt hlt⟩

theorem Serving.coming (h : Serving a s) (hsmall : s.srv.cacheSeq ≤ blockedSeq)
    {o : RtSrvEffect} (ho : o ∈ s.toRcv) (hle : s.rcv.cumSeq ≤ o.pkt.seq) (now : ℤ) :
    Advances a now s := by
  obtain ⟨i, hi⟩ := List.mem_iff_getElem?.mp ho
  have hx := h.running hsmall
  have hb := h.notBlocked hsmall ho
  -- the packet and everything before it have expired
  obtain ⟨c, hnow, hlate⟩ := exists_late (s.rcv.timetable.insert o.pkt.senderTS o.pkt.seq)
    s.rcv.delta now
  have hstep : (rtNetStep a s (.deliverRcv i fun _ => c)).rcv =
      (rtRcvStep s.rcv (.recv o.pkt fun _ => c)).1 := by
    simp only [rtNetStep, hi]
    rfl
  refine .one (e := .deliverRcv i fun _ => c) (fun _ => hnow) ?_
  rw [hstep]
  by_cases hc : 1 ≤ s.rcv.cumSeq
  · rw [rtRcvStep_phaseII hx hb fun h0 => by omega]
    obtain ⟨r, hr⟩ : ∃ r, (phaseII { s.rcv with totalPkts := s.rcv.totalPkts + 1 } o.pkt
      (toMS (c - o.pkt.senderTS))).1 = r := ⟨_, rfl⟩
    have htab : r.timetable = s.rcv.timetable.insert o.pkt.senderTS o.pkt.seq :=
      hr ▸ timetable_phaseII _ _ _
    have hdelta : r.delta = s.rcv.delta := hr ▸ phaseII_delta _ _ _
    have hmem : (o.pkt.senderTS, o.pkt.seq) ∈ r.timetable.entries := by
      rw [htab, ← OrdMap.find?_iff, OrdMap.find?_insert, if_pos rfl]
    have hcum : s.rcv.cumSeq ≤ r.cumSeq := by
      obtain ⟨-, hmove, -⟩ := h.requested.stock.received.phaseII hc
        (show (fun _ => True) o.pkt from trivial) (toMS (c - o.pkt.senderTS))
      exact hr ▸ hmove.le
    dsimp only
    rw [hr]
    exact hle.trans_lt (lt_cumSeq_deliver (hc.trans hcum) hmem (hdelta ▸ hlate _ (htab ▸ hmem)))
  · -- the first packet of all
    have h0 : s.rcv.cumSeq = 0 := by omega
    obtain ⟨hd, -⟩ := h.requested.stock.phaseI h0
    simp [rtRcvStep, rtRcvRecv, hx, hb, h0, hd]

theorem handleClient_answers {q : RtSrvState} {src : SockaddrIn} {p : AckPkt} {d : NetPkt}
    (hn : p.isNack = true) (hacc : q.currClientAddr.sAddr ≠ 0 → src = q.currClientAddr)
    (hd : d.seq = 0) (hw : p.seq ≠ 0 → ∃ cached, q.window.find? p.seq = some cached)
    (hnum : ∀ k cached, q.window.find? k = some cached → cached.seq = k) :
    ∃ o ∈ (handleClient q src p d).2.2, o.pkt.seq = p.seq ∧
      (p.seq ≠ 0 → ∃ dst cached, o = .data dst cached) := by
  refine handleClient_cases (motive := fun r => ∃ o ∈ r.2.2, o.pkt.seq = p.seq ∧
    (p.seq ≠ 0 → ∃ dst cached, o = .data dst cached)) ?_ ?_ ?_ ?_ ?_ ?_ ?_ ?_
  · exact fun _ h0 hne => absurd (hacc h0) hne
  · exact fun h0 _ => ⟨_, List.mem_singleton_self _, hd.trans h0.symm, fun hp => absurd h0 hp⟩
  · intro h0 _ hnone
    obtain ⟨cached, hc⟩ := hw h0
    cases hnone.symm.trans hc
  · exact fun cached _ _ hc _ => ⟨_, List.mem_singleton_self _, hnum _ _ hc, fun _ => ⟨_, _, rfl⟩⟩
  · exact fun cached ts _ _ hc _ =>
      ⟨_, List.mem_singleton_self _, hnum _ _ hc, fun _ => ⟨_, _, rfl⟩⟩
  · exact fun _ hack _ => absurd (hn.symm.trans hack) Bool.noConfusion
  · exact fun _ _ _ hack _ _ _ => absurd (hn.symm.trans hack) Bool.noConfusion
  · exact fun _ hack _ _ => absurd (hn.symm.trans hack) Bool.noConfusion

/-- The server still has every number the receiver can ask for. -/
theorem Serving.answered (h : Serving a s) {q : AckPkt} (hq : q ∈ s.toSrv) (hn : q.isNack = true)
    (hle : s.rcv.cumSeq ≤ q.seq) (hgiven : q.seq < s.srv.cacheSeq) :
    ∃ i, (rtNetStep a s (.srvPass (some i) none 0 zeroPkt)).rcv = s.rcv ∧
      ∃ o ∈ (rtNetStep a s (.srvPass (some i) none 0 zeroPkt)).toRcv, o.pkt.seq = q.seq ∧
        (q.seq ≠ 0 → ∃ dst cached, o = .data dst cached) := by
  obtain ⟨i, hi⟩ := List.mem_iff_getElem?.mp hq
  have hstep : rtNetStep a s (.srvPass (some i) none 0 zeroPkt) =
      { s with toSrv := Channel.lose s.toSrv i }.srvDo ⟨.msg a q, none, 0, zeroPkt⟩ := by
    simp only [rtNetStep, hi]
  have hbehind := h.kept.behind
  obtain ⟨o, ho, hseq⟩ := handleClient_answers (d := { zeroPkt with senderTS := 0 }) hn
    (fun hacc => (h.kept.client.resolve_left hacc).symm) rfl
    (fun h0 => OrdMap.mem_keys.mp ((h.kept.range.keys q.seq).mpr ⟨by omega, hgiven⟩))
    h.requested.number
  refine ⟨i, hstep ▸ rfl, o, ?_, hseq⟩
  rw [hstep]
  refine List.mem_append_right _ ?_
  rwa [show rtSrvStep _ _ = _ from rtSrvStep_msg h.kept.range.running rfl]

theorem Serving.asked (h : Serving a s) (hsmall : s.srv.cacheSeq ≤ blockedSeq)
    {q : AckPkt} (hq : q ∈ s.toSrv) (hn : q.isNack = true) (hle : s.rcv.cumSeq ≤ q.seq)
    (hgiven : q.seq < s.srv.cacheSeq) (now : ℤ) : Advances a now s := by
  obtain ⟨i, hrcv, o, ho, hseq, -⟩ := h.answered hq hn hle hgiven
  have hsilent : (RtNetEvent.srvPass (some i) none 0 zeroPkt).Silent now := ⟨rfl, rfl⟩
  have hcount := cacheSeq_silent (a := a) (s := s) hsilent
  refine .after hsilent (by rw [hrcv]) ?_
  exact (h.silent hsilent).coming (hcount ▸ hsmall) ho (by rw [hrcv, hseq]; exact hle) now

theorem nack_rcvTimeout (hx : s.rcv.exited = false) (hgap : k ∉ s.rcv.window.keys)
    (hle : s.rcv.cumSeq ≤ k) (hnear : k < s.rcv.cumSeq + wSize) (clock : ℕ → ℤ) :
    ⟨k, true⟩ ∈ (rtNetStep a s (.rcvTimeout clock)).toSrv := by
  refine List.mem_append_right _ (mem_acksOf.mpr ?_)
  rw [rtRcvStep, if_neg (by simp [hx])]
  refine List.mem_append_left _ (List.mem_map.mpr ⟨k, List.mem_filter.mpr ⟨?_, ?_⟩, rfl⟩)
  · exact List.mem_range'_1.mpr ⟨hle, hnear⟩
  · rw [OrdMap.find?_eq_none.mpr hgap]
    rfl

theorem Serving.missing (h : Serving a s) (hsmall : s.srv.cacheSeq ≤ blockedSeq)
    (hgap : k ∉ s.rcv.window.keys) (hle : s.rcv.cumSeq ≤ k) (hnear : k < s.rcv.cumSeq + wSize)
    (hgiven : k < s.srv.cacheSeq) (now : ℤ) : Advances a now s := by
  have hsilent : (RtNetEvent.rcvTimeout fun _ => now).Silent now := fun _ => le_rfl
  have hnack := nack_rcvTimeout (a := a) (h.running hsmall) hgap hle hnear fun _ => now
  have hmono := cumSeq_le_rtNetStep (a := a) h.requested (.rcvTimeout fun _ => now)
  -- the pass itself may move on past `k`
  rcases hmono.lt_or_eq with hlt | heq
  · exact .one hsilent hlt
  · exact .after hsilent hmono
      ((h.silent hsilent).asked hsmall hnack rfl (heq ▸ hle) hgiven now)

theorem Serving.expiring (h : Serving a s) (hsmall : s.srv.cacheSeq ≤ blockedSeq)
    (hc : 1 ≤ s.rcv.cumSeq) {ts : ℤ} (hk : (ts, k) ∈ s.rcv.timetable.entries)
    (hle : s.rcv.cumSeq ≤ k) (now : ℤ) : Advances a now s := by
  obtain ⟨c, hnow, hlate⟩ := exists_late s.rcv.timetable s.rcv.delta now
  have hstep : (rtNetStep a s (.rcvTimeout fun _ => c)).rcv = (deliver s.rcv fun _ => c).1 := by
    show (rtRcvStep s.rcv _).1 = _
    rw [rtRcvStep, if_neg (by simp [h.running hsmall])]
    rfl
  refine .one (e := .rcvTimeout fun _ => c) (fun _ => hnow) ?_
  rw [hstep]
  exact hle.trans_lt (lt_cumSeq_deliver hc hk (hlate _ hk))

theorem Serving.phaseI (h : Serving a s) (h0 : s.rcv.cumSeq = 0) :
    0 ∉ s.rcv.window.keys ∧ 0 < s.rcv.cumSeq + wSize ∧ 0 < s.srv.cacheSeq := by
  refine ⟨?_, by rw [h0]; decide, Nat.zero_lt_of_lt h.kept.range.below⟩
  rw [(h.requested.stock.phaseI h0).2]
  exact List.not_mem_nil

def Roomy (s : RtNet) : Prop := ∀ k ∈ s.rcv.window.keys, k + 1 < s.rcv.cumSeq + wSize

/-- Whatever moves `cum_seq` leaves room behind what was held or in flight. -/
theorem Serving.roomy (h : Serving a s) (hlt : s.rcv.cumSeq < (rtNetStep a s e).rcv.cumSeq) :
    Roomy (rtNetStep a s e) := by
  revert hlt
  refine rtNetStep_cases (motive := fun t => s.rcv.cumSeq < t.rcv.cumSeq → Roomy t) ?_ ?_ ?_ ?_
  · exact fun _ _ _ _ _ _ _ _ hlt => absurd hlt (lt_irrefl _)
  · intro toRcv i clock o _ _ ho hlt k hk
    have hbound : k < s.rcv.cumSeq + wSize := by
      rcases mem_keys_rtRcvStep hk with hk | ⟨pkt, clock', heq, hb, rfl⟩
      · exact h.requested.held k hk
      · obtain ⟨rfl, -⟩ := RtRcvEvent.recv.inj heq
        have hm := List.mem_of_getElem? ho
        cases o with
        | reject dst q => exact absurd (h.requested.refused dst q hm) hb
        | reply dst q =>
          rw [h.zero _ hm rfl]
          exact Nat.add_pos_right _ (by decide)
        | data dst q => exact h.requested.data dst q hm
    have hlt' : s.rcv.cumSeq < (rtRcvStep s.rcv (.recv o.pkt clock)).1.cumSeq := hlt
    show k + 1 < (rtRcvStep s.rcv (.recv o.pkt clock)).1.cumSeq + wSize
    omega
  · intro clock _ hlt k hk
    have hlt' : s.rcv.cumSeq < (rtRcvStep s.rcv (.timeout clock)).1.cumSeq := hlt
    show k + 1 < (rtRcvStep s.rcv (.timeout clock)).1.cumSeq + wSize
    rcases mem_keys_rtRcvStep hk with hk | ⟨pkt, clock', heq, -⟩
    · have := h.requested.held k hk
      omega
    · cases heq
  · exact fun _ _ _ _ hlt => absurd hlt (lt_irrefl _)

theorem Advances.first (hadv : Advances a now s) (h : Serving a s) :
    ∃ later : List RtNetEvent, (∀ e ∈ later, e.Silent now) ∧
      let t := later.foldl (rtNetStep a) s
      s.rcv.cumSeq < t.rcv.cumSeq ∧ Serving a t ∧ Roomy t ∧ t.srv.cacheSeq = s.srv.cacheSeq := by
  obtain ⟨later, hsilent, hlt⟩ := hadv
  induction later generalizing s with
  | nil => exact absurd hlt (lt_irrefl _)
  | cons e later ih =>
    obtain ⟨he, hsilent⟩ := List.forall_mem_cons.mp hsilent
    have hserving := h.silent he
    have hcount := cacheSeq_silent (a := a) (s := s) he
    rcases (cumSeq_le_rtNetStep (a := a) h.requested e).lt_or_eq with hmove | heq
    · exact ⟨[e], by simpa using he, hmove, hserving, h.roomy hmove, hcount⟩
    · obtain ⟨more, hmore, hlt', hend, hroom, hcount'⟩ := ih hserving hsilent (heq ▸ hlt)
      exact ⟨e :: more, List.forall_mem_cons.mpr ⟨he, hmore⟩, heq ▸ hlt', hend, hroom,
        hcount'.trans hcount⟩

structure Halted (s t : RtNet) : Prop where
  stuck : Stuck t
  cumSeq : t.rcv.cumSeq = s.rcv.cumSeq
  cacheSeq : t.srv.cacheSeq = s.srv.cacheSeq
  keys : ∀ k, s.rcv.cumSeq ≤ k → (k ∈ t.rcv.window.keys ↔ k ∈ s.rcv.window.keys)

theorem Stuck.channels (h : Stuck s) {toRcv : List RtSrvEffect} {toSrv : List AckPkt}
    (hr : ∀ o ∈ toRcv, o ∈ s.toRcv) (hs : ∀ q ∈ toSrv, q ∈ s.toSrv) :
    Stuck { s with toRcv := toRcv, toSrv := toSrv } := by
  intro k hle hk
  cases hk with
  | expiring ts hk => exact h k hle (.expiring ts hk)
  | coming o ho hseq => exact h k hle (.coming o (hr o ho) hseq)
  | asked q hq hn hseq hgiven => exact h k hle (.asked q (hs q hq) hn hseq hgiven)
  | missing hgap hnear hgiven => exact h k hle (.missing hgap hnear hgiven)

theorem Halted.trans {u : RtNet} (h : Halted s t) (h' : Halted t u) : Halted s u where
  stuck := h'.stuck
  cumSeq := h'.cumSeq.trans h.cumSeq
  cacheSeq := h'.cacheSeq.trans h.cacheSeq
  keys := fun k hk => (h'.keys k (h.cumSeq.symm ▸ hk)).trans (h.keys k hk)

end Wan.Proj2
