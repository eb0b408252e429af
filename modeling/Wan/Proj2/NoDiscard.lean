import Wan.Proj2.RtNet

/-!
# Nothing is discarded too early

`Kept` is what every run keeps: the server caches every number the receiver may
still ask for, and every acknowledgment in flight is of a number that was sent
and lies behind the receiver's `cum_seq`. So the pruning loops, which do not
check for an empty map, always find the acknowledged number.
-/

namespace Wan.Proj2

open Posix Lib

variable {s : RtNet} {a : SockaddrIn} {e : RtNetEvent}

/-- The datagrams of the application fit a packet, and the replies carry the
number 0. -/
def Tame (a : SockaddrIn) (s : RtNet) (e : RtNetEvent) : Prop :=
  AppFits e ∧ RepliesZero (rtNetStep a s e)

def Known (s : RtSrvState) (q : NetPkt) : Prop := q.seq = 0 ∨ Sent s q.seq

def Backed (s : RtNet) (q : AckPkt) : Prop :=
  q.isNack = false → Sent s.srv q.seq ∧ q.seq < s.rcv.cumSeq

structure Kept (a : SockaddrIn) (s : RtNet) : Prop where
  cached : Cached s.apps s.srv
  range : Contiguous s.srv
  client : s.srv.currClientAddr.sAddr = 0 ∨ s.srv.currClientAddr = a
  stock : Stocked (Known s.srv) s.rcv
  flight : ∀ o ∈ s.toRcv, Known s.srv o.pkt
  acks : ∀ q ∈ s.toSrv, Backed s q
  behind : s.srv.cumSeq = 0 ∨ s.srv.cumSeq < s.rcv.cumSeq
  ahead : s.rcv.cumSeq ≤ s.srv.cacheSeq

theorem kept_init (a : SockaddrIn) (sinPort : UInt16) : Kept a (.init sinPort) where
  cached := cached_init sinPort
  range := contiguous_init sinPort
  client := .inl rfl
  stock := stocked_init
  flight := fun _ ho => absurd ho List.not_mem_nil
  acks := fun _ hq => absurd hq List.not_mem_nil
  behind := .inl rfl
  ahead := Nat.zero_le _

theorem Kept.channels (h : Kept a s) {toRcv : List RtSrvEffect} {toSrv : List AckPkt}
    (hr : ∀ o ∈ toRcv, o ∈ s.toRcv) (hs : ∀ q ∈ toSrv, q ∈ s.toSrv) :
    Kept a { s with toRcv := toRcv, toSrv := toSrv } where
  cached := h.cached
  range := h.range
  client := h.client
  stock := h.stock
  flight := fun o ho => h.flight o (hr o ho)
  acks := fun q hq => h.acks q (hs q hq)
  behind := h.behind
  ahead := h.ahead

theorem Kept.srvDo (h : Kept a s) {e : RtSrvEvent} (hfit : Fits e.app)
    (hzero : RepliesZero (s.srvDo e))
    (hc : e.client = .idle ∨ ∃ p, Backed s p ∧ e.client = .msg a p) : Kept a (s.srvDo e) := by
  have hmsg : ∀ src p, e.client = .msg src p → src = a ∧ Backed s p := by
    intro src p hsp
    rcases hc with hc | ⟨p', hp', hc⟩
    · rw [hc] at hsp
      cases hsp
    · rw [hc] at hsp
      obtain ⟨rfl, rfl⟩ := ClientInput.msg.inj hsp
      exact ⟨rfl, hp'⟩
  obtain ⟨hcached, -⟩ := h.cached.step hfit
  obtain ⟨hrange, hsent, hdata, hcum, hcache⟩ := h.range.step fun src p hsp hn _ =>
    ((hmsg src p hsp).2 hn).1
  obtain ⟨-, hreject, hcurr⟩ := rtSrvStep_phaseI s.srv e
  have hknown : ∀ q, Known s.srv q → Known (rtSrvStep s.srv e).1 q :=
    fun q hq => hq.imp_right (hsent q.seq)
  refine ⟨hcached, hrange, ?_, h.stock.mono hknown, ?_, ?_, ?_, h.ahead.trans hcache⟩
  · rcases hcurr with hcurr | ⟨src, p, hsp, hcurr⟩
    · show (rtSrvStep s.srv e).1.currClientAddr.sAddr = 0 ∨ _
      rw [hcurr]
      exact hcurr ▸ h.client
    · exact .inr (hcurr.trans (hmsg src p hsp).1)
  · intro o ho
    rcases List.mem_append.mp ho with ho | ho
    · exact hknown _ (h.flight o ho)
    cases o with
    | reject dst q =>
      -- there is nobody else to refuse
      obtain ⟨-, src, p, hsp, hacc, hne⟩ := hreject dst q ho
      rcases h.client with h0 | hcl
      · exact absurd h0 hacc
      · exact absurd ((hmsg src p hsp).1.trans hcl.symm) hne
    | reply dst q => exact .inl (hzero (.reply dst q) (List.mem_append_right _ ho) rfl)
    | data dst q =>
      obtain ⟨k, hk, hs⟩ := hdata dst q ho
      obtain ⟨rfl, -⟩ := h.cached.window k q hk
      exact .inr hs
  · intro q hq hn
    obtain ⟨h1, h2⟩ := h.acks q hq hn
    exact ⟨hsent q.seq h1, h2⟩
  · rcases hcum with hcum | ⟨src, p, hsp, hn, -, hcum⟩
    · show (rtSrvStep s.srv e).1.cumSeq = 0 ∨ (rtSrvStep s.srv e).1.cumSeq < _
      rw [hcum]
      exact h.behind
    · right
      show (rtSrvStep s.srv e).1.cumSeq < _
      rw [hcum]
      exact ((hmsg src p hsp).2 hn).2

theorem Kept.rcvDo (h : Kept a s) {e : RtRcvEvent}
    (he : ∀ pkt clock, e = .recv pkt clock → Known s.srv pkt) : Kept a (s.rcvDo e) := by
  obtain ⟨hstock, hmove, hacks, -⟩ := h.stock.step (e := e) fun pkt clock hp =>
    .inr (.inr (.inr (he pkt clock hp)))
  have hle := hmove.le
  have hahead := h.ahead
  have hbelow := h.range.below
  refine ⟨h.cached, h.range, h.client, hstock, h.flight, ?_, ?_, ?_⟩
  · intro q hq hn
    rcases List.mem_append.mp hq with hq | hq
    · obtain ⟨h1, h2⟩ := h.acks q hq hn
      exact ⟨h1, h2.trans_le hle⟩
    · obtain ⟨hpos, hlt, p, hp, h0 | hs⟩ := hacks q (mem_acksOf.mp hq) hn
      · omega
      · exact ⟨hp ▸ hs, hlt⟩
  · exact h.behind.imp_right fun hlt => hlt.trans_le hle
  · show (rtRcvStep s.rcv e).1.cumSeq ≤ s.srv.cacheSeq
    rcases hmove with hm | ⟨-, hm⟩ | ⟨h1, hlt, p, hm, h0 | hs⟩
    · omega
    · omega
    · omega
    · have := hs.2.1
      omega

theorem Kept.step (h : Kept a s) (he : Tame a s e) : Kept a (rtNetStep a s e) := by
  obtain ⟨hfit, hzero⟩ := he
  revert hzero
  refine rtNetStep_cases (motive := fun t => RepliesZero t → Kept a t) ?_ ?_ ?_ ?_
  · rintro toSrv client app now fresh hsub hc ⟨i, rfl⟩ hzero
    refine (h.channels (fun _ ho => ho) hsub).srvDo hfit hzero ?_
    rcases hc with hc | ⟨p, hp, hc⟩
    · exact .inl hc
    · exact .inr ⟨p, h.acks p hp, hc⟩
  · rintro toRcv i clock o hsub rfl ho -
    refine (h.channels hsub (fun _ hq => hq)).rcvDo fun pkt clock' heq => ?_
    obtain ⟨rfl, -⟩ := RtRcvEvent.recv.inj heq
    exact h.flight o (List.mem_of_getElem? ho)
  · rintro clock rfl -
    exact h.rcvDo fun pkt clock' heq => nomatch heq
  · exact fun toRcv toSrv hr hs _ => h.channels hr hs

/-- In every run of one server and one receiver: (a) the cache holds exactly the
numbers from `cum_seq` on, each with the datagram it was given to, and send times
only of these; (b) the server's `cum_seq` stays behind the receiver's, which
never passes the last number given, so that what can still be asked for is
cached; (c) an acknowledgment in flight finds its number in both maps, and the
pruning loops never run off their end. -/
theorem no_premature_discard (a : SockaddrIn) (sinPort : UInt16) (es : List RtNetEvent)
    (htame : Along (rtNetStep a) (Tame a) (.init sinPort) es) :
    let s := es.foldl (rtNetStep a) (.init sinPort)
    ((∀ k, k ∈ s.srv.window.keys ↔ max 1 s.srv.cumSeq ≤ k ∧ k < s.srv.cacheSeq) ∧
        (∀ k q, s.srv.window.find? k = some q → q.seq = k ∧ s.apps[k - 1]? = some q.payload) ∧
        ∀ k ∈ s.srv.timetable.keys, k ∈ s.srv.window.keys) ∧
      ((s.srv.cumSeq = 0 ∨ s.srv.cumSeq < s.rcv.cumSeq) ∧ s.rcv.cumSeq ≤ s.srv.cacheSeq ∧
        ∀ k, 1 ≤ k → s.rcv.cumSeq ≤ k → k < s.srv.cacheSeq → k ∈ s.srv.window.keys) ∧
      (∀ q ∈ s.toSrv, q.isNack = false → s.srv.cumSeq < q.seq →
        q.seq ∈ s.srv.timetable.keys ∧ q.seq ∈ s.srv.window.keys ∧
        pruneBelow q.seq s.srv.timetable ≠ none ∧ pruneBelow q.seq s.srv.window ≠ none) ∧
      s.srv.faulted = false := by
  intro s
  have h : Kept a s := htame.inv (kept_init a sinPort) fun _ _ h he => h.step he
  have hbehind := h.behind
  refine ⟨⟨h.range.keys, fun k q hq => ?_, h.range.sent⟩, ⟨hbehind, h.ahead, fun k h1 h2 h3 => ?_⟩,
    fun q hq hn hlt => ?_, h.range.running⟩
  · obtain ⟨rfl, hnum⟩ := h.cached.window k q hq
    exact ⟨rfl, hnum.2⟩
  · exact (h.range.keys k).mpr ⟨by omega, h3⟩
  · obtain ⟨ht, hw⟩ := h.range.of_sent (h.acks q hq hn).1 hlt.le
    exact ⟨ht, hw, pruneBelow_ne_none ht le_rfl, pruneBelow_ne_none hw le_rfl⟩

/-- A connection, two datagrams, both requested, and the first one received: its
acknowledgment is in flight. -/
theorem no_premature_discard_acked :
    let es : List RtNetEvent := [.rcvTimeout fun _ => 0, .srvPass (some 0) none 0 zeroPkt,
      .deliverRcv 0 fun _ => 0, .srvPass none (some [7]) 0 zeroPkt,
      .srvPass none (some [8]) 0 zeroPkt, .srvPass (some 0) none 0 zeroPkt,
      .srvPass (some 0) none 0 zeroPkt, .deliverRcv 0 fun _ => 0]
    let s := es.foldl (rtNetStep ⟨1, 5⟩) (.init 0)
    ⟨1, false⟩ ∈ s.toSrv ∧ s.srv.timetable.keys = [1, 2] ∧ s.rcv.cumSeq = 2 ∧
      ∀ k, k ∈ s.srv.window.keys ↔ max 1 s.srv.cumSeq ≤ k ∧ k < s.srv.cacheSeq := by
  intro es
  have hfit : ∀ e ∈ es, AppFits e := by
    simp [es, AppFits, Fits]
  have hzero : Along (rtNetStep ⟨1, 5⟩) (fun s e => RepliesZero (rtNetStep ⟨1, 5⟩ s e)) (.init 0)
      es := by decide +kernel
  obtain ⟨⟨hkeys, -⟩, -⟩ := no_premature_discard ⟨1, 5⟩ 0 es ((along_of_forall hfit).and hzero)
  dsimp only
  exact ⟨by decide +kernel, by decide +kernel, by decide +kernel, hkeys⟩

end Wan.Proj2
