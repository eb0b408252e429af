import Wan.Proj1.RcvCore

/-!
# One sender at a time

While a sender is at the head of the queue, the file and the acknowledgments
should be its own. The first datagram of a sender that is not queued yet breaks
this: it joins the queue and then goes on to HANDLE RECEIVE as if it had come
from the head. `isolated_iff` says exactly when such a datagram does no harm,
and `sender_isolation` that a run without the harmful ones shows the head
sender what it would see alone.
-/

namespace Wan.Proj1

open Posix Lib

variable {c d : RcvCore} {s : RcvState} {a src : SockaddrIn} {pkt : NetPkt} {junk : AckPkt}

/-- What sender `a` sees while it is served: its acknowledgments and everything
done to the open file. -/
def RcvEffect.seenBy (a : SockaddrIn) : RcvEffect → Option RcvEffect
  | .sendto dst p => if dst = a then some (.sendto dst p) else none
  | e => some e

def Isolated (a : SockaddrIn) (s : RcvState) (e : RcvEvent) : Prop :=
  (rcvStep s e).1.cumSeq = s.cumSeq ∧ (rcvStep s e).1.done = s.done ∧
    (rcvStep s e).1.window = s.window ∧ (rcvStep s e).1.pd = s.pd ∧
    (rcvStep s e).2.filterMap (·.seenBy a) = []

/-- A datagram of another sender that cannot reach the transfer at the head: its
sender waits in the queue already, or it is a future packet that finds the
buffer taken. -/
def Quiet (c : RcvCore) (src : SockaddrIn) (pkt : NetPkt) : Prop :=
  src ∈ c.senderQ ∨
    (c.rcvStart = true ∧ c.cumSeq + 1 < pkt.seq ∧ (c.window ≠ [] ∨ pkt.wSize ≤ 0))

def RcvEvent.Foreign (a : SockaddrIn) : RcvEvent → Prop
  | .datagram src _ _ => src ≠ a
  | _ => False

instance (a : SockaddrIn) : DecidablePred (RcvEvent.Foreign a)
  | .datagram src _ _ => inferInstanceAs (Decidable (src ≠ a))
  | .empty => .isFalse id
  | .timeout _ => .isFalse id

def QuietStep (a : SockaddrIn) (s : RcvState) : RcvEvent → Prop
  | .datagram src pkt _ => src ≠ a → Quiet s.core src pkt
  | _ => True

-- ---------------------------------------------------------------------------
-- One datagram
-- ---------------------------------------------------------------------------

theorem coreReceive_senderQ (c : RcvCore) (pkt : NetPkt) (junk : AckPkt) (q : List SockaddrIn)
    (fromAddr : SockaddrIn) :
    coreReceive { c with senderQ := q } pkt fromAddr junk =
      ({ (coreReceive c pkt fromAddr junk).1 with senderQ := q },
        (coreReceive c pkt fromAddr junk).2) := by
  refine coreReceive_cases (motive := fun r =>
    coreReceive { c with senderQ := q } pkt fromAddr junk = ({ r.1 with senderQ := q }, r.2))
    ?_ ?_ ?_ ?_ ?_ ?_
  · exact fun h => coreReceive_old h
  · exact fun h hp => coreReceive_closed h hp
  · exact fun f h hp he => coreReceive_next h hp he
  · exact fun f h hp he => coreReceive_last h hp he
  · exact fun h hw hpos => coreReceive_buffer h hw hpos
  · exact fun h hw => coreReceive_drop h hw

def Untouched (a : SockaddrIn) (c : RcvCore) (r : RcvCore × List RcvEffect) : Prop :=
  r.1.cumSeq = c.cumSeq ∧ r.1.done = c.done ∧ r.1.window = c.window ∧ r.1.pd = c.pd ∧
    r.2.filterMap (·.seenBy a) = []

theorem isolated_iff_untouched (hok : s.core.Ok) (e : RcvEvent) :
    Isolated a s e ↔ Untouched a s.core (coreStep s.core e) := by
  rw [← rcvStep_core hok e]
  rfl

theorem coreReceive_untouched_iff :
    Untouched a c (coreReceive c pkt a junk) ↔
      c.cumSeq + 1 < pkt.seq ∧ (c.window ≠ [] ∨ pkt.wSize ≤ 0) := by
  have hmoved (h : pkt.seq = c.cumSeq + 1) {r : RcvCore × List RcvEffect}
      (hr : r.1.cumSeq = pkt.seq) :
      Untouched a c r ↔ c.cumSeq + 1 < pkt.seq ∧ (c.window ≠ [] ∨ pkt.wSize ≤ 0) :=
    iff_of_false (fun hu => by have := hu.1; omega) (by omega)
  refine coreReceive_cases (motive := fun r => Untouched a c r ↔ _) ?_ ?_ ?_ ?_ ?_ ?_
  · -- an old packet acknowledges to the head
    exact fun h => iff_of_false (fun hu => by simpa [RcvEffect.seenBy] using hu.2.2.2.2) (by omega)
  · exact fun h _ => hmoved h rfl
  · exact fun f h _ _ => hmoved h rfl
  · exact fun f h _ _ => hmoved h rfl
  · refine fun h hw hpos => iff_of_false (fun hu => ?_) (fun hq => ?_)
    · simpa [hw] using hu.2.2.1
    · rcases hq.2 with hq | hq
      · exact hq hw
      · omega
  · exact fun h hw => iff_of_true ⟨rfl, rfl, rfl, rfl, rfl⟩ ⟨h, hw⟩

theorem coreReceive_rcvStart {fromAddr : SockaddrIn} :
    (coreReceive c pkt fromAddr junk).1.rcvStart = c.rcvStart := by
  apply coreReceive_cases (motive := fun r => r.1.rcvStart = c.rcvStart) <;> intros <;> rfl

theorem untouched_senderQ {q : List SockaddrIn} {r : RcvCore × List RcvEffect} :
    Untouched a { c with senderQ := q } r ↔ Untouched a c r := Iff.rfl

theorem coreRecv_untouched_iff (hhead : c.senderQ.head? = some a) (hne : src ≠ a) :
    Untouched a c (coreRecv c src pkt junk) ↔ Quiet c src pkt := by
  unfold coreRecv
  have hother : c.senderQ.head? ≠ some src := by
    rw [hhead]
    exact fun h => hne (Option.some.inj h).symm
  by_cases hq : src ∈ c.senderQ
  · rw [if_pos ⟨hq, hother⟩]
    exact iff_of_true ⟨rfl, rfl, rfl, rfl, by simp [RcvEffect.seenBy, hne]⟩ (.inl hq)
  rw [if_neg fun h => hq h.1]
  have hfrom : (joined c.senderQ src).headD src = a := by
    rw [List.headD_eq_head?_getD, joined_head? hhead]
    rfl
  cases hs : c.rcvStart with
  | true =>
    simp only [↓reduceIte, hfrom]
    rw [← untouched_senderQ (q := joined c.senderQ src), ← hs, coreReceive_untouched_iff]
    simp [Quiet, hq, hs]
  | false =>
    -- the newcomer opens the file of its own name
    refine iff_of_false (fun h => ?_) (by simp [Quiet, hq, hs])
    simpa [RcvEffect.seenBy] using h.2.2.2.2

theorem isolated_iff (hok : s.core.Ok) (hhead : s.senderQ.head? = some a) (hne : src ≠ a) :
    Isolated a s (.datagram src pkt junk) ↔ Quiet s.core src pkt := by
  rw [isolated_iff_untouched hok]
  exact coreRecv_untouched_iff hhead hne

-- ---------------------------------------------------------------------------
-- Two runs
-- ---------------------------------------------------------------------------

/-- Two receivers that serve `a` in the same way; only the senders waiting
behind it may differ. -/
structure Agree (a : SockaddrIn) (c d : RcvCore) : Prop where
  left : c.Ok
  right : d.Ok
  same : d = { c with senderQ := d.senderQ }
  head : c.senderQ.head? = some a → d.senderQ.head? = some a

def RcvEvent.alone (a : SockaddrIn) (e : RcvEvent) : Option RcvEvent :=
  if e.Foreign a then none else some e

theorem coreRecv_head (hhead : c.senderQ.head? = some a) : coreRecv c a pkt junk =
    if c.rcvStart then coreReceive c pkt a junk
    else
      let r := coreReceive { c with pd := some pkt.name, rcvStart := true } pkt a junk
      (r.1, .openFile pkt.name :: r.2) := by
  have hmem : a ∈ c.senderQ := List.mem_of_mem_head? hhead
  have hadm : joined c.senderQ a = c.senderQ := if_pos hmem
  simp [coreRecv, hhead, hadm]

theorem agree_own (h : Agree a c d) (hc : c.senderQ.head? = some a) (pkt : NetPkt)
    (junk : AckPkt) :
    Agree a (coreRecv c a pkt junk).1 (coreRecv d a pkt junk).1 ∧
      (coreRecv c a pkt junk).2 = (coreRecv d a pkt junk).2 := by
  have hd := h.head hc
  have hl := coreStep_ok h.left (.datagram a pkt junk)
  have hr := coreStep_ok h.right (.datagram a pkt junk)
  simp only [coreStep] at hl hr
  generalize hq : d.senderQ = q at hd
  have hsame : d = { c with senderQ := q } := hq ▸ h.same
  subst hsame
  rw [coreRecv_head hc] at hl ⊢
  rw [coreRecv_head hd] at hr ⊢
  cases hs : c.rcvStart with
  | true =>
    simp only [hs, ↓reduceIte] at hl hr ⊢
    rw [← hs] at hr ⊢
    rw [coreReceive_senderQ c pkt junk q a] at hr ⊢
    exact ⟨⟨hl, hr, rfl, fun _ => hd⟩, rfl⟩
  | false =>
    simp only [hs, Bool.false_eq_true, ↓reduceIte] at hl hr ⊢
    have hsq := coreReceive_senderQ { c with pd := some pkt.name, rcvStart := true } pkt
      junk q a
    simp only at hsq
    rw [hsq] at hr ⊢
    exact ⟨⟨hl, hr, rfl, fun _ => hd⟩, rfl⟩

theorem agree_foreign (h : Agree a c d) (hc : c.senderQ.head? = some a) (hne : src ≠ a)
    (hq : Quiet c src pkt) : Agree a (coreRecv c src pkt junk).1 d ∧
      (coreRecv c src pkt junk).2.filterMap (·.seenBy a) = [] := by
  have hun : Untouched a c (coreRecv c src pkt junk) := (coreRecv_untouched_iff hc hne).mpr hq
  obtain ⟨h1, h2, h3, h4, h5⟩ := hun
  refine ⟨⟨coreStep_ok h.left (.datagram src pkt junk), h.right, ?_, fun _ => h.head hc⟩, h5⟩
  have hs : (coreRecv c src pkt junk).1.rcvStart = c.rcvStart := by
    unfold coreRecv
    split_ifs with hblk hst
    · rfl
    · exact coreReceive_rcvStart
    · rcases hq with hq | hq
      · exact absurd ⟨hq, by rw [hc]; exact fun he => hne (Option.some.inj he).symm⟩ hblk
      · exact absurd hq.1 hst
  rw [h.same]
  simp [h1, h2, h3, h4, hs]

theorem agree_timeout (h : Agree a c d) (hc : c.senderQ.head? = some a) :
    Agree a (coreTimeout c junk).1 (coreTimeout d junk).1 ∧
      (coreTimeout c junk).2.filterMap (·.seenBy a) =
        (coreTimeout d junk).2.filterMap (·.seenBy a) := by
  have hd := h.head hc
  have hl := coreStep_ok h.left (.timeout junk)
  have hr := coreStep_ok h.right (.timeout junk)
  simp only [coreStep] at hl hr
  have hnc := h.left.nodup
  have hnd := h.right.nodup
  generalize hq : d.senderQ = q at hd hnd
  have hsame : d = { c with senderQ := q } := hq ▸ h.same
  subst hsame
  cases hdone : c.done with
  | true =>
    -- `a` leaves the head, and whoever is called next is not `a`
    have hgone : ∀ l : List SockaddrIn, l.Nodup → l.head? = some a → l.tail.head? ≠ some a := by
      intro l hn hh ht
      obtain ⟨x, xs, rfl⟩ := List.exists_cons_of_ne_nil (l := l) (by rintro rfl; simp at hh)
      obtain rfl : x = a := by simpa using hh
      exact (List.nodup_cons.mp hn).1 (List.mem_of_mem_head? ht)
    have hunseen : ∀ l : List SockaddrIn, l.head? ≠ some a → ∀ p : AckPkt,
        (l.head?.toList.map (RcvEffect.sendto · p)).filterMap (·.seenBy a) = [] := by
      intro l hl p
      cases hx : l.head? with
      | none => rfl
      | some x =>
        have hxa : x ≠ a := by
          rintro rfl
          exact hl hx
        simp [RcvEffect.seenBy, hxa]
    simp only [coreTimeout, hdone, ↓reduceIte] at hl hr ⊢
    refine ⟨⟨hl, hr, rfl, fun hh => absurd hh (hgone _ hnc hc)⟩, ?_⟩
    rw [hunseen _ (hgone _ hnc hc), hunseen _ (hgone _ hnd hd)]
  | false =>
    simp only [coreTimeout, hdone, Bool.false_eq_true, ↓reduceIte] at hl hr ⊢
    exact ⟨⟨hl, hr, by simp [hdone], fun _ => hd⟩, by simp [hc, hd]⟩

theorem agree_step {s t : RcvState} (e : RcvEvent) (h : Agree a s.core t.core)
    (hp : s.senderQ.head? = some a ∧ QuietStep a s e) :
    Matched rcvStep (fun s t => Agree a s.core t.core) (·.seenBy a) s t e (e.alone a) := by
  unfold RcvEvent.alone
  split_ifs with hf
  · cases e with
    | datagram src pkt junk =>
      simp only [Matched, next_core h.left, out_core h.left]
      exact agree_foreign h hp.1 hf (hp.2 hf)
    | empty => exact hf.elim
    | timeout junk => exact hf.elim
  · simp only [Matched, next_core h.left, out_core h.left, next_core h.right, out_core h.right]
    cases e with
    | datagram src pkt junk =>
      obtain rfl : src = a := not_not.mp hf
      obtain ⟨h1, h2⟩ := agree_own h hp.1 pkt junk
      exact ⟨h1, congrArg _ h2⟩
    | empty => exact ⟨h, rfl⟩
    | timeout junk => exact agree_timeout h hp.1

/-- In every reachable state with `a` at the head, exactly the quiet foreign
datagrams leave its transfer alone; and while only those arrive, `a` sees what
it would see without the other senders. -/
theorem sender_isolation (buf : NetPkt) (past : List RcvEvent) (a : SockaddrIn)
    (hhead : (past.foldl (next rcvStep) (.init buf)).senderQ.head? = some a) :
    let s := past.foldl (next rcvStep) (.init buf)
    (∀ src pkt junk, src ≠ a →
      (Isolated a s (.datagram src pkt junk) ↔ Quiet s.core src pkt)) ∧
    ∀ es : List RcvEvent, Along (next rcvStep) (fun t _ => t.senderQ.head? = some a) s es →
      Along (next rcvStep) (QuietStep a) s es →
      Along (next rcvStep) (fun t e => e.Foreign a → Isolated a t e) s es ∧
      let alone := es.filterMap (·.alone a)
      let together := es.foldl (next rcvStep) s
      let apart := alone.foldl (next rcvStep) s
      together.cumSeq = apart.cumSeq ∧ together.done = apart.done ∧
        together.window = apart.window ∧ together.pd = apart.pd ∧
        (trace rcvStep s es).filterMap (·.seenBy a) =
          (trace rcvStep s alone).filterMap (·.seenBy a) := by
  intro s
  have hok : s.core.Ok := (rcv_run_core (RcvCore.ok_init buf) past).2.2
  refine ⟨fun src pkt junk hne => isolated_iff hok hhead hne, fun es hh hquiet => ⟨?_, ?_⟩⟩
  · refine (hh.and hquiet).strengthen (I := fun t => t.core.Ok) hok
      (fun t e ht _ => next_ok ht e) ?_
    rintro t e ht ⟨hhd, hqt⟩ hf
    cases e with
    | datagram src pkt junk => exact (isolated_iff ht hhd hf).mpr (hqt hf)
    | empty => exact hf.elim
    | timeout junk => exact hf.elim
  · have hagree : Agree a s.core s.core := ⟨hok, hok, rfl, id⟩
    obtain ⟨hend, hseen⟩ := unwind (fun t t' e hr hp => agree_step e hr hp) hagree (hh.and hquiet)
    have hsame := hend.same
    refine ⟨?_, ?_, ?_, ?_, hseen⟩
    · exact (congrArg RcvCore.cumSeq hsame).symm
    · exact (congrArg RcvCore.done hsame).symm
    · exact (congrArg RcvCore.window hsame).symm
    · exact (congrArg RcvCore.pd hsame).symm

/-- Sender 2 is waiting in the queue: its packets change nothing for sender 1. -/
theorem sender_isolation_waiting :
    let s := ([.datagram ⟨1, 5⟩ (fullPkt [97] 97 1 false) ⟨0, 0, false⟩,
      .datagram ⟨2, 5⟩ (fullPkt [98] 98 1 false) ⟨0, 0, false⟩] : List RcvEvent).foldl
        (next rcvStep) (.init (fullPkt [] 0 0 false))
    let e : RcvEvent := .datagram ⟨2, 5⟩ (fullPkt [98] 98 2 false) ⟨0, 0, false⟩
    Isolated ⟨1, 5⟩ s e ∧ (trace rcvStep s [e]).filterMap (·.seenBy ⟨1, 5⟩) = [] := by
  intro s e
  obtain ⟨hone, hrun⟩ := sender_isolation (fullPkt [] 0 0 false)
    [.datagram ⟨1, 5⟩ (fullPkt [97] 97 1 false) ⟨0, 0, false⟩,
      .datagram ⟨2, 5⟩ (fullPkt [98] 98 1 false) ⟨0, 0, false⟩] ⟨1, 5⟩ (by decide)
  have hquiet : Quiet s.core ⟨2, 5⟩ (fullPkt [98] 98 2 false) := .inl (by decide)
  obtain ⟨-, -, -, -, -, hseen⟩ := hrun [e] ⟨by decide, trivial⟩ ⟨fun _ => hquiet, trivial⟩
  exact ⟨(hone _ _ _ (by decide)).mpr hquiet, hseen⟩

/-- The first datagram of sender 2, its second packet, is taken for the second
packet of sender 1: it is written to the file of sender 1 and acknowledged. -/
theorem newcomer_not_isolated :
    let s := next rcvStep (.init (fullPkt [] 0 0 false))
      (.datagram ⟨1, 5⟩ (fullPkt [97] 97 1 false) ⟨0, 0, false⟩)
    s.senderQ.head? = some ⟨1, 5⟩ ∧
      ¬ Isolated ⟨1, 5⟩ s (.datagram ⟨2, 5⟩ (fullPkt [98] 98 2 false) ⟨0, 0, false⟩) ∧
      .write [97] (fullPkt [98] 98 2 false).payload ∈
        (rcvStep s (.datagram ⟨2, 5⟩ (fullPkt [98] 98 2 false) ⟨0, 0, false⟩)).2 := by
  refine ⟨by decide, fun h => ?_, ?_⟩
  · exact absurd h.1 (by decide)
  · exact .tail _ (.head _)

end Wan.Proj1
