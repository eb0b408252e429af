import Wan.Proj1.Senders
import Wan.Proj1.Isolation
import Wan.Proj1.Durability

/-!
# The senders take turns

`rcv` copies one file at a time: a transfer belongs to the sender at the head of the
queue, and the timeout that ends it calls the next one. What is true of one sender
alone then holds of each of them in turn, as long as two kinds of datagrams stay out:
the first one of a newcomer, unless the receiver happens to drop it, and the late ones
of a sender that was dropped from the queue. `Copied` says what the receiver did to
one file, `Turns` what all files and all windows agree on.
-/

namespace Wan.Proj1

open Posix Lib

variable {ι : Type*}

structure LoggedNets (ι : Type*) where
  nets : Nets ι
  log : List RcvEffect

def LoggedNets.init (S : Senders ι) (buf : NetPkt) : LoggedNets ι := ⟨.init S buf, []⟩

def Nets.effects (S : Senders ι) (s : Nets ι) : NetsEvent ι → List RcvEffect
  | .rcvTimeout junk => (rcvStep s.rcv (.timeout junk)).2
  | .deliverRcv i k junk =>
    match (s.sender i).toRcv[k]? with
    | none => []
    | some p => (rcvStep s.rcv (.datagram (S.env i).addr p junk)).2
  | _ => []

def logStep [DecidableEq ι] (S : Senders ι) (t : LoggedNets ι) (e : NetsEvent ι) : LoggedNets ι :=
  ⟨netsStep S t.nets e, t.log ++ t.nets.effects S e⟩

/-- A datagram that is handled while another sender is at the head is a quiet one, and
a sender whose file was closed is heard only while it is still in the queue. -/
def InTurn (S : Senders ι) (t : LoggedNets ι) : NetsEvent ι → Prop
  | .deliverRcv i k _ => ∀ p ∈ (t.nets.sender i).toRcv[k]?,
      (∀ a ∈ t.nets.rcv.senderQ.head?, a ≠ (S.env i).addr →
        Quiet t.nets.rcv.core (S.env i).addr p) ∧
      (.close (S.env i).dFname.1 ∈ t.log → (S.env i).addr ∈ t.nets.rcv.senderQ)
  | _ => True

instance (c : RcvCore) (src : SockaddrIn) (pkt : NetPkt) : Decidable (Quiet c src pkt) :=
  inferInstanceAs (Decidable (src ∈ c.senderQ ∨
    (c.rcvStart = true ∧ c.cumSeq + 1 < pkt.seq ∧ (c.window ≠ [] ∨ pkt.wSize ≤ 0))))

instance (S : Senders ι) (t : LoggedNets ι) : DecidablePred (InTurn S t)
  | .deliverRcv i k _ => inferInstanceAs (Decidable (∀ p ∈ (t.nets.sender i).toRcv[k]?,
      (∀ a ∈ t.nets.rcv.senderQ.head?, a ≠ (S.env i).addr →
        Quiet t.nets.rcv.core (S.env i).addr p) ∧
      (.close (S.env i).dFname.1 ∈ t.log → (S.env i).addr ∈ t.nets.rcv.senderQ)))
  | .ncpTimeout _ => .isTrue trivial
  | .rcvTimeout _ => .isTrue trivial
  | .deliverNcp .. => .isTrue trivial
  | .loseRcv .. => .isTrue trivial
  | .loseNcp .. => .isTrue trivial
  | .duplicateRcv .. => .isTrue trivial
  | .duplicateNcp .. => .isTrue trivial

-- ---------------------------------------------------------------------------
-- One file
-- ---------------------------------------------------------------------------

variable {f g : Fname} {src : Bytes} {log out : List RcvEffect} {k j : ℕ} {P Q : Prop}

/-- What was done to the file `f` of a transfer with chunks `1..k` received, where `P`
says that the transfer has started. -/
structure Copied (f : Fname) (src : Bytes) (log : List RcvEffect) (k : ℕ) (P : Prop) : Prop where
  opened : .openFile f ∈ log ↔ P
  closed : .close f ∈ log ↔ k = lastChunk src
  once : log.count (.openFile f) ≤ 1
  file : P → ∀ disk, fileAfter f disk log = some (chunks src k)
  fresh : ¬ P → ∀ e ∈ log, e.file? ≠ some f

theorem lastChunk_ne_zero (src : Bytes) : 0 ≠ lastChunk src :=
  (Nat.lt_of_lt_of_le zero_lt_one one_le_blockCount).ne

theorem copied_nil (hP : ¬ P) : Copied f src [] 0 P where
  opened := iff_of_false List.not_mem_nil hP
  closed := iff_of_false List.not_mem_nil (lastChunk_ne_zero src)
  once := Nat.zero_le _
  file := fun h => absurd h hP
  fresh := fun _ _ he => absurd he List.not_mem_nil

theorem Copied.congr (h : Copied f src log k P) (hPQ : P ↔ Q) : Copied f src log k Q where
  opened := h.opened.trans hPQ
  closed := h.closed
  once := h.once
  file := fun hQ => h.file (hPQ.mpr hQ)
  fresh := fun hQ => h.fresh fun hP => hQ (hPQ.mp hP)

theorem not_mem_of_file {e : RcvEffect} (hout : ∀ e ∈ out, e.file? ≠ some f)
    (he : e.file? = some f) : e ∉ out := fun hm => hout e hm he

theorem fileAfter_other (hout : ∀ e ∈ out, e.file? ≠ some f) (disk : Option Bytes) :
    fileAfter f disk out = disk := by
  induction out generalizing disk with
  | nil => rfl
  | cons e out ih =>
    have hne := hout e List.mem_cons_self
    have hrest := ih fun e' he' => hout e' (List.mem_cons_of_mem _ he')
    rw [← List.singleton_append, fileAfter_append, hrest]
    cases e with
    | sendto dst q => rfl
    | openFile g => exact if_neg fun heq => hne (congrArg some heq)
    | write g bytes => exact if_neg fun heq => hne (congrArg some heq)
    | close g => rfl

theorem Copied.append_other (h : Copied f src log k P) (hout : ∀ e ∈ out, e.file? ≠ some f) :
    Copied f src (log ++ out) k P where
  opened := by
    rw [List.mem_append, or_iff_left (not_mem_of_file hout rfl)]
    exact h.opened
  closed := by
    rw [List.mem_append, or_iff_left (not_mem_of_file hout rfl)]
    exact h.closed
  once := by
    rw [List.count_append, List.count_eq_zero_of_not_mem (not_mem_of_file hout rfl)]
    exact h.once
  file := by
    intro hP disk
    rw [fileAfter_append, fileAfter_other hout, h.file hP disk]
  fresh := by
    intro hP e he
    rcases List.mem_append.mp he with he | he
    · exact h.fresh hP e he
    · exact hout e he

variable {c : RcvCore} {a b : SockaddrIn} {p : NetPkt} {junk : AckPkt}

theorem Receiving.close_iff (h : Receiving a src f c k) (hp : Carries src f j p) :
    .close f ∈ (coreReceive c p b junk).2 ↔ k ≠ lastChunk src ∧ advance k j = lastChunk src := by
  have hseq := hp.seq
  have hcum := h.cumSeq
  have hsame (hne : j ≠ k + 1) : ¬ (k ≠ lastChunk src ∧ advance k j = lastChunk src) := by
    rw [advance, if_neg hne]
    exact fun h => h.1 h.2
  have hmove (he : j = k + 1) : advance k j = k + 1 := if_pos he
  refine coreReceive_cases (motive := fun r => .close f ∈ r.2 ↔ _) ?_ ?_ ?_ ?_ ?_ ?_
  · intro hold
    exact iff_of_false (by simp) (hsame (by omega))
  · intro hnext hpd
    refine iff_of_false (by simp) fun hk => ?_
    have hle := h.le
    have hopen := (h.open_iff (g := f)).mpr ⟨lt_of_le_of_ne hle hk.1, rfl⟩
    rw [hpd] at hopen
    cases hopen
  · intro g hnext hpd hend
    have hj : j = k + 1 := by omega
    refine iff_of_false (by simp) fun hk => ?_
    have hlast : j = lastChunk src := by rw [hj, ← hk.2, hmove hj]
    rw [hp.isEnd, decide_eq_true hlast] at hend
    cases hend
  · intro g hnext hpd hend
    obtain ⟨hk, rfl⟩ := h.open_iff.mp hpd
    have hj : j = k + 1 := by omega
    rw [hp.isEnd] at hend
    refine iff_of_true (by simp) ⟨hk.ne, ?_⟩
    rw [hmove hj, ← hj]
    exact of_decide_eq_true hend
  · intro hfut _ _
    refine iff_of_false (fun hm => ?_) (hsame (by omega))
    exact (isSend_nacks _ hm).elim
  · intro hfut _
    exact iff_of_false (by simp) (hsame (by omega))

theorem Copied.recv (h : Copied f src log k (c.rcvStart = true)) (ht : InTransfer a src f c k)
    (hp : Carries src f j p) (junk : AckPkt) :
    Copied f src (log ++ (coreRecv c a p junk).2) (advance k j) True ∧
      ∀ e ∈ (coreRecv c a p junk).2, e.file? = none ∨ e.file? = some f := by
  obtain ⟨d, hd, -, heq⟩ := ht.coreRecv_eq hp junk
  have hfiles : ∀ e ∈ (coreReceive d p a junk).2,
      (∀ g, e ≠ .openFile g) ∧ (e.file? = none ∨ e.file? = d.pd) := fun e => coreReceive_file
  have hnot : ∀ g, .openFile g ∉ (coreReceive d p a junk).2 := fun g hg => (hfiles _ hg).1 g rfl
  have hadd := chunks_advance src k j
  rw [← (hd.receive hp a junk).2] at hadd
  have hclose : .close f ∈ (coreReceive d p a junk).2 ↔ _ := hd.close_iff hp
  rw [heq]
  refine ⟨⟨?_, ?_, ?_, ?_, fun hP => absurd trivial hP⟩, ?_⟩
  · refine iff_of_true (List.mem_append.mpr ?_) trivial
    cases hs : c.rcvStart with
    | true => exact .inl (h.opened.mpr hs)
    | false => exact .inr (by simp)
  · rw [List.mem_append, List.mem_append, h.closed, hclose]
    have hopen : .close f ∉ (if c.rcvStart then [] else [RcvEffect.openFile f]) := by
      split_ifs <;> simp
    rw [or_iff_right hopen]
    have hle := hd.le
    have hmono := le_advance k j
    by_cases hk : k = lastChunk src
    · refine iff_of_true (.inl hk) ?_
      have hj := hp.le
      rw [advance, if_neg (by omega)]
      exact hk
    · simp [hk]
  · rw [List.count_append, List.count_append, List.count_eq_zero_of_not_mem (hnot f)]
    cases hs : c.rcvStart with
    | true => simpa [hs] using h.once
    | false =>
      have hno : .openFile f ∉ log := fun hm => by simpa [hs] using h.opened.mp hm
      simp [List.count_eq_zero_of_not_mem hno]
  · intro _ disk
    rw [fileAfter_append, ← hadd]
    cases hs : c.rcvStart with
    | true => simp [fileAfter_of_not_open hnot, h.file hs disk]
    | false =>
      obtain rfl : k = 0 := ht.eq_zero hs
      simp [fileAfter_openFile, fileAfter_of_not_open hnot, firstBlocks]
  · intro e he
    rcases List.mem_append.mp he with he | he
    · split_ifs at he
      · simp at he
      · obtain rfl := List.mem_singleton.mp he
        exact .inr rfl
    · rcases (hfiles e he).2 with hf | hf
      · exact .inl hf
      · rw [hf, hd.pd]
        split_ifs
        · exact .inl rfl
        · exact .inr rfl

-- ---------------------------------------------------------------------------
-- One sender
-- ---------------------------------------------------------------------------

variable {env : NcpEnv} {s : Sender}

structure Sender.Agrees (env : NcpEnv) (s : Sender) (k : ℕ) : Prop where
  sending : ∃ b n, Sending env s.ncp b n ∧ b ≤ k + 1 ∧ k < n ∧
    ∀ p ∈ s.toRcv, ∃ j, 1 ≤ j ∧ j < n ∧ p = ncpPkt env j
  told : ∀ q ∈ s.toNcp, q.isNack = false → q.cumSeq ≤ k
  returned : s.ncp.status = .returned → k = lastChunk env.src

theorem Sender.agrees_init (hname : env.NameFits) :
    Sender.Agrees env ⟨.init env, [], [], []⟩ 0 where
  sending := ⟨1, 1, sending_init hname, le_rfl, Nat.zero_lt_one, by simp⟩
  told := by simp
  returned := by simp [NcpState.init]

theorem Sender.Agrees.channels (h : s.Agrees env k) (toRcv : List NetPkt) (toNcp : List AckPkt)
    (hr : ∀ p ∈ toRcv, p ∈ s.toRcv) (hn : ∀ q ∈ toNcp, q ∈ s.toNcp) :
    Sender.Agrees env { s with toRcv := toRcv, toNcp := toNcp } k where
  sending := by
    obtain ⟨b, n, hs, hlo, hhi, hdata⟩ := h.sending
    exact ⟨b, n, hs, hlo, hhi, fun p hp => hdata p (hr p hp)⟩
  told := fun q hq => h.told q (hn q hq)
  returned := h.returned

theorem Sender.Agrees.last (h : s.Agrees env k) : k ≤ lastChunk env.src := by
  obtain ⟨b, n, hs, -, hhi, -⟩ := h.sending
  have := hs.last
  omega

theorem Sender.Agrees.ncpDo (h : s.Agrees env k) {e : NcpEvent} {confirmed : List ℤ}
    (he : ∀ q, e = .ack q → q.isNack = false → q.cumSeq ≤ k) :
    Sender.Agrees env { s.ncpDo env e with confirmed := confirmed } k where
  sending := by
    obtain ⟨b, n, hs, hlo, hhi, hdata⟩ := h.sending
    obtain ⟨b', n', hs', hle, hout, hfront, -⟩ := hs.step e
    refine ⟨b', n', hs', ?_, by omega, fun p hp => ?_⟩
    · rcases hfront with rfl | ⟨q, rfl, hq, hb⟩
      · exact hlo
      · have := he q rfl hq
        omega
    · rcases List.mem_append.mp hp with hp | hp
      · obtain ⟨j, h1, hj, rfl⟩ := hdata p hp
        exact ⟨j, h1, by omega, rfl⟩
      · exact hout p hp
  told := h.told
  returned := by
    obtain ⟨b, n, hs, -⟩ := h.sending
    obtain ⟨-, -, -, -, -, -, hret⟩ := hs.step e
    intro hr
    rcases hret hr with hr | ⟨q, rfl, hq, hlast⟩
    · exact h.returned hr
    · have := he q rfl hq
      have := h.last
      omega

theorem Sender.Agrees.hear (h : s.Agrees env k) {out : List RcvEffect} (hk : k ≤ j)
    (hread : j = k ∨ (j : ℤ) < s.ncp.pktCnt)
    (hout : ∀ q, .sendto env.addr q ∈ out → q.isNack = false → q.cumSeq ≤ (j : ℤ)) :
    Sender.Agrees env (s.hear env out) j := by
  obtain ⟨b, n, hs, hlo, hhi, hdata⟩ := h.sending
  have hcnt := hs.pktCnt
  refine ⟨⟨b, n, hs, by omega, by omega, hdata⟩, fun q hq hn => ?_, fun hr => ?_⟩
  · rcases List.mem_append.mp hq with hq | hq
    · have := h.told q hq hn
      omega
    · exact hout q (mem_acksTo.mp hq) hn
  · have := h.returned hr
    have := hs.last
    omega

-- ---------------------------------------------------------------------------
-- All of them
-- ---------------------------------------------------------------------------

variable {S : Senders ι} {t : LoggedNets ι} {ks : ι → ℕ} {i m : ι}

inductive Turn (S : Senders ι) (c : RcvCore) (log : List RcvEffect) (i : ι) (k : ℕ) : Prop
  /-- Its first packet opened the file, or will open it. -/
  | head (h : c.senderQ.head? = some (S.env i).addr)
      (transfer : InTransfer (S.env i).addr (S.env i).src (S.env i).dFname c k)
      (copied : Copied (S.env i).dFname.1 (S.env i).src log k (c.rcvStart = true))
  /-- It waits in the queue, or was never heard of. -/
  | before (h : c.senderQ.head? ≠ some (S.env i).addr) (zero : k = 0)
      (copied : Copied (S.env i).dFname.1 (S.env i).src log k False)
  /-- Its file is complete, and it was dropped from the queue. -/
  | after (h : (S.env i).addr ∉ c.senderQ) (last : k = lastChunk (S.env i).src)
      (copied : Copied (S.env i).dFname.1 (S.env i).src log k True)

structure Turns (S : Senders ι) (t : LoggedNets ι) (ks : ι → ℕ) : Prop where
  sender : ∀ i, (t.nets.sender i).Agrees (S.env i) (ks i)
  ok : t.nets.rcv.core.Ok
  names : ∀ a ∈ t.nets.rcv.core.senderQ, ∃ i, a = (S.env i).addr
  turn : ∀ i, Turn S t.nets.rcv.core t.log i (ks i)

theorem turns_init (hfits : ∀ i, (S.env i).NameFits) (buf : NetPkt) :
    Turns S (.init S buf) fun _ => 0 where
  sender := fun i => Sender.agrees_init (hfits i)
  ok := RcvCore.ok_init buf
  names := fun a ha => absurd ha List.not_mem_nil
  turn := fun i => .before (by simp [LoggedNets.init, Nets.init, RcvState.init, RcvState.core]) rfl
    (copied_nil not_false)

theorem Turns.update [DecidableEq ι] (h : Turns S t ks) {s : Sender}
    (hs : s.Agrees (S.env i) (ks i)) : Turns S ⟨t.nets.update i s, t.log ++ []⟩ ks where
  sender := by
    intro m
    by_cases hm : m = i
    · subst hm
      simpa [Nets.update] using hs
    · simpa [Nets.update, hm] using h.sender m
  ok := h.ok
  names := h.names
  turn := by
    rw [List.append_nil]
    exact h.turn

theorem Turns.rcvDo (h : Turns S t ks) {e : RcvEvent} {ks' : ι → ℕ}
    (hks : ∀ i, ks i ≤ ks' i)
    (hread : ∀ i, ks' i = ks i ∨ (ks' i : ℤ) < (t.nets.sender i).ncp.pktCnt)
    (hacks : ∀ i q, .sendto (S.env i).addr q ∈ (coreStep t.nets.rcv.core e).2 →
      q.isNack = false → q.cumSeq ≤ (ks' i : ℤ))
    (hnames : ∀ a ∈ (coreStep t.nets.rcv.core e).1.senderQ, ∃ i, a = (S.env i).addr)
    (hturn : ∀ i, Turn S (coreStep t.nets.rcv.core e).1
      (t.log ++ (coreStep t.nets.rcv.core e).2) i (ks' i)) :
    Turns S ⟨t.nets.rcvDo S e, t.log ++ (rcvStep t.nets.rcv e).2⟩ ks' where
  sender := by
    intro i
    refine (h.sender i).hear (hks i) (hread i) fun q hq => hacks i q ?_
    rwa [out_core h.ok] at hq
  ok := next_ok h.ok e
  names := by
    have hcore : (t.nets.rcvDo S e).rcv.core = _ := next_core h.ok e
    rw [hcore]
    exact hnames
  turn := by
    have hcore : (t.nets.rcvDo S e).rcv.core = _ := next_core h.ok e
    rw [hcore, out_core h.ok]
    exact hturn

theorem Copied.append_sends (h : Copied f src log k P) (hout : ∀ o ∈ out, o.IsSend) :
    Copied f src (log ++ out) k P := by
  refine h.append_other fun e he hf => ?_
  have hsend := hout e he
  cases e with
  | sendto dst q => cases hf
  | openFile g => exact hsend
  | write g bytes => exact hsend
  | close g => exact hsend

theorem Turn.append_sends {log : List RcvEffect} (h : Turn S c log i k)
    (hout : ∀ o ∈ out, o.IsSend) : Turn S c (log ++ out) i k := by
  cases h with
  | head h transfer copied => exact .head h transfer (copied.append_sends hout)
  | before h zero copied => exact .before h zero (copied.append_sends hout)
  | after h last copied => exact .after h last (copied.append_sends hout)

theorem coreTimeout_sends (c : RcvCore) (junk : AckPkt) :
    ∀ o ∈ (coreTimeout c junk).2, o.IsSend := by
  intro o ho
  simp only [coreTimeout] at ho
  obtain ⟨a, -, rfl⟩ := List.mem_map.mp ho
  trivial

/-- The timeout that ends a transfer makes the next sender the head. -/
theorem Turn.drop {log : List RcvEffect} (h : Turn S c log i k) (hok : c.Ok) (hd : c.done = true) :
    Turn S { c with senderQ := c.senderQ.tail, done := false, rcvStart := false, cumSeq := 0 }
      log i k := by
  have hok' := coreStep_ok hok (.timeout ⟨0, 0, false⟩)
  simp only [coreStep, coreTimeout, hd, ↓reduceIte] at hok'
  cases h with
  | head h transfer copied =>
    -- the transfer that ends is its own
    obtain ⟨q, hq⟩ : ∃ q, c.senderQ = (S.env i).addr :: q := by
      cases hq : c.senderQ with
      | nil => simp [hq] at h
      | cons a q => exact ⟨q, by rw [hq] at h; rw [← Option.some.inj h]⟩
    have hdone := transfer.done
    rw [hd] at hdone
    have hlast : k = lastChunk (S.env i).src := of_decide_eq_true hdone.symm
    have hs : c.rcvStart = true := by
      by_contra hs
      have hzero := transfer.eq_zero (by simpa using hs)
      exact lastChunk_ne_zero _ (hzero.symm.trans hlast)
    refine .after ?_ hlast (copied.congr (iff_true_intro hs))
    have hnodup := hok.nodup
    rw [hq] at hnodup ⊢
    exact (List.nodup_cons.mp hnodup).1
  | before h zero copied =>
    by_cases hnext : c.senderQ.tail.head? = some (S.env i).addr
    · exact .head hnext (.inl ⟨⟨.inr hnext, rfl, hok'⟩, zero⟩)
        (copied.congr (iff_of_false id Bool.false_ne_true))
    · exact .before hnext zero copied
  | after h last copied =>
    exact .after (fun hm => h (List.mem_of_mem_tail hm)) last copied

theorem Turns.timeout (h : Turns S t ks) (junk : AckPkt) :
    Turns S ⟨t.nets.rcvDo S (.timeout junk),
      t.log ++ (rcvStep t.nets.rcv (.timeout junk)).2⟩ ks := by
  have hsends := coreTimeout_sends t.nets.rcv.core junk
  refine h.rcvDo (fun _ => le_rfl) (fun _ => .inl rfl) (fun i q hq _ => ?_) (fun a ha => ?_)
    fun i => Turn.append_sends ?_ hsends
  · simp only [coreStep, coreTimeout] at hq
    obtain ⟨a, ha, heq⟩ := List.mem_map.mp hq
    obtain ⟨rfl, rfl⟩ := RcvEffect.sendto.inj heq
    split_ifs at ha ⊢ with hd
    · exact Int.natCast_nonneg _
    · show t.nets.rcv.core.cumSeq ≤ _
      cases h.turn i with
      | head _ transfer _ => rw [transfer.cumSeq]
      | before hne _ _ => exact absurd (by simpa using ha) hne
      | after hnot _ _ => exact absurd (List.mem_of_mem_head? (by simpa using ha)) hnot
  · simp only [coreStep, coreTimeout] at ha
    split_ifs at ha
    · exact h.names a (List.mem_of_mem_tail ha)
    · exact h.names a ha
  · simp only [coreStep, coreTimeout]
    split_ifs with hd
    · exact (h.turn i).drop h.ok hd
    · exact h.turn i

def Distinct (S : Senders ι) : Prop := Function.Injective fun i => (S.env i).dFname.1

theorem Turn.transfer {log : List RcvEffect} (h : Turn S c log i k) (hok : c.Ok)
    (hhead : ∀ a ∈ c.senderQ.head?, a = (S.env i).addr)
    (hlate : .close (S.env i).dFname.1 ∈ log → (S.env i).addr ∈ c.senderQ) :
    InTransfer (S.env i).addr (S.env i).src (S.env i).dFname c k ∧
      Copied (S.env i).dFname.1 (S.env i).src log k (c.rcvStart = true) := by
  cases h with
  | head h transfer copied => exact ⟨transfer, copied⟩
  | before h zero copied =>
    have hnil : c.senderQ = [] := by
      cases hq : c.senderQ with
      | nil => rfl
      | cons a q => exact absurd (by rw [hq, ← hhead a (by simp [hq])]; rfl) h
    have hs : c.rcvStart = false := by
      by_contra hs
      exact hok.queued (by simpa using hs) hnil
    exact ⟨.inl ⟨⟨.inl hnil, hs, hok⟩, zero⟩, copied.congr (by simp [hs])⟩
  | after h last copied => exact absurd (hlate (copied.closed.mpr last)) h

theorem Turn.other {log : List RcvEffect} {d : RcvCore} (h : Turn S c log m k)
    (hne : (S.env i).addr ≠ (S.env m).addr) (hold : ∀ a ∈ c.senderQ.head?, a = (S.env i).addr)
    (hq : d.senderQ = joined c.senderQ (S.env i).addr)
    (hout : ∀ e ∈ out, e.file? ≠ some (S.env m).dFname.1) : Turn S d (log ++ out) m k := by
  cases h with
  | head h transfer copied => exact absurd (hold _ h).symm hne
  | before h zero copied =>
    refine .before (fun hd => ?_) zero (copied.append_other hout)
    rw [hq] at hd
    exact h (head?_of_joined hd hne.symm)
  | after h last copied =>
    refine .after (fun hm => ?_) last (copied.append_other hout)
    rw [hq, mem_joined] at hm
    rcases hm with hm | hm
    · exact h hm
    · exact hne hm.symm

theorem Turns.own [DecidableEq ι] (h : Turns S t ks) (hnames : Distinct S)
    (hj : 1 ≤ j) (hread : (j : ℤ) < (t.nets.sender i).ncp.pktCnt)
    (hhead : ∀ a ∈ t.nets.rcv.core.senderQ.head?, a = (S.env i).addr)
    (hlate : .close (S.env i).dFname.1 ∈ t.log → (S.env i).addr ∈ t.nets.rcv.core.senderQ)
    (junk : AckPkt) :
    Turns S ⟨t.nets.rcvDo S (.datagram (S.env i).addr (ncpPkt (S.env i) j) junk),
      t.log ++ (rcvStep t.nets.rcv (.datagram (S.env i).addr (ncpPkt (S.env i) j) junk)).2⟩
      (Function.update ks i (advance (ks i) j)) := by
  obtain ⟨b, n, hs, -, hhi, -⟩ := (h.sender i).sending
  have hlast := hs.last
  rw [hs.pktCnt] at hread
  have hcar : Carries (S.env i).src (S.env i).dFname j (ncpPkt (S.env i) j) :=
    carries_ncpPkt hs.fits hj (by omega)
  obtain ⟨ht, hc⟩ := (h.turn i).transfer h.ok hhead hlate
  obtain ⟨hrec, -, hacks⟩ := ht.recv hcar junk
  obtain ⟨hcop, hfiles⟩ := hc.recv ht hcar junk
  refine h.rcvDo (fun m => ?_) (fun m => ?_) (fun m q hq hn => ?_) (fun a ha => ?_) fun m => ?_
  · by_cases hm : m = i
    · subst hm
      simpa using le_advance _ _
    · simp [hm]
  · by_cases hm : m = i
    · subst hm
      right
      rw [Function.update_self, hs.pktCnt]
      unfold advance
      split_ifs <;> omega
    · exact .inl (by simp [hm])
  · obtain ⟨haddr, hle⟩ := hacks _ q hq
    obtain rfl := S.addr_inj haddr
    rw [Function.update_self]
    exact hle.2 hn
  · simp only [coreStep] at ha
    rw [coreRecv_senderQ, mem_joined] at ha
    rcases ha with ha | rfl
    · exact h.names a ha
    · exact ⟨i, rfl⟩
  · by_cases hm : m = i
    · subst hm
      rw [Function.update_self]
      exact .head hrec.head (.inr hrec) (hcop.congr (iff_of_true trivial hrec.started))
    · rw [Function.update_of_ne hm]
      refine (h.turn m).other (fun heq => hm (S.addr_inj heq).symm) hhead
        (coreRecv_senderQ _ _ _ _) fun e he hf => ?_
      rcases hfiles e he with hno | hown
      · rw [hno] at hf
        cases hf
      · rw [hown] at hf
        exact hm (hnames (Option.some.inj hf)).symm

theorem coreRecv_quiet {src : SockaddrIn} (hhead : c.senderQ.head? = some a) (hne : a ≠ src)
    (hquiet : Quiet c src p) :
    (coreRecv c src p junk).1 = { c with senderQ := joined c.senderQ src } ∧
      ∀ o ∈ (coreRecv c src p junk).2, o = .sendto src { junk with cumSeq := -1 } := by
  have hother : c.senderQ.head? ≠ some src := fun h => hne (Option.some.inj (hhead.symm.trans h))
  unfold coreRecv
  by_cases hq : src ∈ c.senderQ
  · rw [if_pos ⟨hq, hother⟩, joined, if_pos hq]
    exact ⟨rfl, fun o ho => List.mem_singleton.mp ho⟩
  · obtain ⟨hs, hfut, hfull⟩ := hquiet.resolve_left hq
    have hdrop : coreReceive { c with senderQ := joined c.senderQ src } p
        ((joined c.senderQ src).headD src) junk = (_, []) := coreReceive_drop hfut hfull
    rw [if_neg fun h => hq h.1, if_pos hs]
    rw [hs] at hdrop
    rw [hs, hdrop]
    exact ⟨rfl, by simp⟩

theorem Turn.quiet {log : List RcvEffect} {src : SockaddrIn} (h : Turn S c log m k)
    (hhead : c.senderQ.head? = some a) (hsrc : src ∈ c.senderQ ∨ c.rcvStart = true)
    (hlate : (S.env m).addr = src → .close (S.env m).dFname.1 ∈ log → src ∈ c.senderQ) :
    Turn S { c with senderQ := joined c.senderQ src } log m k := by
  have hhead' := joined_head? hhead src
  cases h with
  | head h transfer copied =>
    refine .head (joined_head? h src) ?_ copied
    rcases transfer with ⟨hw, hzero⟩ | hr
    · have hq : src ∈ c.senderQ := hsrc.resolve_right (by simp [hw.idle])
      rw [joined, if_pos hq]
      exact .inl ⟨hw, hzero⟩
    · exact .inr ⟨joined_head? h src, hr.started, hr.cumSeq, hr.done, hr.pd, hr.le⟩
  | before h zero copied =>
    refine .before (fun hm => h ?_) zero copied
    rw [hhead, ← hhead']
    exact hm
  | after h last copied =>
    refine .after (fun hm => ?_) last copied
    rcases mem_joined.mp hm with hm | hm
    · exact h hm
    · exact h (hm ▸ hlate hm (copied.closed.mpr last))

theorem Turns.foreign (h : Turns S t ks) (hhead : t.nets.rcv.core.senderQ.head? = some a)
    (hne : a ≠ (S.env i).addr) (hquiet : Quiet t.nets.rcv.core (S.env i).addr p)
    (hlate : .close (S.env i).dFname.1 ∈ t.log → (S.env i).addr ∈ t.nets.rcv.core.senderQ)
    (junk : AckPkt) :
    Turns S ⟨t.nets.rcvDo S (.datagram (S.env i).addr p junk),
      t.log ++ (rcvStep t.nets.rcv (.datagram (S.env i).addr p junk)).2⟩ ks := by
  obtain ⟨hcore, hout⟩ :
      (coreRecv t.nets.rcv.core (S.env i).addr p junk).1 = _ ∧ _ := coreRecv_quiet hhead hne hquiet
  refine h.rcvDo (fun _ => le_rfl) (fun _ => .inl rfl) (fun m q hq _ => ?_) (fun b hb => ?_)
    fun m => Turn.append_sends ?_ fun o ho => ?_
  · obtain ⟨-, rfl⟩ := RcvEffect.sendto.inj (hout _ hq)
    show -1 ≤ (ks m : ℤ)
    omega
  · simp only [coreStep] at hb
    rw [hcore] at hb
    rcases mem_joined.mp hb with hb | rfl
    · exact h.names b hb
    · exact ⟨i, rfl⟩
  · simp only [coreStep]
    rw [hcore]
    refine (h.turn m).quiet hhead (hquiet.imp_right fun hq => hq.1) fun haddr hclose => ?_
    obtain rfl := S.addr_inj haddr
    exact hlate hclose
  · rw [hout o ho]
    trivial

-- ---------------------------------------------------------------------------
-- Whole runs
-- ---------------------------------------------------------------------------

theorem Turns.step [DecidableEq ι] (h : Turns S t ks) (hnames : Distinct S) {e : NetsEvent ι}
    (he : InTurn S t e) : ∃ ks', Turns S (logStep S t e) ks' := by
  cases e with
  | ncpTimeout i =>
    exact ⟨ks, h.update ((h.sender i).ncpDo (e := .timeout) fun q hq => by cases hq)⟩
  | rcvTimeout junk => exact ⟨ks, h.timeout junk⟩
  | deliverRcv i k junk =>
    cases hp : (t.nets.sender i).toRcv[k]? with
    | none =>
      simp only [logStep, netsStep, Nets.effects, hp, List.append_nil]
      exact ⟨ks, h⟩
    | some p =>
      obtain ⟨hquiet, hlate⟩ := he p hp
      obtain ⟨b, n, hs, -, -, hdata⟩ := (h.sender i).sending
      obtain ⟨j, h1, hj, rfl⟩ := hdata p (List.mem_of_getElem? hp)
      have h' := h.update ((h.sender i).channels (Channel.lose (t.nets.sender i).toRcv k)
        (t.nets.sender i).toNcp (fun p => Channel.mem_of_mem_lose) (fun q hq => hq))
      rw [List.append_nil] at h'
      simp only [logStep, netsStep, Nets.effects, hp]
      by_cases hhead : ∀ a ∈ t.nets.rcv.core.senderQ.head?, a = (S.env i).addr
      · refine ⟨_, h'.own hnames h1 ?_ hhead hlate junk⟩
        have hncp := Nets.update_ncp t.nets i
          { t.nets.sender i with toRcv := Channel.lose (t.nets.sender i).toRcv k } rfl i
        dsimp only
        rw [hncp, hs.pktCnt]
        exact Int.ofNat_lt.mpr hj
      · push Not at hhead
        obtain ⟨a, ha, hne⟩ := hhead
        exact ⟨ks, h'.foreign ha hne (hquiet a ha hne) hlate junk⟩
  | deliverNcp i k =>
    cases hq : (t.nets.sender i).toNcp[k]? with
    | none =>
      simp only [logStep, netsStep, Nets.effects, hq, List.append_nil]
      exact ⟨ks, h⟩
    | some q =>
      simp only [logStep, netsStep, Nets.effects, hq]
      have h' := (h.sender i).channels (t.nets.sender i).toRcv
        (Channel.lose (t.nets.sender i).toNcp k) (fun p hp => hp)
        (fun q => Channel.mem_of_mem_lose)
      refine ⟨ks, h.update (h'.ncpDo fun q' hq' => ?_)⟩
      obtain rfl := NcpEvent.ack.inj hq'
      exact (h.sender i).told q (List.mem_of_getElem? hq)
  | loseRcv i k =>
    exact ⟨ks, h.update ((h.sender i).channels _ _ (fun p => Channel.mem_of_mem_lose)
      (fun q hq => hq))⟩
  | loseNcp i k =>
    exact ⟨ks, h.update ((h.sender i).channels _ _ (fun p hp => hp)
      (fun q => Channel.mem_of_mem_lose))⟩
  | duplicateRcv i k =>
    exact ⟨ks, h.update ((h.sender i).channels _ _ (fun p => Channel.mem_of_mem_duplicate)
      (fun q hq => hq))⟩
  | duplicateNcp i k =>
    exact ⟨ks, h.update ((h.sender i).channels _ _ (fun p hp => hp)
      (fun q => Channel.mem_of_mem_duplicate))⟩

theorem turns_run [DecidableEq ι] (hfits : ∀ i, (S.env i).NameFits) (hnames : Distinct S)
    (buf : NetPkt) {es : List (NetsEvent ι)}
    (hrun : Along (logStep S) (InTurn S) (.init S buf) es) :
    ∃ ks, Turns S (es.foldl (logStep S) (.init S buf)) ks :=
  hrun.inv (I := fun t => ∃ ks, Turns S t ks) ⟨_, turns_init hfits buf⟩
    fun _ _ ⟨_, h⟩ he => h.step hnames he

theorem Turn.copied {log : List RcvEffect} (h : Turn S c log i k) :
    ∃ P, Copied (S.env i).dFname.1 (S.env i).src log k P ∧
      (P → k ≠ lastChunk (S.env i).src → c.senderQ.head? = some (S.env i).addr) := by
  cases h with
  | head h transfer copied => exact ⟨_, copied, fun _ _ => h⟩
  | before h zero copied => exact ⟨_, copied, fun hP => hP.elim⟩
  | after h last copied => exact ⟨_, copied, fun _ hk => absurd last hk⟩

/-- For any number of senders with a file each, whose names fit, and every run in which the
datagrams handled are in turn: each file is opened at most once, and holds a part of its own
source from the first opening on; only the file of the sender at the head is ever
incomplete; a closed file is the whole source; and a sender that has returned left its
file closed. -/
theorem files_in_turn [DecidableEq ι] (S : Senders ι) (hfits : ∀ i, (S.env i).NameFits)
    (hnames : Distinct S) (buf : NetPkt) (es : List (NetsEvent ι))
    (hrun : Along (logStep S) (InTurn S) (.init S buf) es) (i : ι) :
    let t := es.foldl (logStep S) (.init S buf)
    let f : Fname := (S.env i).dFname
    t.log.count (.openFile f) ≤ 1 ∧
      (∃ k ≤ lastChunk (S.env i).src, ∀ disk, fileAfter f disk t.log =
        if .openFile f ∈ t.log then some (chunks (S.env i).src k) else disk) ∧
      (.openFile f ∈ t.log → .close f ∉ t.log →
        t.nets.rcv.senderQ.head? = some (S.env i).addr) ∧
      (.close f ∈ t.log → ∀ disk, fileAfter f disk t.log = some (S.env i).src) ∧
      ((t.nets.sender i).ncp.status = .returned → .close f ∈ t.log) := by
  intro t f
  obtain ⟨ks, h⟩ := turns_run hfits hnames buf hrun
  obtain ⟨P, hc, hhead⟩ := (h.turn i).copied
  refine ⟨hc.once, ⟨ks i, (h.sender i).last, fun disk => ?_⟩, fun ho hcl => ?_, fun hcl disk => ?_,
    fun hr => hc.closed.mpr ((h.sender i).returned hr)⟩
  · split_ifs with ho
    · exact hc.file (hc.opened.mp ho) disk
    · exact fileAfter_other (hc.fresh fun hP => ho (hc.opened.mpr hP)) disk
  · exact hhead (hc.opened.mp ho) fun hk => hcl (hc.closed.mpr hk)
  · have hk := hc.closed.mp hcl
    have hP : P := by
      by_contra hP
      exact hc.fresh hP _ hcl rfl
    rw [hc.file hP disk, hk, chunks_lastChunk]

/-- The second sender joins unnoticed and is told to wait, and it is served when the
file of the first one is complete. -/
theorem files_in_turn_two :
    let es : List (NetsEvent Bool) := [.ncpTimeout true, .ncpTimeout true, .ncpTimeout false,
      .ncpTimeout false, .deliverRcv true 2 ⟨0, 0, false⟩, .deliverRcv false 2 ⟨0, 0, false⟩,
      .deliverRcv false 0 ⟨0, 0, true⟩, .deliverRcv true 0 ⟨0, 0, false⟩, .ncpTimeout true,
      .deliverRcv true 2 ⟨0, 0, false⟩, .rcvTimeout ⟨0, 0, false⟩,
      .deliverRcv false 0 ⟨0, 0, false⟩]
    let t := es.foldl (logStep twoSenders) (.init twoSenders (fullPkt [] 0 0 false))
    .close [97] ∈ t.log ∧ fileAfter [97] none t.log = some (.replicate 1356 97) ∧
      t.log.count (.openFile [98]) ≤ 1 := by
  intro es t
  have hnames : Distinct twoSenders := by
    intro i j h
    cases i <;> cases j <;> first | rfl | cases h
  have hrun : Along (logStep twoSenders) (InTurn twoSenders)
      (.init twoSenders (fullPkt [] 0 0 false)) es := by decide +kernel
  have hclose : .close [97] ∈ t.log := by decide +kernel
  exact ⟨hclose, (files_in_turn twoSenders (by decide) hnames _ es hrun true).2.2.2.1 hclose none,
    (files_in_turn twoSenders (by decide) hnames _ es hrun false).1⟩

end Wan.Proj1
