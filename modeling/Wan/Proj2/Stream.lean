import Wan.Proj2.Queue
import Wan.Proj2.UdpStreamRcv

/-!
# From one end of the stream to the other

`udp_stream` hands its packets to `rt_srv`, and `rt_rcv` hands what it delivers to
`udp_stream_rcv`. Datagrams may be lost on both of these ways too, but keep their order
there. The figures of `udp_stream_rcv` then speak of the packets of `udp_stream`.
-/

namespace Wan.Proj2

open Posix Lib

variable {a : SockaddrIn} {sinPort : UInt16} {numMsgs : ℤ} {memory : StreamPkt}
  {clock : ℕ → Timeval}

def handed (es : List RtNetEvent) : List Bytes :=
  es.flatMap fun
    | .srvPass _ app _ _ => app.toList
    | _ => []

def datagrams (rs : List StreamRcvEvent) : List Bytes :=
  rs.flatMap fun
    | .recv bytes _ _ => [bytes]
    | .timeout _ => []

def StreamPkt.bytes (p : StreamPkt) : Bytes := p.image.toList

-- ---------------------------------------------------------------------------
-- The packets that are sent
-- ---------------------------------------------------------------------------

theorem toInt_toInt (x : ℤ) : toInt (toInt x) = toInt x := Int.bmod_bmod

theorem inRange_streamSent (hnum : numMsgs < 2 ^ 31 - 1)
    (hmono : Monotone fun n => (clock n).usec) (n : ℕ) :
    ∀ p ∈ streamSent numMsgs memory clock n, p.InRange := by
  induction n with
  | zero => exact fun p hp => absurd hp List.not_mem_nil
  | succ n ih =>
    rw [streamSent_succ]
    intro p hp
    rcases List.mem_append.mp hp with hp | hp
    · exact ih p hp
    · rcases packetsOf_step numMsgs (streamAt numMsgs memory clock n) (clock n) with
        ⟨hpc, hout⟩ | ⟨-, hout⟩
      · obtain ⟨hseq, hlast, -⟩ := streamSent_pass hnum hmono hpc
        rw [hout, List.mem_singleton] at hp
        subst hp
        refine ⟨?_, toInt_toInt _, toInt_toInt _⟩
        show toInt (streamAt numMsgs memory clock n).sendPkt.seq = _
        exact toInt_eq (by omega) (by omega)
      · rw [hout] at hp
        exact absurd hp List.not_mem_nil

theorem increasing_streamSent (memory : StreamPkt) (hnum : numMsgs < 2 ^ 31 - 1)
    (hmono : Monotone fun n => (clock n).usec) (n : ℕ) :
    (0 :: (streamSent numMsgs memory clock n).map (·.seq)).Pairwise (· < ·) := by
  rw [numbered_run hnum hmono]
  refine List.pairwise_cons.mpr ⟨fun k hk => ?_, List.pairwise_map.mpr ?_⟩
  · obtain ⟨i, -, rfl⟩ := List.mem_map.mp hk
    omega
  · exact List.pairwise_lt_range.imp fun h => by omega

-- ---------------------------------------------------------------------------
-- From application to application
-- ---------------------------------------------------------------------------

theorem apps_rtNetStep (a : SockaddrIn) (s : RtNet) (e : RtNetEvent) :
    ∃ more, (rtNetStep a s e).apps = s.apps ++ more ∧ more.Sublist (handed [e]) := by
  have hsrv (t : RtNet) (client : ClientInput) (app : Option Bytes) (now : ℤ) (fresh : NetPkt) :
      ∃ more, (t.srvDo ⟨client, app, now, fresh⟩).apps = t.apps ++ more ∧
        more.Sublist app.toList := by
    refine ⟨_, rfl, ?_⟩
    rw [accepted]
    split_ifs
    · exact List.nil_sublist _
    · exact List.Sublist.refl _
  refine rtNetStep_cases (motive := fun t => ∃ more, t.apps = s.apps ++ more ∧
    more.Sublist (handed [e])) ?_ ?_ ?_ ?_
  · rintro toSrv client app now fresh - - ⟨i, rfl⟩
    obtain ⟨more, happs, hsub⟩ := hsrv { s with toSrv := toSrv } client app now fresh
    exact ⟨more, happs, by simpa [handed] using hsub⟩
  · exact fun _ _ _ _ _ _ _ => ⟨[], (List.append_nil _).symm, List.nil_sublist _⟩
  · exact fun _ _ => ⟨[], (List.append_nil _).symm, List.nil_sublist _⟩
  · exact fun _ _ _ _ => ⟨[], (List.append_nil _).symm, List.nil_sublist _⟩

theorem apps_sublist (a : SockaddrIn) (sinPort : UInt16) (es : List RtNetEvent) :
    (es.foldl (rtNetStep a) (.init sinPort)).apps.Sublist (handed es) := by
  induction es using List.reverseRecOn with
  | nil => exact List.Sublist.refl _
  | append_singleton es e ih =>
    obtain ⟨more, happs, hsub⟩ := apps_rtNetStep a (es.foldl (rtNetStep a) (.init sinPort)) e
    have hhanded : handed (es ++ [e]) = handed es ++ handed [e] := List.flatMap_append
    rw [List.foldl_append, List.foldl_cons, List.foldl_nil, happs, hhanded]
    exact ih.append hsub

-- ---------------------------------------------------------------------------
-- The packets that are read
-- ---------------------------------------------------------------------------

theorem read_bytes (s : StreamRcvState) {p : StreamPkt} (hp : p.InRange) : s.read p.bytes = p := by
  have hlen : p.bytes.length = streamPktLen := List.Vector.toList_length _
  have hfull : s.rcvPkt.memcpy p.bytes = p.image := by
    apply List.Vector.toList_injective
    have htake := s.rcvPkt.take_memcpy hlen.le
    rwa [hlen, List.take_of_length_le (List.Vector.toList_length _).le] at htake
  rw [StreamRcvState.read, hfull, StreamPkt.ofImage_image hp]

theorem packetsRead_bytes (buf : CharArray streamPktLen) {rs : List StreamRcvEvent}
    {ps : List StreamPkt} (hps : datagrams rs = ps.map (·.bytes)) (hrange : ∀ p ∈ ps, p.InRange) :
    (packetsRead buf rs).map (·.1) = ps ∧
      (rs.foldl (next streamRcvStep) (.init buf)).exited = false := by
  induction rs using List.reverseRecOn generalizing ps with
  | nil =>
    obtain rfl := List.map_eq_nil_iff.mp hps.symm
    exact ⟨rfl, rfl⟩
  | append_singleton rs r ih =>
    have hsplit : datagrams (rs ++ [r]) = datagrams rs ++ datagrams [r] := List.flatMap_append
    rw [hsplit] at hps
    rw [packetsRead, gather_concat, List.map_append, List.foldl_append, List.foldl_cons,
      List.foldl_nil]
    cases r with
    | timeout now =>
      obtain ⟨hread, hx⟩ := ih ((List.append_nil _).symm.trans hps) hrange
      refine ⟨?_, ?_⟩
      · show (packetsRead buf rs).map _ ++ [] = ps
        rw [List.append_nil, hread]
      · simp only [next, streamRcvStep]
        split_ifs <;> exact hx
    | recv bytes start now =>
      obtain ⟨front, back, rfl, hfront, hback⟩ := List.map_eq_append_iff.mp hps.symm
      obtain ⟨p, rfl, rfl⟩ : ∃ p, back = [p] ∧ p.bytes = bytes := by
        obtain ⟨p, rest, rfl, hp, hrest⟩ := List.map_eq_cons_iff.mp hback
        exact ⟨p, by rw [List.map_eq_nil_iff.mp hrest], hp⟩
      obtain ⟨hread, hx⟩ := ih hfront.symm fun q hq => hrange q (List.mem_append_left _ hq)
      have hlen : ¬ p.bytes.length ≤ 0 := by
        rw [StreamPkt.bytes, List.Vector.toList_length]
        decide
      have hp : p.InRange := hrange p (by simp)
      refine ⟨?_, ?_⟩
      · rw [entered, if_neg (by simp [hx, hlen]), read_bytes _ hp]
        exact congrArg (· ++ [p]) hread
      · simp only [next, streamRcvStep, hx, if_neg hlen]
        exact hx

/-- The stream from end to end. Whatever is lost between `udp_stream` and `rt_srv`, in the
network, or between `rt_rcv` and `udp_stream_rcv`, in a run of the network in which no
packet and no reply comes too late: the packets read are some of those sent, unchanged and
in order. Exactly those of them whose predecessor was not read are counted as out of order,
and the last number exceeds the count by how many packets before it were lost. -/
theorem stream_end_to_end (a : SockaddrIn) (sinPort : UInt16) (numMsgs : ℤ)
    (hnum : numMsgs < 2 ^ 31 - 1) (memory : StreamPkt) (clock : ℕ → Timeval)
    (hmono : Monotone fun n => (clock n).usec) (n : ℕ) (es : List RtNetEvent)
    (hhanded : (handed es).Sublist ((streamSent numMsgs memory clock n).map (·.bytes)))
    (htimely : Along (rtNetStep a) Timely (.init sinPort) es)
    (hreply : Along (rtNetStep a) ReplyInTime (.init sinPort) es)
    (buf : CharArray streamPktLen) (rs : List StreamRcvEvent)
    (hread : (datagrams rs).Sublist
      ((es.foldl (rtNetStep a) (.init sinPort)).delivered.map (·.payload))) :
    let ps := (packetsRead buf rs).map (·.1)
    let seqs := ps.map (·.seq)
    let s := rs.foldl (next streamRcvStep) (.init buf)
    ps.Sublist (streamSent numMsgs memory clock n) ∧ datagrams rs = ps.map (·.bytes) ∧
      s.exited = false ∧ s.rcvdCount = ps.length ∧
      s.outOfOrderCount = seqs.countP (fun k => k - 1 ∉ 0 :: seqs) ∧
      s.lastRcvd = s.rcvdCount + ((Finset.Ioc 0 s.lastRcvd).filter (· ∉ seqs)).card := by
  intro ps seqs s
  have hfit : ∀ e ∈ es, AppFits e := by
    intro e he
    cases e with
    | srvPass i app now fresh =>
      rintro bytes rfl
      have hm : bytes ∈ handed es := List.mem_flatMap.mpr ⟨_, he, by simp⟩
      obtain ⟨p, -, rfl⟩ := List.mem_map.mp (hhanded.subset hm)
      rw [StreamPkt.bytes, List.Vector.toList_length]
      decide
    | _ => trivial
  have hrun : Along (rtNetStep a) InTime (.init sinPort) es :=
    (((along_of_forall hfit).and htimely).and hreply).mono fun _ _ h => ⟨h.1.1, h.1.2, h.2⟩
  obtain ⟨qs, hqs, hsent⟩ := List.sublist_map_iff.mp
    (hread.trans ((payloads_sublist hrun).trans ((apps_sublist a sinPort es).trans hhanded)))
  have hrange : ∀ q ∈ qs, q.InRange := fun q hq =>
    inRange_streamSent hnum hmono n q (hqs.subset hq)
  obtain ⟨rfl, hx⟩ : ps = qs ∧ s.exited = false := packetsRead_bytes buf hsent hrange
  have h : Figures (packetsRead buf rs) s := figures_run buf rs
  have hmap : (packetsRead buf rs).map (·.1.seq) = seqs := List.map_map.symm
  have hinc : (0 :: (packetsRead buf rs).map (·.1.seq)).Pairwise (· < ·) := by
    rw [hmap]
    refine (increasing_streamSent memory hnum hmono n).sublist ?_
    exact (hqs.map _).cons_cons _
  obtain ⟨hlen, hout, hlast⟩ := h.increasing hinc
  rw [hmap] at hout hlast
  refine ⟨hqs, hsent, hx, ?_, hout, hlast⟩
  rw [h.rcvdCount_eq hlen, List.length_map]

/-- The first of two packets is lost on its way to `rt_srv`. -/
theorem stream_end_to_end_lost :
    let p : StreamPkt := ⟨2, 0, 4000, CharArray.memcpy (.replicate _ 0) (leBytes 4 2)⟩
    let es : List RtNetEvent := [.rcvTimeout fun _ => 0, .srvPass (some 0) none 0 zeroPkt,
      .deliverRcv 0 fun _ => 0, .srvPass none (some p.bytes) 0 zeroPkt,
      .srvPass (some 0) none 1 zeroPkt, .deliverRcv 0 fun _ => 2, .rcvTimeout fun _ => 10 ^ 12]
    let s := [StreamRcvEvent.recv p.bytes ⟨0, 0⟩ ⟨0, 5000⟩].foldl (next streamRcvStep)
      (.init (.replicate _ 0))
    (streamSent 2 ⟨0, 0, 0, .replicate _ 0⟩ everyMs 5).map (·.seq) = [1, 2] ∧
      (es.foldl (rtNetStep ⟨1, 5⟩) (.init 0)).delivered.map (·.payload) = [p.bytes] ∧
      s.outOfOrderCount = 1 ∧ s.rcvdCount = 1 ∧
      s.lastRcvd = s.rcvdCount + ((Finset.Ioc 0 s.lastRcvd).filter (· ∉ [2])).card := by
  intro p es s
  have hsent : (streamSent 2 ⟨0, 0, 0, .replicate _ 0⟩ everyMs 5).drop 1 = [p] := by
    decide +kernel
  have hdelivered : (es.foldl (rtNetStep ⟨1, 5⟩) (.init 0)).delivered.map (·.payload) =
      [p.bytes] := by
    decide +kernel
  have hhanded : (handed es).Sublist
      ((streamSent 2 ⟨0, 0, 0, .replicate _ 0⟩ everyMs 5).map (·.bytes)) := by
    refine List.Sublist.trans ?_ ((List.drop_sublist 1 _).map _)
    rw [hsent]
    exact List.Sublist.refl _
  have htimely : Along (rtNetStep ⟨1, 5⟩) Timely (.init 0) es := by decide +kernel
  have hreply : Along (rtNetStep ⟨1, 5⟩) ReplyInTime (.init 0) es := by decide +kernel
  obtain ⟨-, -, -, hcount, hout, hlast⟩ := stream_end_to_end ⟨1, 5⟩ 0 2 (by decide)
    ⟨0, 0, 0, .replicate _ 0⟩ everyMs monotone_everyMs 5 es hhanded htimely hreply
    (.replicate _ 0) [.recv p.bytes ⟨0, 0⟩ ⟨0, 5000⟩] (by rw [hdelivered]; exact .refl _)
  have hseqs : ((packetsRead (.replicate _ 0) [.recv p.bytes ⟨0, 0⟩ ⟨0, 5000⟩]).map (·.1)).map
      (·.seq) = [2] := by
    decide +kernel
  rw [hseqs] at hlast hout
  exact ⟨by decide +kernel, hdelivered, hout, by rw [hcount]; rfl, hlast⟩

end Wan.Proj2
