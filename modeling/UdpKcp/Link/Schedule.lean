import UdpKcp.Library.Descent
import UdpKcp.Link.Exchange

/-! # Schedules without new messages

The steps from which a continuation of a run is put together: a side drains its
receive queue, and a segment that a flush emits is carried across to the other
side. Neither makes the sender hold more than it did.
-/

namespace UdpKcp.Link

open ByteCodec (Bytes)
open Framing (Piece fragments)
open SelectiveRepeat (Fact Peer Move Moves Half Side)
open Ikcp Plug

/-- The output buffer of `UDPClient::Recv`. -/
def clientBuff : Int := 512

/-- A step that sends no new message. -/
inductive Quiet : State → State → Prop where
  | update (s : State) (side : Side) (dlt : UInt32) : Quiet s (s.update side dlt)
  | recv (s : State) (side : Side) (input : Option Bytes) (pending rest : List Bytes)
      (h : (s.net side.other).Perm (input.toList ++ pending ++ rest)) :
      Quiet s (s.recv side input pending rest clientBuff)

abbrev Continues : State → State → Prop := Relation.ReflTransGen Quiet

theorem Quiet.step {s s' : State} (h : Quiet s s') : Step s s' := by
  cases h with
  | update side dlt => exact Step.update s side dlt
  | recv side input pending rest hnet => exact Step.recv s side input pending rest clientBuff hnet

theorem Quiet.accepted {s s' : State} (h : Quiet s s') :
    ∀ side, (s'.ep side).accepted = (s.ep side).accepted := by
  have hrefl : ∀ side, (s.ep side).accepted = (s.ep side).accepted := fun _ => rfl
  cases h with
  | update side dlt =>
      exact @forall_update (fun side e => e.accepted = (s.ep side).accepted) _ _ _ rfl hrefl
  | recv side input pending rest hnet =>
      exact @forall_update (fun side e => e.accepted = (s.ep side).accepted) _ _ _ rfl hrefl

/-- A reachable state whose streams fit half the circle. -/
structure Live (conv : UInt32) (s : State) : Prop where
  reachable : Reachable conv s
  few : ∀ side, (s.ep side).stream.length < halfCircle

theorem Live.quiet {conv : UInt32} {s s' : State} (h : Live conv s) (hq : Quiet s s') :
    Live conv s' := by
  refine ⟨h.reachable.tail hq.step, fun side => ?_⟩
  unfold Endpoint.stream
  rw [hq.accepted side]
  exact h.few side

theorem Live.continues {conv : UInt32} {s s' : State} (h : Live conv s) (hc : Continues s s') :
    Live conv s' := by
  induction hc with
  | refl => exact h
  | tail _ hq ih => exact ih.quiet hq

theorem Continues.accepted {s s' : State} (h : Continues s s') (side : Side) :
    (s'.ep side).accepted = (s.ep side).accepted := by
  induction h with
  | refl => rfl
  | tail _ hq ih => rw [hq.accepted side, ih]

theorem Live.inv {conv : UInt32} {s : State} (h : Live conv s) :
    ∃ said, Inv (InFlight conv) conv s said :=
  inv_of_reachable h.reachable fun side => Nat.lt_of_le_of_lt (Nat.sub_le _ _) (h.few side)

/-! ## Draining the receiver -/

theorem fragments_short {m : Bytes} (h : m.length ≤ plugMss) : fragments plugMss m = [(0, m)] := by
  have hone : Framing.pieceCount plugMss m.length = 1 := if_pos h
  unfold fragments
  rw [hone, Framing.pieces, Framing.pieces, List.take_of_length_le h]

/-- With short messages only, a queue that is not empty holds a whole message that fits. -/
theorem head_short {conv : UInt32} {s : State} {said : Side → Set (Fact (Piece UInt8))}
    (h : Inv (InFlight conv) conv s said) (r : Side)
    (hshort : ∀ m ∈ (s.ep r.other).accepted, (m.length : Int) ≤ clientBuff)
    (hne : (s.ep r).kcp.rcvQueue ≠ []) :
    ∃ m ∈ (s.ep r.other).accepted, (m.length : Int) ≤ clientBuff ∧
      fragments plugMss m <+: (s.ep r).kcp.rcvQueue.map piece := by
  have hreceived : framed (s.ep r).returned ++ (s.ep r).kcp.rcvQueue.map piece <+:
      framed (s.ep r.other).accepted := (h.half r).received_stream
  obtain ⟨rest, hrest⟩ := h.delivered r
  obtain ⟨seg, tail, hqueue⟩ := List.exists_cons_of_ne_nil hne
  rw [← hrest, framed_append, List.prefix_append_right_inj, hqueue, List.map_cons] at hreceived
  cases rest with
  | nil => exact absurd (List.prefix_nil.mp hreceived) (by simp)
  | cons m rest =>
      have hmem : m ∈ (s.ep r.other).accepted := by
        rw [← hrest]
        exact List.mem_append_right _ List.mem_cons_self
      have hm := hshort m hmem
      have hframe : framed (m :: rest) = fragments plugMss m ++ framed rest := rfl
      have hmss : m.length ≤ plugMss := by
        unfold clientBuff at hm
        unfold plugMss maxUdpMtu ikcpOverhead
        omega
      rw [hframe, fragments_short hmss, List.singleton_append, List.cons_prefix_cons] at hreceived
      refine ⟨m, hmem, hm, ?_⟩
      rw [fragments_short hmss, hqueue, List.map_cons, List.cons_prefix_cons]
      exact ⟨hreceived.1.symm, List.nil_prefix⟩

/-- A window announcement is owed. -/
def Tells (kcp : IKCPCB) : Prop := kcp.probe &&& ikcpAskTell ≠ 0

theorem ikcpRecv_tells {kcp kcp' : IKCPCB} {len : Int} {bytes : Bytes} (hlen : 0 ≤ len)
    (h : ikcpRecv kcp len = .ok (bytes, kcp')) (ht : Tells kcp) : Tells kcp' := by
  obtain ⟨-, -, -, -, probe, rfl, hprobe⟩ := ikcpRecv_ok hlen h
  unfold Tells
  rcases hprobe with rfl | rfl
  · exact or_and_ne_zero ht
  · exact ht

/-- Receiving without datagrams empties the receive queue. -/
theorem exists_drained {conv : UInt32} {s : State} (hl : Live conv s) (r : Side)
    (hshort : ∀ m ∈ (s.ep r.other).accepted, (m.length : Int) ≤ clientBuff) :
    ∃ s', Continues s s' ∧
      (Live conv s' ∧ s'.ep r.other = s.ep r.other ∧ (Tells (s.ep r).kcp → Tells (s'.ep r).kcp)) ∧
      (s'.ep r).kcp.rcvQueue = [] := by
  apply Descent.exists_goal
    fun x => (x.ep r.other).accepted.length - (x.ep r).returned.length
  · rintro x ⟨hlive, hother, htells⟩ hne
    obtain ⟨said, hinv⟩ := hlive.inv
    obtain ⟨m, hm, hfits, hhead⟩ := head_short hinv r (by rw [hother]; exact hshort) hne
    obtain ⟨⟨later, hlater⟩, -⟩ := (drain_head (hinv.tracked r).recv.count
      ((hinv.tracked r.other).small m hm) hhead (show 0 < clientBuff by decide)).1 hfits
    have hq : Quiet x (x.recv r none [] (x.net r.other) clientBuff) :=
      Quiet.recv x r none [] _ (List.Perm.refl _)
    have hself : (x.recv r none [] (x.net r.other) clientBuff).ep r =
        { x.ep r with
          kcp := (drain (x.ep r).kcp clientBuff).block
          returned := (x.ep r).returned ++ (drain (x.ep r).kcp clientBuff).messages } :=
      Function.update_self _ _ _
    have hsame : (x.recv r none [] (x.net r.other) clientBuff).ep r.other = x.ep r.other :=
      Function.update_of_ne (Side.other_ne r) _ _
    have hlive' := hlive.quiet hq
    obtain ⟨said', hinv'⟩ := hlive'.inv
    have hmore : 0 < (drain (x.ep r).kcp clientBuff).messages.length := by
      rw [hlater]
      exact Nat.succ_pos _
    have hle := (hinv'.delivered r).length_le
    refine ⟨_, Relation.ReflTransGen.single hq, ⟨hlive', hsame.trans hother, ?_⟩, ?_⟩
    · intro ht
      rw [hself]
      exact drain_keeps (fun _ _ _ _ hlen hr hk => ikcpRecv_tells hlen hr hk) clientBuff
        (htells ht)
    · rw [hself, hsame] at hle ⊢
      dsimp only at hle ⊢
      rw [List.length_append] at hle ⊢
      omega
  · exact ⟨hl, rfl, fun h => h⟩

/-! ## One datagram across -/

/-- Reading the headers of a datagram back tells what it says, however it was built. -/
theorem InFlight.headers {conv : UInt32} {said : Set (Fact (Piece UInt8))} {g : List IKCPSEG}
    (h : InFlight conv said (segmentBytes g)) (hg : ∀ seg ∈ g, Acceptable conv seg) :
    ∀ seg ∈ g, HeardHeader said seg.header seg.data := by
  obtain ⟨segs, heq, -, hhonest⟩ := h
  have hread : g.map (fun seg => (seg.header, seg.data)) =
      segs.map fun seg => (seg.header, seg.data) := by
    have hleft := decodeDatagram_segmentBytes fun seg hs => (hg seg hs).toEncodable
    have hright := decodeDatagram_segmentBytes fun seg hs =>
      (hhonest.acceptable seg hs).toEncodable
    rw [heq, hright] at hleft
    exact (Option.some.inj hleft).symm
  intro seg hs
  have hmem : (seg.header, seg.data) ∈ segs.map fun seg => (seg.header, seg.data) := by
    rw [← hread]
    exact List.mem_map_of_mem hs
  obtain ⟨t, ht, hpair⟩ := List.mem_map.mp hmem
  obtain ⟨hheader, hdata⟩ := Prod.mk.inj hpair
  rw [← hheader, ← hdata]
  exact (hhonest.facts t ht).header (hhonest.acceptable t ht)

theorem InFlight.length_pos {conv : UInt32} {said : Set (Fact (Piece UInt8))} {d : Bytes}
    (h : InFlight conv said d) : 0 < d.length := by
  obtain ⟨segs, rfl, -, hhonest⟩ := h
  have hpos := List.length_pos_iff.mpr hhonest.ne_nil
  have hbytes := length_le_segmentBytes segs
  unfold ikcpOverhead at hbytes
  omega

/-- What is known after one side has flushed at clock `c` and one datagram of that flush,
with the segments `g`, has been delivered. -/
structure Carried (conv : UInt32) (s s' : State) (a : Side) (c : UInt32) (g : List IKCPSEG) :
    Prop where
  continues : Continues s s'
  sender : s'.ep a = (s.ep a).update c
  receiver : (s'.ep a.other).kcp =
    (drain (inputTail (inputSegments { kcp := (s.ep a.other).kcp } g)
      (s.ep a.other).kcp.sndUna) clientBuff).block
  emitted : ∀ seg ∈ g, seg ∈ updateSegments (s.ep a).kcp c
  ne_nil : g ≠ []
  heard : ∃ said, Inv (InFlight conv) conv (s.update a c) said ∧
    ∀ seg ∈ g, HeardHeader (said a) seg.header seg.data

/-- A segment that a flush emits can be carried across. -/
theorem exists_carried {conv : UInt32} {s : State} (hl : Live conv s) (a : Side) (c : UInt32)
    {seg : IKCPSEG} (hseg : seg ∈ updateSegments (s.ep a).kcp c) :
    ∃ s' g, Carried conv s s' a c g ∧ seg ∈ g := by
  have hq : Quiet s (s.update a c) := Quiet.update s a c
  have hsound := sound_of_reachable hl.reachable
  obtain ⟨said, hinv⟩ := (hl.quiet hq).inv
  obtain ⟨groups, hflat, hsent, hne, hfit⟩ := (hsound a).update_groups c
  rw [← hflat] at hseg
  obtain ⟨g, hg, hmem⟩ := List.mem_flatten.mp hseg
  have hall : ∀ t ∈ g, t ∈ updateSegments (s.ep a).kcp c := by
    intro t ht
    rw [← hflat]
    exact List.mem_flatten_of_mem hg ht
  have hnet : (s.update a c).net a = s.net a ++ (kcpUpdate (s.ep a).kcp c).2 :=
    Function.update_self _ _ _
  have hd : segmentBytes g ∈ (s.update a c).net a := by
    rw [hnet, hsent]
    exact List.mem_append_right _ (List.mem_map_of_mem hg)
  have hflight := hinv.flight a _ hd
  have hacc : ∀ t ∈ g, Acceptable conv t := fun t ht => (hsound a).updateSegments (hall t ht)
  have hperm : ((s.update a c).net a.other.other).Perm
      ((none : Option Bytes).toList ++ [segmentBytes g] ++
        ((s.update a c).net a).erase (segmentBytes g)) := by
    rw [Side.other_other]
    exact List.perm_cons_erase hd
  have hrecv := Quiet.recv (s.update a c) a.other none [segmentBytes g] _ hperm
  have hsender : (s.update a c).ep a = (s.ep a).update c := Function.update_self _ _ _
  have hreceiver : (s.update a c).ep a.other = s.ep a.other :=
    Function.update_of_ne (Side.other_ne a) _ _
  refine ⟨_, g, ⟨(Relation.ReflTransGen.single hq).tail hrecv, ?_, ?_, hall, hne g hg,
    said, hinv, hflight.headers hacc⟩, hmem⟩
  · exact (Function.update_of_ne (Side.other_ne a).symm _ _).trans hsender
  · have htake := (carries_inFlight conv).take hflight
    have hpos := hflight.length_pos
    have hself : ((s.update a c).recv a.other none [segmentBytes g]
        (((s.update a c).net a).erase (segmentBytes g)) clientBuff).ep a.other =
        ((s.update a c).ep a.other).recv none [segmentBytes g] clientBuff :=
      Function.update_self _ _ _
    have hinput := @ikcpInput_segments (s.ep a.other).kcp g (hne g hg)
      fun t ht => (hacc t ht).cast (hsound a.other).conv_eq
    rw [hself, hreceiver]
    unfold Endpoint.recv kcpRecv kcpRecvInput
    simp only [List.map_cons, List.map_nil, recvLoop, htake, if_pos hpos, hinput]

/-! ## What the receiver of a carried datagram is left with -/

section Receiver

variable {conv : UInt32} {s s' : State} {a : Side} {c : UInt32} {g : List IKCPSEG}
  (h : Carried conv s s' a c g)

include h

/-- What the segments brought about and neither the tail of the input nor the drain
loop undoes. -/
theorem Carried.keeps {P : IKCPCB → Prop}
    (hsegs : P (inputSegments { kcp := (s.ep a.other).kcp } g).kcp)
    (htail : ∀ st prevUna, P st.kcp → P (inputTail st prevUna))
    (hrecv : ∀ kcp kcp' len bytes, 0 ≤ len → ikcpRecv kcp len = .ok (bytes, kcp') →
      P kcp → P kcp') : P (s'.ep a.other).kcp := by
  rw [h.receiver]
  exact drain_keeps hrecv clientBuff (htail _ _ hsegs)

theorem Carried.acklist {ack : UInt32 × UInt32}
    (hack : ack ∈ (inputSegments { kcp := (s.ep a.other).kcp } g).kcp.acklist) :
    ack ∈ (s'.ep a.other).kcp.acklist := by
  apply h.keeps (P := fun k => ack ∈ k.acklist) hack
  · intro st prevUna hst
    rw [inputTail_eq]
    exact hst
  · intro kcp kcp' len bytes hlen hr hk
    obtain ⟨-, -, -, -, probe, rfl, -⟩ := ikcpRecv_ok hlen hr
    exact hk

theorem Carried.rmtWnd {wnd : UInt32} (hwnd : ∀ seg ∈ g, seg.header.wnd.toUInt32 = wnd) :
    (s'.ep a.other).kcp.rmtWnd = wnd := by
  apply h.keeps (P := fun k => k.rmtWnd = wnd) (inputSegments_rmtWnd h.ne_nil hwnd)
  · intro st prevUna hst
    rw [inputTail_eq]
    exact hst
  · intro kcp kcp' len bytes hlen hr hk
    obtain ⟨-, -, -, -, probe, rfl, -⟩ := ikcpRecv_ok hlen hr
    exact hk

theorem Carried.tells {seg : IKCPSEG} (hseg : seg ∈ g)
    (hcmd : seg.header.cmd.toUInt32 = ikcpCmdWask) : Tells (s'.ep a.other).kcp := by
  apply h.keeps
  · exact inputSegments_reach (fun st h payload ht => inputSegment_tell st h payload ht) hseg
      fun st => inputSegment_wask st seg.header seg.data hcmd
  · intro st prevUna hst
    rw [inputTail_eq]
    exact hst
  · exact fun _ _ _ _ hlen hr hk => ikcpRecv_tells hlen hr hk

/-- A number that the segments took out of the send buffer stays out. -/
theorem Carried.gone {n : ℕ}
    (hgone : n ∉ sns (inputSegments { kcp := (s.ep a.other).kcp } g).kcp.sndBuf) :
    n ∉ sns (s'.ep a.other).kcp.sndBuf := by
  apply h.keeps (P := fun k => n ∉ sns k.sndBuf) hgone
  · exact fun st prevUna hst hin => hst ((sns_sublist (SendKept.inputTail st prevUna)).mem hin)
  · exact fun _ _ _ _ hlen hr hk hin => hk ((sns_sublist (SendKept.recv hlen hr)).mem hin)

theorem Carried.sendKept : SendKept (s.ep a.other).kcp (s'.ep a.other).kcp := by
  apply h.keeps
  · exact inputSegments_keeps (fun st h payload hk => hk.trans (SendKept.inputSegment st h payload))
      g (SendKept.refl _)
  · exact fun st prevUna hk => hk.trans (SendKept.inputTail st prevUna)
  · exact fun _ _ _ _ hlen hr hk => hk.trans (SendKept.recv hlen hr)

end Receiver

/-! ## What the sender still holds -/

/-- Segments queued or buffered for sending. -/
def backlog (kcp : IKCPCB) : ℕ := kcp.sndQueue.length + kcp.sndBuf.length

theorem cores_length (segs : List IKCPSEG) : (cores segs).length = segs.length := List.length_map _

theorem backlog_le_of_kept {kcp kcp' : IKCPCB} (h : SendKept kcp kcp') :
    backlog kcp' ≤ backlog kcp := by
  have hlen := h.buf.length_le
  rw [cores_length, cores_length] at hlen
  unfold backlog
  rw [h.queue]
  omega

/-- A number that leaves the buffer makes the backlog smaller. -/
theorem backlog_lt_of_gone {kcp kcp' : IKCPCB} (h : SendKept kcp kcp') {n : ℕ}
    (hin : n ∈ sns kcp.sndBuf) (hout : n ∉ sns kcp'.sndBuf) : backlog kcp' < backlog kcp := by
  have hsub := sns_sublist h
  have hlt : kcp'.sndBuf.length < kcp.sndBuf.length := by
    by_contra hge
    have hlen : (sns kcp.sndBuf).length ≤ (sns kcp'.sndBuf).length := by
      unfold sns
      rw [List.length_map, List.length_map]
      exact Nat.le_of_not_lt hge
    exact hout (hsub.eq_of_length_le hlen ▸ hin)
  unfold backlog
  rw [h.queue]
  omega

theorem kcpUpdate_backlog (block : IKCPCB) (dlt : UInt32) :
    backlog (kcpUpdate block dlt).1 = backlog block := by
  obtain ⟨opened, hbuf, hdrop, hle⟩ := kcpUpdate_moved block dlt
  have hlen := congrArg List.length hbuf
  rw [List.length_append, cores_length, cores_length, cores_length] at hlen
  unfold backlog
  rw [hdrop, List.length_drop]
  omega

theorem Continues.backlog_le {s s' : State} (h : Continues s s') (side : Side) :
    backlog (s'.ep side).kcp ≤ backlog (s.ep side).kcp := by
  induction h with
  | refl => exact Nat.le_refl _
  | @tail x y _ hq ih =>
      have hrefl : ∀ side, backlog (x.ep side).kcp ≤ backlog (x.ep side).kcp :=
        fun _ => Nat.le_refl _
      refine Nat.le_trans ?_ ih
      cases hq with
      | update sd dlt =>
          exact @forall_update (fun side e => backlog e.kcp ≤ backlog (x.ep side).kcp) _ _ _
            (Nat.le_of_eq (kcpUpdate_backlog _ dlt)) hrefl side
      | recv sd input pending rest hnet =>
          exact @forall_update (fun side e => backlog e.kcp ≤ backlog (x.ep side).kcp) _ _ _
            (backlog_le_of_kept (kcpRecv_sendKept _ input _ clientBuff)) hrefl side

end UdpKcp.Link
