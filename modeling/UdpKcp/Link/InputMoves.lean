import UdpKcp.Link.Halves

/-! # Input refines hearing

Every segment that `ikcp_input` reads is heard as its facts: `una` drops the
pieces below it, an acknowledgement drops one, data is put aside and promoted as
far as the queue has room.
-/

namespace UdpKcp.Link

open ByteCodec (Bytes)
open Framing (Piece)
open SelectiveRepeat (Fact Peer Move Moves)
open Ikcp Plug

/-! ## Insertion into rcv_buf -/

theorem sns_numbers (segs : List IKCPSEG) : sns segs = (numbers segs).map UInt32.toNat := by
  unfold sns numbers
  rw [List.map_map]
  rfl

/-- Below half the circle an ascending buffer is a window from zero. -/
theorem ascending_iff_window {segs : List IKCPSEG} {size : ℕ} :
    (Ascending segs ∧ ∀ n ∈ sns segs, n < size) ↔ Serial.Window 0 size (numbers segs) := by
  unfold Ascending
  rw [sns_numbers, List.pairwise_map]
  constructor
  · rintro ⟨hasc, hsmall⟩
    exact ⟨by simpa using hasc, fun n hn => by simpa using hsmall n.toNat (List.mem_map_of_mem hn)⟩
  · intro h
    refine ⟨by simpa using h.ascending, ?_⟩
    intro n hn
    obtain ⟨x, hx, rfl⟩ := List.mem_map.mp hn
    simpa using h.inside x hx

theorem mem_sns_iff {segs : List IKCPSEG} {x : UInt32} : x.toNat ∈ sns segs ↔ x ∈ numbers segs := by
  rw [sns_numbers]
  exact List.mem_map_of_injective fun _ _ h => UInt32.toNat_inj.mp h

/-- The buffer after an insertion, in ascending order again. -/
theorem insert_reverse {newseg : IKCPSEG} {buf : List IKCPSEG}
    (hnew : newseg.sn.toNat < halfCircle) (hsmall : ∀ n ∈ sns buf, n < halfCircle)
    (hasc : Ascending buf) :
    (insertFromTail newseg buf.reverse = none ∧ newseg.sn.toNat ∈ sns buf) ∨
      ∃ out, insertFromTail newseg buf.reverse = some out ∧ newseg.sn.toNat ∉ sns buf ∧
        out.reverse.Perm (newseg :: buf) ∧ Ascending out.reverse := by
  have hnew' : Serial.offset 0 newseg.sn < halfCircle := by simpa using hnew
  have hwindow := ascending_iff_window.mp ⟨hasc, hsmall⟩
  rw [mem_sns_iff]
  rcases insert_window hwindow (Nat.le_refl _) hnew' with h | ⟨out, hsome, hnot, hperm, hout⟩
  · exact Or.inl h
  · exact Or.inr ⟨out, hsome, hnot, hperm, (ascending_iff_window.mpr hout).1⟩

/-! ## The data branch -/

/-- The block with one more segment in its buffer, before the move loop. -/
theorem inserted_moves {taken : List (Piece UInt8)} {kcp : IKCPCB} {newseg : IKCPSEG}
    {out : List IKCPSEG} {heard : Set (Fact (Piece UInt8))} (stream : List (Piece UInt8))
    (said : Set (Fact (Piece UInt8))) (nrcvBuf : ℕ) (h : RecvLoose taken kcp)
    (hheard : .data newseg.sn.toNat (piece newseg) ∈ heard)
    (hge : kcp.rcvNxt.toNat ≤ newseg.sn.toNat) (hlt : newseg.sn.toNat + 1 < halfCircle)
    (hperm : out.Perm (newseg :: kcp.rcvBuf)) (hasc : Ascending out) :
    Moves heard (view stream taken said kcp)
        (view stream taken said { kcp with rcvBuf := out, nrcvBuf := nrcvBuf }) ∧
      RecvLoose taken { kcp with rcvBuf := out, nrcvBuf := nrcvBuf } := by
  have hsns : ∀ n, n ∈ sns out ↔ n = newseg.sn.toNat ∨ n ∈ sns kcp.rcvBuf := by
    intro n
    exact ((hperm.map _).mem_iff).trans List.mem_cons
  have hitems : {e | e ∈ items out} =
      insert (newseg.sn.toNat, piece newseg) {e | e ∈ items kcp.rcvBuf} := by
    ext e
    exact ((hperm.map _).mem_iff).trans List.mem_cons
  constructor
  · apply Relation.ReflTransGen.single
    have hmove := Move.hearData (view stream taken said kcp) _ _ hheard
    simpa [view, hitems] using hmove
  · refine ⟨h.wnd, h.nxt, h.nxt_lt, h.count, h.count_le, hasc, ?_, ?_⟩
    · intro n hn
      rcases (hsns n).mp hn with rfl | hn
      · exact ⟨hge, hlt⟩
      · exact h.ahead n hn
    · intro ack hack
      exact (h.acks ack hack).imp_right fun hn => (hsns _).mpr (Or.inr hn)

theorem RecvLoose.ackPush {taken : List (Piece UInt8)} {kcp : IKCPCB} (h : RecvLoose taken kcp)
    (sn ts : UInt32) (hsn : sn.toNat < kcp.rcvNxt.toNat ∨ sn.toNat ∈ sns kcp.rcvBuf) :
    RecvLoose taken (ikcpAckPush kcp sn ts) := by
  refine ⟨h.wnd, h.nxt, h.nxt_lt, h.count, h.count_le, h.ascending, h.ahead, ?_⟩
  intro ack hack
  rcases List.mem_append.mp hack with hack | hack
  · exact h.acks ack hack
  · rw [List.mem_singleton.mp hack]
    exact hsn

/-- A segment inside the window: acknowledged, put aside, promoted when it is next. -/
theorem parseData_moves {taken : List (Piece UInt8)} {kcp : IKCPCB} {newseg : IKCPSEG}
    {heard : Set (Fact (Piece UInt8))} (stream : List (Piece UInt8))
    (said : Set (Fact (Piece UInt8))) (ts : UInt32)
    (hr : RecvLoose taken kcp) (hheard : .data newseg.sn.toNat (piece newseg) ∈ heard)
    (hwindow : itimediff newseg.sn (kcp.rcvNxt + kcp.rcvWnd) < 0)
    (hnew : itimediff newseg.sn kcp.rcvNxt ≥ 0) (hlt : newseg.sn.toNat + 1 < halfCircle) :
    Moves heard (view stream taken said kcp)
        (view stream taken said (ikcpParseData (ikcpAckPush kcp newseg.sn ts) newseg)) ∧
      RecvShape taken (ikcpParseData (ikcpAckPush kcp newseg.sn ts) newseg) := by
  have hsn : newseg.sn.toNat < halfCircle := by omega
  have hge : kcp.rcvNxt.toNat ≤ newseg.sn.toNat := by
    rw [itimediff_small hsn hr.nxt_lt] at hnew
    omega
  have hguard : ¬ (itimediff newseg.sn (kcp.rcvNxt + kcp.rcvWnd) ≥ 0 ∨
      itimediff newseg.sn kcp.rcvNxt < 0) := by omega
  have hsmall : ∀ n ∈ sns kcp.rcvBuf, n < halfCircle := by
    intro n hn
    have hahead := (hr.ahead n hn).2
    omega
  unfold ikcpParseData
  rw [if_neg (show ¬ (itimediff newseg.sn ((ikcpAckPush kcp newseg.sn ts).rcvNxt +
    (ikcpAckPush kcp newseg.sn ts).rcvWnd) ≥ 0 ∨
    itimediff newseg.sn (ikcpAckPush kcp newseg.sn ts).rcvNxt < 0) from hguard)]
  dsimp only
  rcases insert_reverse hsn hsmall hr.ascending with
    ⟨hnone, hmem⟩ | ⟨out, hsome, hnot, hperm, hasc⟩
  · rw [show insertFromTail newseg (ikcpAckPush kcp newseg.sn ts).rcvBuf.reverse = none from hnone]
    exact moveRcvBuf_moves (hr.ackPush newseg.sn ts (Or.inr hmem)) stream heard said
  · rw [show insertFromTail newseg (ikcpAckPush kcp newseg.sn ts).rcvBuf.reverse = some out
      from hsome]
    obtain ⟨hinsert, hloose⟩ := inserted_moves stream said (kcp.nrcvBuf + 1) hr hheard hge
      hlt hperm hasc
    have hin : newseg.sn.toNat ∈ sns out.reverse :=
      (hperm.map _).mem_iff.mpr List.mem_cons_self
    obtain ⟨hmove, hshape⟩ :=
      moveRcvBuf_moves (hloose.ackPush newseg.sn ts (Or.inr hin)) stream heard said
    exact ⟨hinsert.trans hmove, hshape⟩

/-- The data branch: inside or below the window the number is acknowledged. -/
theorem inputPush_moves {taken : List (Piece UInt8)} {kcp : IKCPCB} {h : SegHeader}
    {payload : Bytes} {heard : Set (Fact (Piece UInt8))} (stream : List (Piece UInt8))
    (said : Set (Fact (Piece UInt8)))
    (hr : RecvShape taken kcp) (hheard : .data h.sn.toNat (h.frg.toUInt32.toNat, payload) ∈ heard)
    (hlt : h.sn.toNat + 1 < halfCircle) :
    Moves heard (view stream taken said kcp)
        (view stream taken said (inputPush kcp h payload)) ∧
      RecvShape taken (inputPush kcp h payload) := by
  unfold inputPush
  by_cases hwindow : itimediff h.sn (kcp.rcvNxt + kcp.rcvWnd) < 0
  · rw [if_pos hwindow]
    by_cases hnew : itimediff h.sn kcp.rcvNxt ≥ 0
    · dsimp only
      rw [if_pos (show itimediff h.sn (ikcpAckPush kcp h.sn h.ts).rcvNxt ≥ 0 from hnew)]
      exact @parseData_moves taken kcp (receivedSegment h payload) heard stream said h.ts
        hr.toRecvLoose hheard hwindow hnew hlt
    · have hold : h.sn.toNat < kcp.rcvNxt.toNat := by
        rw [itimediff_small (by omega) hr.nxt_lt] at hnew
        omega
      have hloose := hr.ackPush h.sn h.ts (Or.inl hold)
      have hsame : RecvShape taken (ikcpAckPush kcp h.sn h.ts) := ⟨hloose, hr.ready⟩
      dsimp only
      rw [if_neg (show ¬ itimediff h.sn (ikcpAckPush kcp h.sn h.ts).rcvNxt ≥ 0 from hnew)]
      exact ⟨Relation.ReflTransGen.refl, hsame⟩
  · rw [if_neg hwindow]
    exact ⟨Relation.ReflTransGen.refl, hr⟩

/-! ## Whole datagrams -/

/-- A step of the block that its peer can follow. -/
structure Follows (heard : Set (Fact (Piece UInt8))) (stream taken : List (Piece UInt8))
    (said : Set (Fact (Piece UInt8))) (kcp kcp' : IKCPCB) : Prop where
  moves : Moves heard (view stream taken said kcp) (view stream taken said kcp')
  send : SendShape stream kcp'
  recv : RecvShape taken kcp'

section Follows

variable {heard said : Set (Fact (Piece UInt8))} {stream taken : List (Piece UInt8)}
  {kcp kcp' kcp'' : IKCPCB}

theorem Follows.refl (hs : SendShape stream kcp) (hr : RecvShape taken kcp) :
    Follows heard stream taken said kcp kcp :=
  ⟨Relation.ReflTransGen.refl, hs, hr⟩

theorem Follows.trans (hab : Follows heard stream taken said kcp kcp')
    (hbc : Follows heard stream taken said kcp' kcp'') :
    Follows heard stream taken said kcp kcp'' :=
  ⟨hab.moves.trans hbc.moves, hbc.send, hbc.recv⟩

/-- Fields outside the view may change freely. -/
theorem Follows.same (h : Follows heard stream taken said kcp kcp')
    (hsend : SendSame kcp' kcp'') (hrecv : RecvSame kcp' kcp'') :
    Follows heard stream taken said kcp kcp'' := by
  refine ⟨?_, h.send.same hsend, h.recv.same hrecv⟩
  rw [view_same hsend hrecv]
  exact h.moves

/-- What every segment does first: hear its `una`. -/
theorem inputCommon_follows (hs : SendShape stream kcp) (hr : RecvShape taken kcp) {h : SegHeader}
    (hcum : .cum h.una.toNat ∈ heard) (hsmall : h.una.toNat < halfCircle) :
    Follows heard stream taken said kcp (inputCommon kcp h) := by
  have hsame : RecvSame kcp (inputCommon kcp h) := ⟨rfl, rfl, rfl, rfl, rfl, rfl⟩
  refine ⟨?_, hs.kept (SendKept.inputCommon kcp h) rfl, hr.same hsame⟩
  have hpending : ∀ n, n ∈ sns (inputCommon kcp h).sndBuf ↔
      n ∈ {i ∈ {i | i ∈ sns kcp.sndBuf} | h.una.toNat ≤ i} := fun n =>
    mem_dropUnacked hsmall hs.ascending fun _ hn => hs.small hn
  rw [view_pending (show (inputCommon kcp h).sndNxt = kcp.sndNxt from rfl) hsame hpending]
  exact Relation.ReflTransGen.single (Move.hearCum (view stream taken said kcp) _ hcum)

/-- Hear one acknowledgement. -/
theorem parseAck_follows (hs : SendShape stream kcp) (hr : RecvShape taken kcp) {sn : UInt32}
    (hack : .ack sn.toNat ∈ heard) (hsmall : sn.toNat < halfCircle) :
    Follows heard stream taken said kcp (ikcpShrinkBuf (ikcpParseAck kcp sn)) := by
  have hsame : RecvSame kcp (ikcpShrinkBuf (ikcpParseAck kcp sn)) := by
    unfold ikcpParseAck
    split <;> exact ⟨rfl, rfl, rfl, rfl, rfl, rfl⟩
  have hkept : SendKept kcp (ikcpShrinkBuf (ikcpParseAck kcp sn)) := by
    have hparse := SendKept.parseAck kcp sn
    exact ⟨hparse.queue, hparse.nxt, hparse.buf⟩
  refine ⟨?_, hs.kept hkept rfl, hr.same hsame⟩
  by_cases hguard : itimediff sn kcp.sndUna < 0 ∨ itimediff sn kcp.sndNxt ≥ 0
  · have heq : ikcpParseAck kcp sn = kcp := if_pos hguard
    have hbuf : SendSame kcp (ikcpShrinkBuf (ikcpParseAck kcp sn)) := by
      rw [heq]
      exact ⟨rfl, rfl, hs.una.symm, rfl⟩
    rw [view_same hbuf hsame]
  · have hpending : ∀ n, n ∈ sns (ikcpShrinkBuf (ikcpParseAck kcp sn)).sndBuf ↔
        n ∈ {i | i ∈ sns kcp.sndBuf} \ {sn.toNat} := by
      intro n
      unfold ikcpParseAck
      rw [if_neg hguard]
      exact mem_removeAcked hsmall hs.ascending fun _ hn => hs.small hn
    rw [view_pending hkept.nxt hsame hpending]
    exact Relation.ReflTransGen.single (Move.hearAck (view stream taken said kcp) _ hack)

theorem inputAck_follows {st : InputState} (hs : SendShape stream st.kcp)
    (hr : RecvShape taken st.kcp) {h : SegHeader} (hack : .ack h.sn.toNat ∈ heard)
    (hsmall : h.sn.toNat < halfCircle) :
    Follows heard stream taken said st.kcp (inputAck st h).kcp := by
  have hrefl : Follows heard stream taken said st.kcp st.kcp := Follows.refl hs hr
  apply inputAck_of hrefl
  · intro rtt
    rw [ikcpUpdateAck_eq]
    exact hrefl.same ⟨rfl, rfl, rfl, rfl⟩ ⟨rfl, rfl, rfl, rfl, rfl, rfl⟩
  · exact fun kcp hkcp => hkcp.trans (parseAck_follows hkcp.send hkcp.recv hack hsmall)

/-- What a received segment asserts, in terms of its header and payload. -/
structure HeardHeader (heard : Set (Fact (Piece UInt8))) (h : SegHeader) (payload : Bytes) :
    Prop where
  cum : .cum h.una.toNat ∈ heard
  data : h.cmd.toUInt32 = ikcpCmdPush →
    .data h.sn.toNat (h.frg.toUInt32.toNat, payload) ∈ heard
  ack : h.cmd.toUInt32 = ikcpCmdAck → .ack h.sn.toNat ∈ heard

theorem inputSegment_follows {st : InputState} (hbound : ∀ f ∈ heard, reach f < halfCircle)
    (hs : SendShape stream st.kcp) (hr : RecvShape taken st.kcp) {h : SegHeader}
    {payload : Bytes} (hh : HeardHeader heard h payload) :
    Follows heard stream taken said st.kcp (inputSegment st h payload).kcp := by
  have hcommon : Follows heard stream taken said st.kcp (inputCommon st.kcp h) :=
    inputCommon_follows hs hr hh.cum (hbound _ hh.cum)
  rcases inputSegment_cases st h payload with
    ⟨hack, heq⟩ | ⟨hpush, heq⟩ | ⟨-, heq⟩ | ⟨-, -, -, heq⟩
  · have hreach : h.sn.toNat + 1 < halfCircle := hbound _ (hh.ack hack)
    rw [heq]
    exact hcommon.trans (@inputAck_follows _ said _ _ { st with kcp := inputCommon st.kcp h }
      hcommon.send hcommon.recv h (hh.ack hack) (by omega))
  · have hdata := inputPush_moves stream said hcommon.recv (hh.data hpush)
      (hbound _ (hh.data hpush))
    have hsend : SendShape stream (inputPush (inputCommon st.kcp h) h payload) := by
      apply hcommon.send.same
      rw [inputPush_eq]
      exact ⟨rfl, rfl, rfl, rfl⟩
    rw [heq]
    exact hcommon.trans ⟨hdata.1, hsend, hdata.2⟩
  · rw [heq]
    exact hcommon.same ⟨rfl, rfl, rfl, rfl⟩ ⟨rfl, rfl, rfl, rfl, rfl, rfl⟩
  · rw [heq]
    exact hcommon

theorem inputSegments_follows {st : InputState} (hbound : ∀ f ∈ heard, reach f < halfCircle)
    (hs : SendShape stream st.kcp) (hr : RecvShape taken st.kcp) {segs : List IKCPSEG}
    (hh : ∀ seg ∈ segs, HeardHeader heard seg.header seg.data) :
    Follows heard stream taken said st.kcp (inputSegments st segs).kcp := by
  induction segs generalizing st with
  | nil => exact Follows.refl hs hr
  | cons seg segs ih =>
      have hfirst : Follows heard stream taken said st.kcp
          (inputSegment st seg.header seg.data).kcp :=
        inputSegment_follows hbound hs hr (hh seg List.mem_cons_self)
      have hrest := ih hfirst.send hfirst.recv fun s hs => hh s (List.mem_cons_of_mem _ hs)
      exact hfirst.trans hrest

theorem inputTail_follows {st : InputState} (prevUna : UInt32)
    (h : Follows heard stream taken said kcp st.kcp) :
    Follows heard stream taken said kcp (inputTail st prevUna) := by
  have hcores : cores (inputTail st prevUna).sndBuf = cores st.kcp.sndBuf := by
    unfold inputTail ikcpParseFastack
    rw [inputCwnd_eq]
    split_ifs
    · rfl
    · exact countFastack_cores _ _
    · rfl
  rw [inputTail_eq]
  exact h.same ⟨rfl, rfl, rfl, hcores⟩ ⟨rfl, rfl, rfl, rfl, rfl, rfl⟩

end Follows

/-- A datagram on the wire: whole segments for the conversation, all of them facts. -/
structure Honest (conv : UInt32) (heard : Set (Fact (Piece UInt8))) (segs : List IKCPSEG) :
    Prop where
  ne_nil : segs ≠ []
  acceptable : ∀ seg ∈ segs, Acceptable conv seg
  facts : ∀ seg ∈ segs, Heard heard seg

theorem Heard.header {conv : UInt32} {heard : Set (Fact (Piece UInt8))} {seg : IKCPSEG}
    (hacc : Acceptable conv seg) (h : Heard heard seg) : HeardHeader heard seg.header seg.data := by
  have hcarries := hacc.toEncodable.carries
  have hcmd : seg.header.cmd.toUInt32 = seg.cmd := hcarries.cmd
  have hfrg : seg.header.frg.toUInt32 = seg.frg := hcarries.frg
  refine ⟨h.cum, ?_, ?_⟩
  · intro hpush
    rw [hfrg]
    exact h.data (hcmd.symm.trans hpush)
  · intro hack
    exact h.ack (hcmd.symm.trans hack)

/-- `ikcp_input` of an honest datagram. -/
theorem ikcpInput_follows {heard said : Set (Fact (Piece UInt8))}
    {stream taken : List (Piece UInt8)} {kcp : IKCPCB}
    (hbound : ∀ f ∈ heard, reach f < halfCircle) (hs : SendShape stream kcp)
    (hr : RecvShape taken kcp) {segs : List IKCPSEG} (hh : Honest kcp.conv heard segs) :
    Follows heard stream taken said kcp (ikcpInput kcp (segmentBytes segs)).1 := by
  rw [ikcpInput_segments hh.ne_nil hh.acceptable]
  apply inputTail_follows
  exact @inputSegments_follows _ said _ _ { kcp := kcp } hbound hs hr _ fun seg hseg =>
    (hh.facts seg hseg).header (hh.acceptable seg hseg)

/-- `ikcp_input` of an honest datagram cut short: what is no longer whole says nothing. -/
theorem ikcpInput_cut_follows {heard said : Set (Fact (Piece UInt8))}
    {stream taken : List (Piece UInt8)} {kcp : IKCPCB}
    (hbound : ∀ f ∈ heard, reach f < halfCircle) (hs : SendShape stream kcp)
    (hr : RecvShape taken kcp) {segs : List IKCPSEG} (hh : Honest kcp.conv heard segs) (n : ℕ) :
    Follows heard stream taken said kcp (ikcpInput kcp ((segmentBytes segs).take n)).1 := by
  obtain ⟨whole, hwhole, hread⟩ := ikcpInput_take hh.acceptable n
  have hsegments : Follows heard stream taken said kcp
      (inputSegments { kcp := kcp } whole).kcp := by
    apply @inputSegments_follows _ said _ _ { kcp := kcp } hbound hs hr
    intro seg hseg
    have hmem := hwhole.subset hseg
    exact (hh.facts seg hmem).header (hh.acceptable seg hmem)
  rcases hread with hstop | hend
  · rw [hstop]
    exact hsegments
  · rw [hend]
    exact inputTail_follows kcp.sndUna hsegments

end UdpKcp.Link
