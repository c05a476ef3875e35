import UdpKcp.Link.Invariant
import UdpKcp.Plug.Emission

/-! # What one datagram achieves

The effects that keep an exchange going: data inside the window is entered in
the ack list, an acknowledgement empties its place in the send buffer, a probe
is remembered, and every segment refreshes the remote window. Each effect
outlasts the rest of the datagram and the drain loop.
-/

namespace UdpKcp.Link

open ByteCodec (Bytes)
open Framing (Piece)
open SelectiveRepeat (Fact Peer Move Moves Half Side)
open Ikcp Plug

/-! ## One segment -/

theorem inputPush_acklist (kcp : IKCPCB) (h : SegHeader) (payload : Bytes) :
    (inputPush kcp h payload).acklist =
      if itimediff h.sn (kcp.rcvNxt + kcp.rcvWnd) < 0 then kcp.acklist ++ [(h.sn, h.ts)]
      else kcp.acklist := by
  unfold inputPush ikcpParseData
  by_cases hwindow : itimediff h.sn (kcp.rcvNxt + kcp.rcvWnd) < 0
  · rw [if_pos hwindow, if_pos hwindow]
    dsimp only
    split_ifs
    · rfl
    · cases insertFromTail (receivedSegment h payload) (ikcpAckPush kcp h.sn h.ts).rcvBuf.reverse
      · rfl
      · rfl
    · rfl
  · rw [if_neg hwindow, if_neg hwindow]

section Segment

variable (st : InputState) (h : SegHeader) (payload : Bytes)

theorem inputSegment_rmtWnd : (inputSegment st h payload).kcp.rmtWnd = h.wnd.toUInt32 := by
  refine @inputSegment_of (fun kcp => kcp.rmtWnd = h.wnd.toUInt32) _ _ _ rfl ?_ ?_ rfl
  · have hrest := congrArg IKCPCB.rmtWnd
      (inputAck_unacked { st with kcp := inputCommon st.kcp h } h)
    exact hrest
  · rw [inputPush_eq]
    rfl

theorem inputSegment_acklist : st.kcp.acklist <+: (inputSegment st h payload).kcp.acklist := by
  refine @inputSegment_of (fun kcp => st.kcp.acklist <+: kcp.acklist) _ _ _ List.prefix_rfl
    ?_ ?_ List.prefix_rfl
  · have hacks : (inputAck { st with kcp := inputCommon st.kcp h } h).kcp.acklist =
        st.kcp.acklist := by
      have hrest := congrArg IKCPCB.acklist
        (inputAck_unacked { st with kcp := inputCommon st.kcp h } h)
      exact hrest
    rw [hacks]
  · rw [inputPush_acklist]
    split
    · exact List.prefix_append _ _
    · exact List.prefix_rfl

/-- A request for the window stays remembered. -/
theorem inputSegment_tell (htell : st.kcp.probe &&& ikcpAskTell ≠ 0) :
    (inputSegment st h payload).kcp.probe &&& ikcpAskTell ≠ 0 := by
  refine @inputSegment_of (fun kcp => kcp.probe &&& ikcpAskTell ≠ 0) _ _ _ htell ?_ ?_
    (or_and_ne_zero htell)
  · have hprobe : (inputAck { st with kcp := inputCommon st.kcp h } h).kcp.probe =
        st.kcp.probe := by
      have hrest := congrArg IKCPCB.probe
        (inputAck_unacked { st with kcp := inputCommon st.kcp h } h)
      exact hrest
    rw [hprobe]
    exact htell
  · rw [inputPush_eq]
    exact htell

theorem inputSegment_wask (hcmd : h.cmd.toUInt32 = ikcpCmdWask) :
    (inputSegment st h payload).kcp.probe &&& ikcpAskTell ≠ 0 := by
  have hack : ikcpCmdWask ≠ ikcpCmdAck := by decide
  have hpush : ikcpCmdWask ≠ ikcpCmdPush := by decide
  rcases inputSegment_cases st h payload with ⟨hc, -⟩ | ⟨hc, -⟩ | ⟨-, heq⟩ | ⟨-, -, hc, -⟩
  · exact absurd (hcmd.symm.trans hc) hack
  · exact absurd (hcmd.symm.trans hc) hpush
  · rw [heq]
    show (_ ||| ikcpAskTell) &&& ikcpAskTell ≠ 0
    rw [UInt32.or_comm]
    exact or_and_ne_zero (by decide)
  · exact absurd hcmd hc

end Segment

/-! ## The rest of the datagram -/

/-- What every segment keeps, a run of segments keeps. -/
theorem inputSegments_keeps {P : IKCPCB → Prop}
    (hseg : ∀ st h payload, P st.kcp → P (inputSegment st h payload).kcp) {st : InputState}
    (segs : List IKCPSEG) (hP : P st.kcp) : P (inputSegments st segs).kcp := by
  induction segs generalizing st with
  | nil => exact hP
  | cons seg segs ih => exact ih (hseg st seg.header seg.data hP)

/-- A property that one segment brings about and the others keep. -/
theorem inputSegments_reach {P : IKCPCB → Prop}
    (hseg : ∀ st h payload, P st.kcp → P (inputSegment st h payload).kcp) {st : InputState}
    {segs : List IKCPSEG} {seg : IKCPSEG} (hmem : seg ∈ segs)
    (hP : ∀ st, P (inputSegment st seg.header seg.data).kcp) : P (inputSegments st segs).kcp := by
  induction segs generalizing st with
  | nil => exact absurd hmem List.not_mem_nil
  | cons s segs ih =>
      rcases List.mem_cons.mp hmem with rfl | hmem
      · exact inputSegments_keeps hseg segs (hP st)
      · exact ih hmem

theorem inputSegments_rmtWnd {st : InputState} {segs : List IKCPSEG} {wnd : UInt32}
    (hne : segs ≠ []) (hwnd : ∀ seg ∈ segs, seg.header.wnd.toUInt32 = wnd) :
    (inputSegments st segs).kcp.rmtWnd = wnd := by
  induction segs generalizing st with
  | nil => exact absurd rfl hne
  | cons seg segs ih =>
      cases segs with
      | nil =>
          rw [inputSegments_cons, inputSegments_nil, inputSegment_rmtWnd]
          exact hwnd seg List.mem_cons_self
      | cons seg' segs =>
          exact ih (by simp) fun s hs => hwnd s (List.mem_cons_of_mem _ hs)

/-! ## Acknowledgements -/

theorem parseAck_removes {stream : List (Piece UInt8)} {kcp : IKCPCB} {sn : UInt32}
    (hs : SendShape stream kcp) (hsmall : sn.toNat < halfCircle) :
    sn.toNat ∉ sns (ikcpShrinkBuf (ikcpParseAck kcp sn)).sndBuf := by
  have hnxt := hs.nxt_lt
  have hle := hs.una_le_nxt
  unfold ikcpParseAck
  by_cases hguard : itimediff sn kcp.sndUna < 0 ∨ itimediff sn kcp.sndNxt ≥ 0
  · rw [if_pos hguard]
    rw [itimediff_small hsmall (by omega), itimediff_small hsmall hnxt] at hguard
    intro hmem
    have hlow := hs.una_le hmem
    have hhigh := hs.below _ hmem
    omega
  · rw [if_neg hguard]
    intro hmem
    have hremoved := (mem_removeAcked hsmall hs.ascending fun _ hn => hs.small hn).mp hmem
    exact hremoved.2 rfl

theorem inputAck_removes {stream : List (Piece UInt8)} {st : InputState} {h : SegHeader}
    (hs : SendShape stream st.kcp) (hsmall : h.sn.toNat < halfCircle) :
    h.sn.toNat ∉ sns (inputAck st h).kcp.sndBuf := by
  refine @inputAck_of (fun kcp => h.sn.toNat ∉ sns kcp.sndBuf) _ st h hs ?_
    fun kcp hkcp => parseAck_removes hkcp hsmall
  intro rtt
  rw [ikcpUpdateAck_eq]
  exact hs.same ⟨rfl, rfl, rfl, rfl⟩

section Datagram

variable {heard said : Set (Fact (Piece UInt8))} {stream taken : List (Piece UInt8)}

/-- After its acknowledgement a number is gone from the send buffer. -/
theorem inputSegments_acked {st : InputState} (hbound : ∀ f ∈ heard, reach f < halfCircle)
    (hs : SendShape stream st.kcp) (hr : RecvShape taken st.kcp) {segs : List IKCPSEG}
    (hh : ∀ seg ∈ segs, HeardHeader heard seg.header seg.data) {seg : IKCPSEG}
    (hmem : seg ∈ segs) (hcmd : seg.header.cmd.toUInt32 = ikcpCmdAck) :
    seg.sn.toNat ∉ sns (inputSegments st segs).kcp.sndBuf := by
  induction segs generalizing st with
  | nil => exact absurd hmem List.not_mem_nil
  | cons s segs ih =>
      have hs' := hh s List.mem_cons_self
      have hfirst : Follows heard stream taken ∅ st.kcp
          (inputSegment st s.header s.data).kcp := inputSegment_follows hbound hs hr hs'
      rcases List.mem_cons.mp hmem with rfl | hmem
      · have hreach : seg.sn.toNat + 1 < halfCircle := hbound _ (hs'.ack hcmd)
        have hcommon : SendShape stream (inputCommon st.kcp seg.header) :=
          hs.kept (SendKept.inputCommon st.kcp seg.header) rfl
        have hgone : seg.sn.toNat ∉
            sns (inputSegment st seg.header seg.data).kcp.sndBuf := by
          have hbranch : inputSegment st seg.header seg.data =
              inputAck { st with kcp := inputCommon st.kcp seg.header } seg.header :=
            if_pos hcmd
          rw [hbranch]
          exact @inputAck_removes stream { st with kcp := inputCommon st.kcp seg.header }
            seg.header hcommon (show seg.sn.toNat < halfCircle by omega)
        have hkept : SendKept (inputSegment st seg.header seg.data).kcp
            (inputSegments (inputSegment st seg.header seg.data) segs).kcp :=
          inputSegments_keeps (fun st h payload hk => hk.trans (SendKept.inputSegment st h payload))
            segs (SendKept.refl _)
        exact fun hin => hgone ((sns_sublist hkept).mem hin)
      · exact ih hfirst.send hfirst.recv (fun t ht => hh t (List.mem_cons_of_mem _ ht)) hmem

/-- Data at or below the next expected number, and not a window away from the sender's
last, is entered in the ack list. -/
theorem inputSegments_recorded {p : Peer (Piece UInt8)} {st : InputState}
    (hbound : ∀ f ∈ p.said, reach f < halfCircle) (hs : SendShape stream st.kcp)
    (hr : RecvShape taken st.kcp) (hhalf : Half p (view stream taken said st.kcp))
    {segs : List IKCPSEG} (hh : ∀ seg ∈ segs, HeardHeader p.said seg.header seg.data)
    {seg : IKCPSEG} (hmem : seg ∈ segs) (hcmd : seg.header.cmd.toUInt32 = ikcpCmdPush)
    (hlow : seg.sn.toNat ≤ st.kcp.rcvNxt.toNat) (hhigh : p.opened ≤ seg.sn.toNat + plugWnd) :
    ∃ ts, (seg.sn, ts) ∈ (inputSegments st segs).kcp.acklist := by
  induction segs generalizing st with
  | nil => exact absurd hmem List.not_mem_nil
  | cons s segs ih =>
      have hs' := hh s List.mem_cons_self
      have hfirst : Follows p.said stream taken said st.kcp
          (inputSegment st s.header s.data).kcp := inputSegment_follows hbound hs hr hs'
      have hlen : (taken ++ st.kcp.rcvQueue.map piece).length = st.kcp.rcvNxt.toNat := by
        rw [hr.nxt]
        simp
      rcases List.mem_cons.mp hmem with rfl | hmem
      · have hreceived : (taken ++ st.kcp.rcvQueue.map piece).length ≤ p.opened :=
          hhalf.received_length_le
        have hnxt := hr.nxt_lt
        have hwnd := hr.wnd
        have hend : (st.kcp.rcvNxt + st.kcp.rcvWnd).toNat = st.kcp.rcvNxt.toNat + plugWnd := by
          unfold halfCircle plugWnd at *
          rw [UInt32.toNat_add, hwnd]
          omega
        have hwindow : itimediff seg.sn (st.kcp.rcvNxt + st.kcp.rcvWnd) < 0 := by
          have hdiff : itimediff seg.sn (st.kcp.rcvNxt + st.kcp.rcvWnd) =
              (seg.sn.toNat : Int) - (st.kcp.rcvNxt + st.kcp.rcvWnd).toNat := by
            unfold plugWnd at *
            exact Serial.diff_of_near (by omega) (by omega)
          rw [hdiff, hend]
          unfold plugWnd
          omega
        have hack : ikcpCmdPush ≠ ikcpCmdAck := by decide
        have hwask : ikcpCmdPush ≠ ikcpCmdWask := by decide
        have hbranch : (inputSegment st seg.header seg.data).kcp =
            inputPush (inputCommon st.kcp seg.header) seg.header seg.data := by
          rcases inputSegment_cases st seg.header seg.data with
            ⟨hc, -⟩ | ⟨-, heq⟩ | ⟨hc, -⟩ | ⟨-, hc, -⟩
          · exact absurd (hcmd.symm.trans hc) hack
          · exact heq
          · exact absurd (hcmd.symm.trans hc) hwask
          · exact absurd hcmd hc
        have hnew : (seg.sn, seg.ts) ∈ (inputSegment st seg.header seg.data).kcp.acklist := by
          rw [hbranch, inputPush_acklist]
          rw [if_pos (show itimediff seg.header.sn ((inputCommon st.kcp seg.header).rcvNxt +
            (inputCommon st.kcp seg.header).rcvWnd) < 0 from hwindow)]
          exact List.mem_append_right _ List.mem_cons_self
        exact ⟨seg.ts, inputSegments_keeps (P := fun k => (seg.sn, seg.ts) ∈ k.acklist)
          (fun st h payload hin => (inputSegment_acklist st h payload).mem hin) segs hnew⟩
      · have hhalf' := hhalf.receiver_moves hfirst.moves
        have hmono : (taken ++ st.kcp.rcvQueue.map piece).length ≤
            (taken ++ (inputSegment st s.header s.data).kcp.rcvQueue.map piece).length :=
          (SelectiveRepeat.received_mono hfirst.moves).length_le
        have hlen' : (taken ++ (inputSegment st s.header s.data).kcp.rcvQueue.map piece).length =
            (inputSegment st s.header s.data).kcp.rcvNxt.toNat := by
          rw [hfirst.recv.nxt]
          simp
        rw [hlen, hlen'] at hmono
        exact ih hfirst.send hfirst.recv hhalf' (fun t ht => hh t (List.mem_cons_of_mem _ ht))
          hmem (Nat.le_trans hlow hmono)

end Datagram

end UdpKcp.Link
