import UdpKcp.Ikcp.ShiftFlush
import UdpKcp.Plug.FlushWire

/-! # Wraparound transparency

A block of the plug with its sequence spaces and its clock turned by any offsets
behaves as the block itself does: each operation gives the shifted block, the
shifted datagrams and the same results. A wrap of a counter or of the clock is
the case where the turn passes zero.
-/

namespace UdpKcp.Plug

open ByteCodec (Bytes)
open Ikcp

/-- A header with the fields of a window probe that receivers ignore set to zero. -/
def blankProbe (h : SegHeader) : SegHeader :=
  if h.cmd.toUInt32 = ikcpCmdWask ∨ h.cmd.toUInt32 = ikcpCmdWins then { h with sn := 0, ts := 0 }
  else h

/-! ## The wait of the probe timer -/

/-- The probe timer never waits longer than `IKCP_PROBE_LIMIT`. -/
def ProbeBounded (kcp : IKCPCB) : Prop := kcp.probeWait ≤ ikcpProbeLimit

theorem ProbeBounded.timer {kcp : IKCPCB} (h : ProbeBounded kcp) :
    ProbeBounded (probeTimer kcp) := by
  have hzero : (0 : UInt32) ≤ ikcpProbeLimit := UInt32.zero_le
  have hinit : ikcpProbeInit ≤ ikcpProbeLimit := by decide
  unfold ProbeBounded probeTimer
  by_cases hclosed : kcp.rmtWnd = 0
  · rw [if_pos hclosed]
    by_cases hfresh : kcp.probeWait = 0
    · rw [if_pos hfresh]
      exact hinit
    · rw [if_neg hfresh]
      by_cases hdue : itimediff kcp.current kcp.tsProbe ≥ 0
      · rw [if_pos hdue]
        exact nextProbeWait_le kcp.probeWait
      · rw [if_neg hdue]
        exact h
  · rw [if_neg hclosed]
    exact hzero

theorem ProbeBounded.update {block : IKCPCB} (h : ProbeBounded block) (dlt : UInt32) :
    ProbeBounded (kcpUpdate block dlt).1 := by
  have htimed : ProbeBounded (updateTimer block dlt).1 := by
    rw [updateTimer_eq]
    exact h
  have hprobed : ProbeBounded (flushProbed (updateTimer block dlt).1) :=
    @ProbeBounded.timer { (updateTimer block dlt).1 with acklist := [] } htimed
  apply kcpUpdate_of htimed
  rw [ikcpFlush_block (updateTimer_updated block dlt)]
  unfold ProbeBounded at hprobed ⊢
  exact hprobed

theorem ProbeBounded.input {kcp : IKCPCB} (h : ProbeBounded kcp) (data : Bytes) :
    ProbeBounded (ikcpInput kcp data).1 := by
  apply ikcpInput_keeps _ _ data h
  · intro st header payload hst
    have hcommon : ProbeBounded (inputCommon st.kcp header) := hst
    apply inputSegment_of hcommon
    · have hsame := inputAck_unacked { st with kcp := inputCommon st.kcp header } header
      have hwait := congrArg IKCPCB.probeWait hsame
      exact Eq.trans_le hwait hst
    · rw [inputPush_eq]
      exact hst
    · exact hst
  · intro st prevUna hst
    rw [inputTail_eq]
    exact hst

theorem ProbeBounded.call {block block' : IKCPCB} (h : ProbeBounded block)
    (hc : Call block block') : ProbeBounded block' := by
  cases hc with
  | send data =>
      rw [kcpSend_eq]
      exact h
  | update dlt => exact h.update dlt
  | recv input soc maxlen =>
      apply kcpRecv_keeps (fun kcp data hk => hk.input data) _ input soc maxlen h
      intro kcp kcp' len bytes hlen hr hk
      obtain ⟨-, -, -, -, probe, rfl, -⟩ := ikcpRecv_ok hlen hr
      exact hk

theorem probeBounded_of_reachable {conv : UInt32} {block : IKCPCB} (h : Reachable conv block) :
    ProbeBounded block := by
  induction h with
  | refl => exact UInt32.zero_le
  | tail _ hc ih => exact ih.call hc

/-! ## Sending -/

theorem kcpSend_shift (o : Offsets) (block : IKCPCB) (data : Bytes) (len : Int) :
    kcpSend (o.block block) data len =
      (o.block (kcpSend block data len).1, (kcpSend block data len).2) := by
  unfold kcpSend
  rw [o.ikcpSend_shift]
  cases ikcpSend block data len <;> rfl

/-! ## Receiving -/

/-- A socket whose waiting datagrams are shifted. -/
def shiftSocket (o : Offsets) (soc : Socket) : Socket :=
  soc.map (Option.map (rewriteDatagram o.incoming))

theorem recvLoop_shift (o : Offsets) (block : IKCPCB) (soc : Socket) :
    recvLoop (o.block block) (shiftSocket o soc) =
      (o.block (recvLoop block soc).1, shiftSocket o (recvLoop block soc).2) := by
  induction soc generalizing block with
  | nil => rfl
  | cons read soc ih =>
      cases read with
      | none => rfl
      | some d =>
          have hlen : ((rewriteDatagram o.incoming d).take maxUdpMtu).length =
              (d.take maxUdpMtu).length := by
            rw [List.length_take, List.length_take, rewriteDatagram_length]
          have hinput := o.ikcpInput_shift block d maxUdpMtu
          unfold shiftSocket at ih ⊢
          simp only [List.map_cons, Option.map_some, recvLoop, hlen, hinput, ih]
          split <;> rfl

theorem kcpRecvInput_shift (o : Offsets) (block : IKCPCB) (input : Option Bytes) (soc : Socket) :
    kcpRecvInput (o.block block) (input.map (rewriteDatagram o.incoming)) (shiftSocket o soc) =
      (o.block (kcpRecvInput block input soc).1,
        shiftSocket o (kcpRecvInput block input soc).2) := by
  unfold kcpRecvInput
  cases input with
  | none => exact recvLoop_shift o block soc
  | some data =>
      have hwhole := o.ikcpInput_shift block data data.length
      rw [List.take_length, List.take_of_length_le (Nat.le_of_eq (rewriteDatagram_length _ _))]
        at hwhole
      dsimp only [Option.map_some]
      rw [rewriteDatagram_length, hwhole]
      split
      · exact recvLoop_shift o _ soc
      · exact recvLoop_shift o block soc

theorem drainLoop_shift (o : Offsets) (fuel : ℕ) (block : IKCPCB) (maxlen : Int) :
    drainLoop fuel (o.block block) maxlen =
      { block := o.block (drainLoop fuel block maxlen).block
        messages := (drainLoop fuel block maxlen).messages } := by
  induction fuel generalizing block maxlen with
  | zero => rfl
  | succ fuel ih =>
      unfold drainLoop
      split
      · rename_i hpos
        rw [o.ikcpRecv_shift block (Int.le_of_lt hpos)]
        cases ikcpRecv block maxlen with
        | error code => rfl
        | ok result =>
            simp only [Except.map, ih]
      · rfl

theorem kcpRecv_shift (o : Offsets) (block : IKCPCB) (input : Option Bytes) (soc : Socket)
    (maxlen : Int) :
    kcpRecv (o.block block) (input.map (rewriteDatagram o.incoming)) (shiftSocket o soc) maxlen =
      { block := o.block (kcpRecv block input soc maxlen).block
        soc := shiftSocket o (kcpRecv block input soc maxlen).soc
        messages := (kcpRecv block input soc maxlen).messages } := by
  unfold kcpRecv
  rw [kcpRecvInput_shift]
  dsimp only
  unfold drain
  rw [Offsets.block_rcvQueue, Offsets.block_rcvBuf, List.length_map, List.length_map,
    drainLoop_shift]

/-! ## The passing of time -/

theorem kcpUpdate_block_shift (o : Offsets) {block : IKCPCB} (hbound : ProbeBounded block)
    (dlt : UInt32) :
    (kcpUpdate (o.block block) (dlt + o.clock)).1 = o.block (kcpUpdate block dlt).1 := by
  have hwait : ProbeBounded (updateTimer block dlt).1 := by
    rw [updateTimer_eq]
    exact hbound
  unfold kcpUpdate ikcpUpdate
  rw [o.updateTimer_shift]
  dsimp only
  split
  · exact o.ikcpFlush_shift hwait
  · rfl

/-! ## The datagrams of a flush -/

/-- Up to what receivers ignore, a shifted segment has the shifted header. -/
theorem blankProbe_emitted (o : Offsets) (c : UInt32) {conv : UInt32} {seg : IKCPSEG}
    (h : Acceptable conv seg) :
    blankProbe (o.emitted c seg).header = blankProbe (o.outgoing seg.header) := by
  have hcmd : seg.header.cmd.toUInt32 = seg.cmd := u32_of_u8 h.cmd_lt
  by_cases hpush : seg.cmd = ikcpCmdPush
  · rw [o.emitted_push hpush, Offsets.outgoing, if_pos (hcmd.trans hpush)]
    rfl
  · by_cases hack : seg.cmd = ikcpCmdAck
    · rw [Offsets.emitted, if_neg hpush, if_pos hack, Offsets.outgoing, hcmd, if_neg hpush,
        if_pos hack]
      rfl
    · have hprobe : seg.cmd = ikcpCmdWask ∨ seg.cmd = ikcpCmdWins := by
        have hvalid : validCmd seg.header.cmd := h.cmd_valid
        unfold validCmd at hvalid
        rw [hcmd] at hvalid
        tauto
      have hblank : ∀ hdr : SegHeader, hdr.cmd = seg.header.cmd →
          blankProbe hdr = { hdr with sn := 0, ts := 0 } := by
        intro hdr heq
        unfold blankProbe
        rw [heq, hcmd, if_pos hprobe]
      rw [Offsets.emitted, if_neg hpush, if_neg hack, Offsets.outgoing, hcmd, if_neg hpush,
        if_neg hack]
      have hleft := hblank
        { seg with sn := seg.sn + c, una := seg.una + o.rcv : IKCPSEG }.header rfl
      have hright := hblank { seg.header with una := seg.header.una + o.rcv } rfl
      exact hleft.trans hright.symm

theorem rewrite_segments (f : SegHeader → SegHeader) {segs : List IKCPSEG}
    (h : ∀ seg ∈ segs, seg.Encodable) :
    rewriteDatagram f (segmentBytes segs) =
      wireBytes (segs.map fun seg => (f seg.header, seg.data)) := by
  rw [segmentBytes_eq, rewriteDatagram_wire, List.map_map]
  · rfl
  · intro pair hp
    obtain ⟨seg, hs, rfl⟩ := List.mem_map.mp hp
    exact (h seg hs).len_toNat

/-- One datagram of the flush, the shifted one against the original shifted on the wire. -/
theorem blank_group (o : Offsets) (c : UInt32) {conv : UInt32} {group : List IKCPSEG}
    (h : ∀ seg ∈ group, Acceptable conv seg) :
    rewriteDatagram blankProbe (group.flatMap fun seg => (o.emitted c seg).bytes) =
      rewriteDatagram blankProbe (rewriteDatagram o.outgoing (segmentBytes group)) := by
  have hshifted : (group.flatMap fun seg => (o.emitted c seg).bytes) =
      segmentBytes (group.map (o.emitted c)) := by
    unfold segmentBytes
    rw [List.flatMap_map]
  have hencodable : ∀ seg ∈ group.map (o.emitted c), seg.Encodable := by
    intro seg hs
    obtain ⟨s, hmem, rfl⟩ := List.mem_map.mp hs
    have hacc := h s hmem
    unfold Offsets.emitted
    split_ifs <;> exact ⟨hacc.cmd_lt, hacc.frg_lt, hacc.wnd_lt, hacc.len_lt⟩
  rw [hshifted, rewrite_segments _ hencodable,
    rewrite_segments _ fun seg hs => (h seg hs).toEncodable, rewriteDatagram_wire, List.map_map,
    List.map_map]
  · apply congrArg wireBytes
    apply List.map_congr_left
    intro seg hs
    simp only [Function.comp]
    rw [blankProbe_emitted o c (h seg hs), o.emitted_data]
  · intro pair hp
    obtain ⟨seg, hs, rfl⟩ := List.mem_map.mp hp
    have hlen : (o.outgoing seg.header).len = seg.header.len := o.outgoing_keeps.len _
    dsimp only
    rw [hlen]
    exact (h seg hs).len_toNat

theorem Sound.sent_shift {conv : UInt32} {block : IKCPCB} (h : Sound conv block)
    (hbound : ProbeBounded block) (o : Offsets) (dlt : UInt32) :
    (kcpUpdate (o.block block) (dlt + o.clock)).2.map (rewriteDatagram blankProbe) =
      ((kcpUpdate block dlt).2.map (rewriteDatagram o.outgoing)).map
        (rewriteDatagram blankProbe) := by
  have htimed := h.timed dlt
  have hwait : (updateTimer block dlt).1.probeWait ≤ ikcpProbeLimit := by
    rw [updateTimer_eq]
    exact hbound
  have hupdated := updateTimer_updated block dlt
  unfold kcpUpdate ikcpUpdate
  rw [o.updateTimer_shift]
  dsimp only
  split
  · generalize (updateTimer block dlt).1 = kcp at *
    have hpush : ∀ seg ∈ (flushOpened kcp).sndBuf, seg.cmd = ikcpCmdPush := fun seg hs =>
      (htimed.opened.sendable hs).cmd_eq
    obtain ⟨c, hsegs⟩ := o.flushSegments_shift hwait hpush
    have hlen : ∀ seg : IKCPSEG, seg.bytes.length = (o.emitted c seg).bytes.length := by
      intro seg
      rw [IKCPSEG.bytes_length, IKCPSEG.bytes_length, o.emitted_data]
    obtain ⟨groups, hmem, hleft, hright⟩ :=
      Packing.pack_alike hlen kcp.mtu.toNat (Ikcp.flushSegments kcp)
    have hmtu : (o.block kcp).mtu = kcp.mtu := rfl
    rw [ikcpFlush_sent (show (o.block kcp).updated ≠ 0 from hupdated), ikcpFlush_sent hupdated,
      hsegs, List.map_map, hmtu, hleft]
    have hright' : Packing.pack kcp.mtu.toNat
        ((Ikcp.flushSegments kcp).map (IKCPSEG.bytes ∘ o.emitted c)) = _ := hright
    rw [hright', List.map_map, List.map_map, List.map_map]
    apply List.map_congr_left
    intro group hg
    exact blank_group o c fun seg hs => (htimed.flushSegments (hmem group hg seg hs)).1
  · rfl

/-- Turning the sequence spaces and the clock of a block commutes with every operation of
the plug. -/
theorem kcp_shift {conv : UInt32} {block : IKCPCB} (h : Reachable conv block) (o : Offsets) :
    (∀ data len, kcpSend (o.block block) data len =
      (o.block (kcpSend block data len).1, (kcpSend block data len).2)) ∧
    (∀ dlt, (kcpUpdate (o.block block) (dlt + o.clock)).1 = o.block (kcpUpdate block dlt).1 ∧
      (kcpUpdate (o.block block) (dlt + o.clock)).2.map (rewriteDatagram blankProbe) =
        ((kcpUpdate block dlt).2.map (rewriteDatagram o.outgoing)).map
          (rewriteDatagram blankProbe)) ∧
    ∀ input soc maxlen,
      kcpRecv (o.block block) (input.map (rewriteDatagram o.incoming)) (shiftSocket o soc) maxlen =
        { block := o.block (kcpRecv block input soc maxlen).block
          soc := shiftSocket o (kcpRecv block input soc maxlen).soc
          messages := (kcpRecv block input soc maxlen).messages } := by
  have hbound := probeBounded_of_reachable h
  have hsound := sound_of_reachable h
  exact ⟨kcpSend_shift o block,
    fun dlt => ⟨kcpUpdate_block_shift o hbound dlt, hsound.sent_shift hbound o dlt⟩,
    kcpRecv_shift o block⟩

/-- The next number is the last of the circle, and the clock is at its end. -/
def beforeWrap : Offsets := ⟨0xffffffff, 0xfffffff0, 0xfffffffb⟩

/-- Number `0xffffffff` is sent at clock 5, after a wrap of the clock; `snd_nxt` wraps. -/
theorem kcp_shift_wrap :
    (kcpUpdate (beforeWrap.block flushedOnce) (10 + beforeWrap.clock)).1.sndNxt = 0 ∧
    (kcpUpdate (beforeWrap.block flushedOnce) (10 + beforeWrap.clock)).2 =
      [[7, 0, 0, 0, 81, 0, 128, 0, 5, 0, 0, 0, 255, 255, 255, 255, 240, 255, 255, 255,
        2, 0, 0, 0, 1, 2]] ∧
    (kcpUpdate (beforeWrap.block flushedOnce) (10 + beforeWrap.clock)).1 =
      beforeWrap.block (kcpUpdate flushedOnce 10).1 ∧
    (kcpUpdate (beforeWrap.block flushedOnce) (10 + beforeWrap.clock)).2.map
        (rewriteDatagram blankProbe) =
      ((kcpUpdate flushedOnce 10).2.map (rewriteDatagram beforeWrap.outgoing)).map
        (rewriteDatagram blankProbe) := by
  have hreach : Reachable 7 flushedOnce :=
    (Relation.ReflTransGen.single (Call.send _ [1, 2])).tail (Call.update _ 0)
  exact ⟨by decide, by decide, (kcp_shift hreach beforeWrap).2.1 10⟩

end UdpKcp.Plug
