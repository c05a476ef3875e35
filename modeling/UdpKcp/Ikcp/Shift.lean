import UdpKcp.Ikcp.Outgoing
import UdpKcp.Ikcp.Rewrite

/-! # Shifted sequence spaces and clocks

The send space, the receive space and the clock each turned by an offset of
their own. The code only ever looks at differences on these three circles, so
each of its walks and branches commutes with the shift.
-/

namespace UdpKcp.Ikcp

open ByteCodec (Bytes)

/-- How far the send space, the receive space and the clock are turned. -/
structure Offsets where
  snd : UInt32
  rcv : UInt32
  clock : UInt32

namespace Offsets

/-! ## What is shifted -/

/-- A segment of `snd_buf`. -/
def own (o : Offsets) (seg : IKCPSEG) : IKCPSEG :=
  { seg with
    sn := seg.sn + o.snd
    una := seg.una + o.rcv
    ts := seg.ts + o.clock
    resendts := seg.resendts + o.clock }

/-- A segment of `rcv_buf` or `rcv_queue`; its time stamp is the peer's. -/
def received (o : Offsets) (seg : IKCPSEG) : IKCPSEG :=
  { seg with sn := seg.sn + o.rcv, una := seg.una + o.snd }

/-- An entry of the ack list. -/
def ack (o : Offsets) (ack : UInt32 × UInt32) : UInt32 × UInt32 := (ack.1 + o.rcv, ack.2)

/-- A control block. While `probe_wait` is zero the probe time is no point of the clock. -/
def block (o : Offsets) (kcp : IKCPCB) : IKCPCB :=
  { kcp with
    sndUna := kcp.sndUna + o.snd
    sndNxt := kcp.sndNxt + o.snd
    sndBuf := kcp.sndBuf.map o.own
    rcvNxt := kcp.rcvNxt + o.rcv
    rcvBuf := kcp.rcvBuf.map o.received
    rcvQueue := kcp.rcvQueue.map o.received
    acklist := kcp.acklist.map o.ack
    current := kcp.current + o.clock
    tsFlush := kcp.tsFlush + o.clock
    tsProbe := if kcp.probeWait = 0 then kcp.tsProbe else kcp.tsProbe + o.clock }

/-- The locals of `ikcp_input`; without an acknowledgement so far there is none to shift. -/
def state (o : Offsets) (st : InputState) : InputState :=
  { st with
    kcp := o.block st.kcp
    maxack := if st.flag then st.maxack + o.snd else st.maxack
    latestTs := if st.flag then st.latestTs + o.clock else st.latestTs }

/-- A header on its way in. -/
def incoming (o : Offsets) (h : SegHeader) : SegHeader :=
  if h.cmd.toUInt32 = ikcpCmdAck then
    { h with sn := h.sn + o.snd, una := h.una + o.snd, ts := h.ts + o.clock }
  else if h.cmd.toUInt32 = ikcpCmdPush then
    { h with sn := h.sn + o.rcv, una := h.una + o.snd }
  else { h with una := h.una + o.snd }

/-- A header on its way out. -/
def outgoing (o : Offsets) (h : SegHeader) : SegHeader :=
  if h.cmd.toUInt32 = ikcpCmdPush then
    { h with sn := h.sn + o.snd, una := h.una + o.rcv, ts := h.ts + o.clock }
  else if h.cmd.toUInt32 = ikcpCmdAck then
    { h with sn := h.sn + o.rcv, una := h.una + o.rcv }
  else { h with una := h.una + o.rcv }

theorem incoming_keeps (o : Offsets) : KeepsFrame o.incoming := by
  constructor
  all_goals
    intro h
    unfold incoming
    split_ifs <;> rfl

theorem outgoing_keeps (o : Offsets) : KeepsFrame o.outgoing := by
  constructor
  all_goals
    intro h
    unfold outgoing
    split_ifs <;> rfl

/-! ## Differences and fields -/

@[simp] theorem itimediff_add (x y a : UInt32) : itimediff (x + a) (y + a) = itimediff x y :=
  Serial.diff_add_add x y a

/-- The order of the two sums does not matter for the comparisons with a window's end. -/
theorem add_shift (x a y : UInt32) : x + a + y = x + y + a := by
  rw [UInt32.add_assoc, UInt32.add_comm a, UInt32.add_assoc]

section Fields

variable (o : Offsets) (kcp : IKCPCB)

@[simp] theorem block_sndUna : (o.block kcp).sndUna = kcp.sndUna + o.snd := rfl

@[simp] theorem block_sndNxt : (o.block kcp).sndNxt = kcp.sndNxt + o.snd := rfl

@[simp] theorem block_rcvNxt : (o.block kcp).rcvNxt = kcp.rcvNxt + o.rcv := rfl

@[simp] theorem block_current : (o.block kcp).current = kcp.current + o.clock := rfl

@[simp] theorem block_sndBuf : (o.block kcp).sndBuf = kcp.sndBuf.map o.own := rfl

@[simp] theorem block_rcvBuf : (o.block kcp).rcvBuf = kcp.rcvBuf.map o.received := rfl

@[simp] theorem block_rcvQueue : (o.block kcp).rcvQueue = kcp.rcvQueue.map o.received := rfl

@[simp] theorem block_config : (o.block kcp).config = kcp.config := rfl

end Fields

/-! ## Acknowledgements -/

variable (o : Offsets)

theorem removeAcked_shift (sn : UInt32) (segs : List IKCPSEG) :
    removeAcked (sn + o.snd) (segs.map o.own) = (removeAcked sn segs).map o.own := by
  induction segs with
  | nil => rfl
  | cons seg next ih =>
      have hsn : (o.own seg).sn = seg.sn + o.snd := rfl
      simp only [List.map_cons, removeAcked, hsn, UInt32.add_left_inj, itimediff_add, ih]
      split_ifs <;> rfl

theorem dropUnacked_shift (una : UInt32) (segs : List IKCPSEG) :
    dropUnacked (una + o.snd) (segs.map o.own) = (dropUnacked una segs).map o.own := by
  induction segs with
  | nil => rfl
  | cons seg next ih =>
      have hsn : (o.own seg).sn = seg.sn + o.snd := rfl
      simp only [List.map_cons, dropUnacked, hsn, itimediff_add, ih]
      split_ifs <;> rfl

theorem countFastack_shift (sn : UInt32) (segs : List IKCPSEG) :
    countFastack (sn + o.snd) (segs.map o.own) = (countFastack sn segs).map o.own := by
  induction segs with
  | nil => rfl
  | cons seg next ih =>
      have hsn : (o.own seg).sn = seg.sn + o.snd := rfl
      simp only [List.map_cons, countFastack, hsn, ne_eq, UInt32.add_left_inj, itimediff_add, ih]
      split_ifs <;> rfl

theorem shrinkBuf_shift (kcp : IKCPCB) :
    ikcpShrinkBuf (o.block kcp) = o.block (ikcpShrinkBuf kcp) := by
  unfold ikcpShrinkBuf
  rw [block_sndBuf]
  cases kcp.sndBuf <;> rfl

theorem parseUna_shift (kcp : IKCPCB) (una : UInt32) :
    ikcpParseUna (o.block kcp) (una + o.snd) = o.block (ikcpParseUna kcp una) := by
  unfold ikcpParseUna block
  simp only [dropUnacked_shift, List.length_map]

theorem parseAck_shift (kcp : IKCPCB) (sn : UInt32) :
    ikcpParseAck (o.block kcp) (sn + o.snd) = o.block (ikcpParseAck kcp sn) := by
  unfold ikcpParseAck
  simp only [block_sndUna, block_sndNxt, itimediff_add]
  split
  · rfl
  · unfold block
    simp only [removeAcked_shift, List.length_map]

theorem parseFastack_shift (kcp : IKCPCB) (sn ts ts' : UInt32) :
    ikcpParseFastack (o.block kcp) (sn + o.snd) ts' = o.block (ikcpParseFastack kcp sn ts) := by
  unfold ikcpParseFastack
  simp only [block_sndUna, block_sndNxt, itimediff_add]
  split
  · rfl
  · rw [block_sndBuf, countFastack_shift]
    rfl

/-- The RTT estimate only sees a difference of clocks. -/
theorem updateAck_shift (kcp : IKCPCB) (rtt : Int) :
    ikcpUpdateAck (o.block kcp) rtt = o.block (ikcpUpdateAck kcp rtt) := by
  unfold ikcpUpdateAck block
  dsimp only
  split <;> rfl

theorem inputAck_shift (st : InputState) (h : SegHeader) :
    inputAck (o.state st)
        { h with sn := h.sn + o.snd, una := h.una + o.snd, ts := h.ts + o.clock } =
      o.state (inputAck st h) := by
  obtain ⟨kcp, flag, maxack, latestTs⟩ := st
  have hrtt : (if itimediff kcp.current h.ts ≥ 0 then
      ikcpUpdateAck (o.block kcp) (itimediff kcp.current h.ts) else o.block kcp) =
      o.block (if itimediff kcp.current h.ts ≥ 0 then
        ikcpUpdateAck kcp (itimediff kcp.current h.ts) else kcp) := by
    split
    · exact updateAck_shift o kcp _
    · rfl
  unfold inputAck state
  dsimp only
  simp only [block_current, itimediff_add, hrtt, parseAck_shift, shrinkBuf_shift]
  cases flag with
  | false => rfl
  | true =>
      simp only [if_true, itimediff_add, Bool.true_eq_false, false_or]
      split <;> rfl

/-! ## Data -/

theorem insertFromTail_shift (newseg : IKCPSEG) (segs : List IKCPSEG) :
    insertFromTail (o.received newseg) (segs.map o.received) =
      (insertFromTail newseg segs).map (List.map o.received) := by
  have hnew : (o.received newseg).sn = newseg.sn + o.rcv := rfl
  induction segs with
  | nil => rfl
  | cons seg prev ih =>
      have hsn : (o.received seg).sn = seg.sn + o.rcv := rfl
      simp only [List.map_cons, insertFromTail, hsn, hnew, UInt32.add_left_inj, itimediff_add, ih]
      split_ifs
      · rfl
      · rfl
      · cases insertFromTail newseg prev <;> rfl

theorem moveAvailable_shift (rcvWnd rcvNxt : UInt32) (nrcvQue : ℕ) (buf : List IKCPSEG) :
    moveAvailable rcvWnd (rcvNxt + o.rcv) nrcvQue (buf.map o.received) =
      ((moveAvailable rcvWnd rcvNxt nrcvQue buf).1.map o.received,
        (moveAvailable rcvWnd rcvNxt nrcvQue buf).2.map o.received) := by
  induction buf generalizing rcvNxt nrcvQue with
  | nil => rfl
  | cons seg rest ih =>
      have hsn : (o.received seg).sn = seg.sn + o.rcv := rfl
      have hnext : rcvNxt + o.rcv + 1 = rcvNxt + 1 + o.rcv := add_shift rcvNxt o.rcv 1
      simp only [List.map_cons, moveAvailable, hsn, UInt32.add_left_inj, hnext, ih]
      split <;> rfl

theorem moveRcvBuf_shift (kcp : IKCPCB) :
    moveRcvBuf (o.block kcp) = o.block (moveRcvBuf kcp) := by
  unfold moveRcvBuf block
  simp only [moveAvailable_shift, List.length_map, List.map_append]
  rw [add_shift kcp.rcvNxt o.rcv]

theorem parseData_shift (kcp : IKCPCB) (newseg : IKCPSEG) :
    ikcpParseData (o.block kcp) (o.received newseg) = o.block (ikcpParseData kcp newseg) := by
  have hnew : (o.received newseg).sn = newseg.sn + o.rcv := rfl
  have hend : (o.block kcp).rcvNxt + (o.block kcp).rcvWnd = kcp.rcvNxt + kcp.rcvWnd + o.rcv :=
    add_shift kcp.rcvNxt o.rcv kcp.rcvWnd
  have hinsert := insertFromTail_shift o newseg kcp.rcvBuf.reverse
  unfold ikcpParseData
  rw [hnew, hend, block_rcvNxt, itimediff_add, itimediff_add]
  split
  · rfl
  · rw [block_rcvBuf, ← List.map_reverse, hinsert]
    cases insertFromTail newseg kcp.rcvBuf.reverse with
    | none => exact moveRcvBuf_shift o kcp
    | some rcvBuf =>
        dsimp only [Option.map_some]
        rw [← List.map_reverse, ← moveRcvBuf_shift]
        rfl

theorem inputPush_shift (kcp : IKCPCB) (h : SegHeader) (payload : Bytes) :
    inputPush (o.block kcp) { h with sn := h.sn + o.rcv, una := h.una + o.snd } payload =
      o.block (inputPush kcp h payload) := by
  have hend : (o.block kcp).rcvNxt + (o.block kcp).rcvWnd = kcp.rcvNxt + kcp.rcvWnd + o.rcv :=
    add_shift kcp.rcvNxt o.rcv kcp.rcvWnd
  have hack : ikcpAckPush (o.block kcp) (h.sn + o.rcv) h.ts =
      o.block (ikcpAckPush kcp h.sn h.ts) := by
    unfold ikcpAckPush block
    simp [ack]
  have hnxt : (ikcpAckPush kcp h.sn h.ts).rcvNxt = kcp.rcvNxt := rfl
  have hnxt' : (o.block (ikcpAckPush kcp h.sn h.ts)).rcvNxt = kcp.rcvNxt + o.rcv := rfl
  unfold inputPush
  dsimp only
  rw [hend, hack, hnxt, hnxt', itimediff_add, itimediff_add]
  split
  · split
    · exact parseData_shift o _ (receivedSegment h payload)
    · rfl
  · rfl

/-! ## A whole datagram -/

theorem inputCommon_shift (kcp : IKCPCB) {h h' : SegHeader} (hwnd : h'.wnd = h.wnd)
    (huna : h'.una = h.una + o.snd) :
    inputCommon (o.block kcp) h' = o.block (inputCommon kcp h) := by
  unfold inputCommon
  rw [hwnd, huna, ← shrinkBuf_shift, ← parseUna_shift]
  rfl

/-- Every segment commutes with the shift, whatever its command. -/
theorem inputSegment_shift (st : InputState) (h : SegHeader) (payload : Bytes) :
    inputSegment (o.state st) (o.incoming h) payload = o.state (inputSegment st h payload) := by
  have hkcp : (o.state st).kcp = o.block st.kcp := rfl
  by_cases hack : h.cmd.toUInt32 = ikcpCmdAck
  · have hin : o.incoming h =
        { h with sn := h.sn + o.snd, una := h.una + o.snd, ts := h.ts + o.clock } := if_pos hack
    have hcommon := @inputCommon_shift o st.kcp h (o.incoming h)
      (by rw [hin]) (by rw [hin])
    unfold inputSegment
    dsimp only
    rw [hkcp, hcommon, o.incoming_keeps.cmd, if_pos hack, if_pos hack, hin]
    exact inputAck_shift o { st with kcp := inputCommon st.kcp h } h
  · by_cases hpush : h.cmd.toUInt32 = ikcpCmdPush
    · have hin : o.incoming h = { h with sn := h.sn + o.rcv, una := h.una + o.snd } := by
        rw [incoming, if_neg hack, if_pos hpush]
      have hcommon := @inputCommon_shift o st.kcp h (o.incoming h)
        (by rw [hin]) (by rw [hin])
      unfold inputSegment
      dsimp only
      rw [hkcp, hcommon, o.incoming_keeps.cmd, if_neg hack, if_pos hpush, if_neg hack,
        if_pos hpush, hin, inputPush_shift]
      rfl
    · have hin : o.incoming h = { h with una := h.una + o.snd } := by
        rw [incoming, if_neg hack, if_neg hpush]
      have hcommon := @inputCommon_shift o st.kcp h (o.incoming h)
        (by rw [hin]) (by rw [hin])
      unfold inputSegment
      dsimp only
      rw [hkcp, hcommon, o.incoming_keeps.cmd, if_neg hack, if_neg hpush, if_neg hack,
        if_neg hpush]
      split <;> rfl

theorem growCwnd_shift (kcp : IKCPCB) : growCwnd (o.block kcp) = o.block (growCwnd kcp) := by
  unfold growCwnd block
  dsimp only
  split_ifs <;> rfl

theorem inputCwnd_shift (kcp : IKCPCB) (prevUna : UInt32) :
    inputCwnd (o.block kcp) (prevUna + o.snd) = o.block (inputCwnd kcp prevUna) := by
  have hcwnd : (o.block kcp).cwnd = kcp.cwnd := rfl
  have hrmt : (o.block kcp).rmtWnd = kcp.rmtWnd := rfl
  unfold inputCwnd
  rw [growCwnd_shift, block_sndUna, itimediff_add, hcwnd, hrmt]
  split
  · split
    · have hgrown : (o.block (growCwnd kcp)).cwnd = (growCwnd kcp).cwnd := rfl
      have hgrown' : (o.block (growCwnd kcp)).rmtWnd = (growCwnd kcp).rmtWnd := rfl
      dsimp only
      rw [hgrown, hgrown']
      split <;> rfl
    · rfl
  · rfl

theorem inputTail_shift (st : InputState) (prevUna : UInt32) :
    inputTail (o.state st) (prevUna + o.snd) = o.block (inputTail st prevUna) := by
  have hfast : (if (o.state st).flag then
      ikcpParseFastack (o.state st).kcp (o.state st).maxack (o.state st).latestTs
      else (o.state st).kcp) =
      o.block (if st.flag then ikcpParseFastack st.kcp st.maxack st.latestTs else st.kcp) := by
    obtain ⟨kcp, flag, maxack, latestTs⟩ := st
    cases flag with
    | false => rfl
    | true => exact parseFastack_shift o kcp maxack latestTs (latestTs + o.clock)
  unfold inputTail
  rw [hfast]
  exact inputCwnd_shift o _ prevUna

/-- A shifted datagram does to a shifted block what the datagram does to the block, also
when only its first `n` bytes were read. -/
theorem ikcpInput_shift (kcp : IKCPCB) (data : Bytes) (n : ℕ) :
    ikcpInput (o.block kcp) ((rewriteDatagram o.incoming data).take n) =
      (o.block (ikcpInput kcp (data.take n)).1, (ikcpInput kcp (data.take n)).2) := by
  have hlen : ((rewriteDatagram o.incoming data).take n).length = (data.take n).length := by
    rw [List.length_take, List.length_take, rewriteDatagram_length]
  have hloop : inputLoop (data.take n).length { kcp := o.block kcp }
      ((rewriteDatagram o.incoming data).take n) =
      (o.state (inputLoop (data.take n).length { kcp := kcp } (data.take n)).1,
        (inputLoop (data.take n).length { kcp := kcp } (data.take n)).2) :=
    @inputLoop_rewritten o.incoming o.incoming_keeps o.state (fun _ => rfl) o.inputSegment_shift
      _ _ { kcp := kcp } data n (Nat.le_refl _)
  unfold ikcpInput
  rw [hlen, hloop]
  split
  · rfl
  · cases hrun : inputLoop (data.take n).length { kcp := kcp } (data.take n) with
    | mk st code =>
        cases code with
        | none => exact congrArg (·, 0) (inputTail_shift o st kcp.sndUna)
        | some code => rfl

/-! ## Sending and receiving -/

/-- Queued data is not numbered yet. -/
theorem ikcpSend_shift (kcp : IKCPCB) (buffer : Bytes) (len : Int) :
    ikcpSend (o.block kcp) buffer len = (ikcpSend kcp buffer len).map o.block := by
  have hextend : ∀ data, extendLast (o.block kcp) data = extendLast kcp data := fun _ => rfl
  have hstream : (o.block kcp).stream = kcp.stream := rfl
  have hqueue : (o.block kcp).sndQueue = kcp.sndQueue := rfl
  have hmss : (o.block kcp).mss = kcp.mss := rfl
  unfold ikcpSend
  dsimp only
  rw [hextend, hstream, hqueue, hmss]
  split_ifs <;> rfl

theorem mergeFragments_shift (queue : List IKCPSEG) :
    mergeFragments (queue.map o.received) =
      ((mergeFragments queue).1.map o.received, (mergeFragments queue).2.map o.received) := by
  induction queue with
  | nil => rfl
  | cons seg p ih =>
      have hfrg : (o.received seg).frg = seg.frg := rfl
      simp only [List.map_cons, mergeFragments, hfrg, ih]
      split <;> rfl

theorem peekLength_shift (queue : List IKCPSEG) :
    peekLength (queue.map o.received) = peekLength queue := by
  induction queue with
  | nil => rfl
  | cons seg p ih =>
      have hfrg : (o.received seg).frg = seg.frg := rfl
      have hdata : (o.received seg).data = seg.data := rfl
      simp only [List.map_cons, peekLength, hfrg, hdata, ih]

theorem peeksize_shift (kcp : IKCPCB) : ikcpPeeksize (o.block kcp) = ikcpPeeksize kcp := by
  have hwalk := peekLength_shift o kcp.rcvQueue
  unfold ikcpPeeksize
  rw [block_rcvQueue]
  cases hqueue : kcp.rcvQueue with
  | nil => rfl
  | cons seg p =>
      rw [hqueue] at hwalk
      have hfrg : (o.received seg).frg = seg.frg := rfl
      have hdata : (o.received seg).data = seg.data := rfl
      have hcount : (o.block kcp).nrcvQue = kcp.nrcvQue := rfl
      rw [List.map_cons] at hwalk ⊢
      dsimp only
      rw [hfrg, hdata, hcount, hwalk]

theorem takeMessage_shift (kcp : IKCPCB) :
    takeMessage (o.block kcp) = o.block (takeMessage kcp) := by
  have hdropped : dropMessage (o.block kcp) = o.block (dropMessage kcp) := by
    unfold dropMessage
    rw [block_rcvQueue, mergeFragments_shift, List.length_map]
    rfl
  unfold takeMessage
  rw [hdropped, moveRcvBuf_shift]
  rfl

theorem ikcpRecv_shift (kcp : IKCPCB) {len : Int} (hlen : 0 ≤ len) :
    ikcpRecv (o.block kcp) len =
      (ikcpRecv kcp len).map fun result => (result.1, o.block result.2) := by
  have hdata : ((mergeFragments kcp.rcvQueue).1.map o.received).flatMap (·.data) =
      (mergeFragments kcp.rcvQueue).1.flatMap (·.data) := by
    rw [List.flatMap_map]
    rfl
  rw [ikcpRecv_eq hlen, ikcpRecv_eq hlen]
  simp only [block_rcvQueue, List.map_eq_nil_iff, peeksize_shift, takeMessage_shift,
    mergeFragments_shift, hdata]
  split_ifs <;> rfl

end Offsets

end UdpKcp.Ikcp
