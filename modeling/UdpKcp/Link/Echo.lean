import UdpKcp.Ikcp.Rewrite
import UdpKcp.Link.Exchange
import UdpKcp.Plug.History

/-! # Acknowledgements as echoes

Whatever a block receives, its acknowledgements are exactly the data segments it
found inside its window: one for each, in the order of arrival, with the number and
the time stamp of the segment. Between two plugs they therefore name transmissions
that were made, and what the round-trip estimate is fed with is the time since one.
-/

namespace UdpKcp.Link

open ByteCodec (Bytes)
open SelectiveRepeat (Side)
open Ikcp Plug

/-! ## What a datagram owes -/

/-- The entry that a segment makes in the ack list. -/
def segmentOwed (kcp : IKCPCB) (h : SegHeader) : List (UInt32 × UInt32) :=
  if h.cmd.toUInt32 = ikcpCmdPush ∧ itimediff h.sn (kcp.rcvNxt + kcp.rcvWnd) < 0 then
    [(h.sn, h.ts)]
  else []

/-! ## The ack list -/

theorem inputSegment_owed (st : InputState) (h : SegHeader) (payload : Bytes) :
    (inputSegment st h payload).kcp.acklist = st.kcp.acklist ++ segmentOwed st.kcp h := by
  have hack : ikcpCmdAck ≠ ikcpCmdPush := by decide
  have hwask : ikcpCmdWask ≠ ikcpCmdPush := by decide
  unfold segmentOwed
  rcases inputSegment_cases st h payload with
    ⟨hcmd, heq⟩ | ⟨hcmd, heq⟩ | ⟨hcmd, heq⟩ | ⟨-, hcmd, -, heq⟩
  · have hrest := congrArg IKCPCB.acklist
      (inputAck_unacked { st with kcp := inputCommon st.kcp h } h)
    have hsame : (inputAck { st with kcp := inputCommon st.kcp h } h).kcp.acklist =
        st.kcp.acklist := hrest
    rw [heq, hsame, if_neg (by rw [hcmd]; exact fun hpush => hack hpush.1), List.append_nil]
  · have hpush := inputPush_acklist (inputCommon st.kcp h) h payload
    have hwindow : (inputCommon st.kcp h).rcvNxt + (inputCommon st.kcp h).rcvWnd =
        st.kcp.rcvNxt + st.kcp.rcvWnd := rfl
    rw [heq, hpush, hwindow]
    by_cases hin : itimediff h.sn (st.kcp.rcvNxt + st.kcp.rcvWnd) < 0
    · rw [if_pos hin, if_pos ⟨hcmd, hin⟩]
      rfl
    · rw [if_neg hin, if_neg fun hboth => hin hboth.2, List.append_nil]
      rfl
  · rw [heq, if_neg (by rw [hcmd]; exact fun hpush => hwask hpush.1), List.append_nil]
    rfl
  · rw [heq, if_neg fun hpush => hcmd hpush.1, List.append_nil]
    rfl

theorem inputLoop_owed (fuel : ℕ) (st : InputState) (data : Bytes) :
    (inputLoop fuel st data).1.kcp.acklist =
      st.kcp.acklist ++ loopWalk segmentOwed fuel st data := by
  induction fuel generalizing st data with
  | zero => exact (List.append_nil _).symm
  | succ fuel ih =>
      unfold inputLoop loopWalk
      dsimp only
      split_ifs
      · exact (List.append_nil _).symm
      · exact (List.append_nil _).symm
      · exact (List.append_nil _).symm
      · rw [ih, inputSegment_owed, List.append_assoc]
      · exact (List.append_nil _).symm

theorem ikcpInput_owed (kcp : IKCPCB) (data : Bytes) :
    (ikcpInput kcp data).1.acklist = kcp.acklist ++ inputWalk segmentOwed kcp data := by
  have hloop := inputLoop_owed data.length { kcp := kcp } data
  unfold ikcpInput inputWalk
  by_cases hshort : data.length < ikcpOverhead
  · have hnone : loopWalk segmentOwed data.length { kcp := kcp } data = [] := by
      cases hlen : data.length with
      | zero => rfl
      | succ n => rw [loopWalk, if_pos hshort]
    rw [if_pos hshort, hnone, List.append_nil]
  · rw [if_neg hshort]
    generalize inputLoop data.length { kcp := kcp } data = r at hloop
    obtain ⟨st, code⟩ := r
    cases code with
    | none =>
        dsimp only at hloop ⊢
        rw [inputTail_eq]
        exact hloop
    | some code => exact hloop

theorem inputAll_owed (kcp : IKCPCB) (inputs : List Bytes) :
    (inputAll kcp inputs).acklist = kcp.acklist ++ inputsWalk segmentOwed kcp inputs := by
  induction inputs generalizing kcp with
  | nil => exact (List.append_nil _).symm
  | cons d inputs ih =>
      show (inputAll (ikcpInput kcp d).1 inputs).acklist = _
      rw [ih, ikcpInput_owed, inputsWalk, List.append_assoc]

theorem kcpRecv_owed (kcp : IKCPCB) (input : Option Bytes) (soc : Socket) (maxlen : Int) :
    (kcpRecv kcp input soc maxlen).block.acklist =
      kcp.acklist ++ inputsWalk segmentOwed kcp (kcpRecvInputs input soc) := by
  have hdrain : (drain (kcpRecvInput kcp input soc).1 maxlen).block.acklist =
      (kcpRecvInput kcp input soc).1.acklist := by
    refine @drain_keeps (fun k => k.acklist = (kcpRecvInput kcp input soc).1.acklist) ?_ _ _ rfl
    intro k k' len bytes hlen hr hk
    obtain ⟨-, -, -, -, probe, rfl, -⟩ := ikcpRecv_ok hlen hr
    exact hk
  rw [kcpRecvInput_eq, inputAll_owed] at hdrain
  rw [← hdrain, ← kcpRecvInput_eq]
  rfl

/-! ## Sizes -/

section Sizes

variable {α : Type} {f : IKCPCB → SegHeader → List α} (hf : ∀ kcp h, (f kcp h).length ≤ 1)

include hf

/-- What is made of a segment at most once takes no more than its bytes. -/
theorem loopWalk_length (fuel : ℕ) (st : InputState) (data : Bytes) :
    ikcpOverhead * (loopWalk f fuel st data).length ≤ data.length := by
  induction fuel generalizing st data with
  | zero => exact Nat.zero_le _
  | succ fuel ih =>
      unfold loopWalk
      dsimp only
      split_ifs with hshort hconv hlen hcmd
      · exact Nat.zero_le _
      · exact Nat.zero_le _
      · exact Nat.zero_le _
      · have hrest := ih
          (inputSegment st (decodeHeader data).1
            ((decodeHeader data).2.take (decodeHeader data).1.len.toNat))
          ((decodeHeader data).2.drop (decodeHeader data).1.len.toNat)
        have hbody : (decodeHeader data).2.length + ikcpOverhead = data.length := by
          rw [decodeHeader_body, List.length_drop]
          omega
        have hone := Nat.mul_le_mul_left ikcpOverhead (hf st.kcp (decodeHeader data).1)
        rw [List.length_drop] at hrest
        rw [List.length_append, Nat.mul_add]
        omega
      · exact Nat.zero_le _

theorem inputsWalk_length (kcp : IKCPCB) (inputs : List Bytes) :
    ikcpOverhead * (inputsWalk f kcp inputs).length ≤ inputs.flatten.length := by
  induction inputs generalizing kcp with
  | nil => exact Nat.le_refl _
  | cons d inputs ih =>
      rw [inputsWalk, List.length_append, Nat.mul_add, List.flatten_cons, List.length_append]
      exact Nat.add_le_add (loopWalk_length hf _ _ d) (ih _)

end Sizes

theorem segmentOwed_length (kcp : IKCPCB) (h : SegHeader) : (segmentOwed kcp h).length ≤ 1 := by
  unfold segmentOwed
  split
  · exact Nat.le_refl _
  · exact Nat.zero_le _

/-! ## What an update tells -/

/-- Number and time stamp, of the segments with this command. -/
def segmentEntry (cmd : UInt32) (seg : SegHeader × Bytes) : Option (UInt32 × UInt32) :=
  if seg.1.cmd.toUInt32 = cmd then some (seg.1.sn, seg.1.ts) else none

/-- The entries with this command in a datagram. -/
def entries (cmd : UInt32) (d : Bytes) : List (UInt32 × UInt32) :=
  ((decodeDatagram d).getD []).filterMap (segmentEntry cmd)

/-- The entry of a segment before it is encoded. -/
def ownEntry (cmd : UInt32) (seg : IKCPSEG) : Option (UInt32 × UInt32) :=
  if seg.cmd = cmd then some (seg.sn, seg.ts) else none

theorem entries_segmentBytes (cmd : UInt32) {segs : List IKCPSEG}
    (h : ∀ seg ∈ segs, seg.Encodable) :
    entries cmd (segmentBytes segs) = segs.filterMap (ownEntry cmd) := by
  unfold entries
  rw [decodeDatagram_segmentBytes h, Option.getD_some, List.filterMap_map]
  apply List.filterMap_congr
  intro seg hseg
  have hcmd : seg.header.cmd.toUInt32 = seg.cmd := ((h seg hseg).carries).cmd
  unfold Function.comp segmentEntry ownEntry
  dsimp only
  rw [hcmd]
  rfl

/-- What the datagrams of an update carry is what its flush emits. -/
theorem update_entries {conv : UInt32} {block : IKCPCB} (h : Sound conv block) (cmd dlt : UInt32) :
    (kcpUpdate block dlt).2.flatMap (entries cmd) =
      (updateSegments block dlt).filterMap (ownEntry cmd) := by
  obtain ⟨groups, hflat, hsent, -, -⟩ := h.update_groups dlt
  have hgroups : ∀ g ∈ groups, entries cmd (segmentBytes g) = g.filterMap (ownEntry cmd) := by
    intro g hg
    apply entries_segmentBytes
    intro seg hseg
    have hmem : seg ∈ updateSegments block dlt := by
      rw [← hflat]
      exact List.mem_flatten.mpr ⟨g, hg, hseg⟩
    exact (h.updateSegments hmem).toEncodable
  rw [hsent, List.flatMap_map, ← hflat, List.filterMap_flatten, List.flatMap_def]
  exact congrArg List.flatten (List.map_congr_left hgroups)

theorem filterMap_ownEntry_none {cmd : UInt32} {segs : List IKCPSEG}
    (h : ∀ seg ∈ segs, seg.cmd ≠ cmd) : segs.filterMap (ownEntry cmd) = [] := by
  rw [List.filterMap_eq_nil_iff]
  intro seg hseg
  exact if_neg (h seg hseg)

theorem filterMap_ownEntry_all {cmd : UInt32} {segs : List IKCPSEG}
    (h : ∀ seg ∈ segs, seg.cmd = cmd) :
    segs.filterMap (ownEntry cmd) = segs.map fun seg => (seg.sn, seg.ts) := by
  rw [← List.filterMap_eq_map]
  apply List.filterMap_congr
  intro seg hseg
  exact if_pos (h seg hseg)

section Emitted

variable {conv : UInt32} {kcp : IKCPCB} (h : Sound conv kcp)

/-- Acknowledgements and probes are no data, and probes no acknowledgements. -/
theorem control_cmd {seg : IKCPSEG} (hseg : seg ∈
    probeSegments (flushProbed kcp).probe ikcpAskSend ikcpCmdWask
        (lastAck (flushSeg kcp) kcp.acklist) ++
      probeSegments (flushProbed kcp).probe ikcpAskTell ikcpCmdWins
        (lastAck (flushSeg kcp) kcp.acklist)) :
    seg.cmd ≠ ikcpCmdAck ∧ seg.cmd ≠ ikcpCmdPush := by
  have hwask : ikcpCmdWask ≠ ikcpCmdAck ∧ ikcpCmdWask ≠ ikcpCmdPush := by decide
  have hwins : ikcpCmdWins ≠ ikcpCmdAck ∧ ikcpCmdWins ≠ ikcpCmdPush := by decide
  rcases List.mem_append.mp hseg with hseg | hseg
  · rw [mem_probeSegments hseg]
    exact hwask
  · rw [mem_probeSegments hseg]
    exact hwins

include h

theorem transmission_sent {t : Transmission} (ht : t ∈ flushTransmissions kcp) :
    t.sent.cmd = ikcpCmdPush ∧ t.sent.sn = t.segment.sn ∧ t.sent.ts = kcp.current := by
  obtain ⟨hseg, hreason, hkcp⟩ := mem_flushTransmissions ht
  have hcore := stampSegment_core t.kcp t.wnd t.segment
  have hcmd := congrArg IKCPSEG.cmd hcore
  have hsn : t.sent.sn = t.segment.sn := sn_of_core hcore
  have hcurrent : t.kcp.current = kcp.current := by
    rw [hkcp]
    show (flushProbed kcp).current = kcp.current
    rw [flushProbed_eq]
  refine ⟨Eq.trans hcmd (h.opened.sendable hseg).cmd_eq, hsn, ?_⟩
  rw [← hcurrent]
  unfold Transmission.sent stampSegment
  dsimp only
  split
  · exact absurd ‹_› hreason
  · rfl
  · rfl
  · rfl

theorem flushSegments_acks : (flushSegments kcp).filterMap (ownEntry ikcpCmdAck) = kcp.acklist := by
  have hpush : ikcpCmdPush ≠ ikcpCmdAck := by decide
  have hacks : (ackSegments (flushSeg kcp) kcp.acklist).filterMap (ownEntry ikcpCmdAck) =
      kcp.acklist := by
    unfold ackSegments
    rw [List.filterMap_map]
    exact List.filterMap_some
  have hdata : (dueSegments (flushOpened kcp) (ikcpWndUnused kcp)
      (flushOpened kcp).sndBuf).filterMap (ownEntry ikcpCmdAck) = [] := by
    rw [← flushTransmissions_sent]
    apply filterMap_ownEntry_none
    intro seg hseg
    obtain ⟨t, ht, rfl⟩ := List.mem_map.mp hseg
    rw [(transmission_sent h ht).1]
    exact hpush
  unfold flushSegments
  rw [List.filterMap_append, List.filterMap_append, hacks, hdata,
    filterMap_ownEntry_none fun seg hseg => (control_cmd hseg).1, List.append_nil, List.append_nil]

theorem flushSegments_pushes :
    (flushSegments kcp).filterMap (ownEntry ikcpCmdPush) =
      (flushTransmissions kcp).map fun t => (t.segment.sn, kcp.current) := by
  have hack : ikcpCmdAck ≠ ikcpCmdPush := by decide
  have hacks : (ackSegments (flushSeg kcp) kcp.acklist).filterMap (ownEntry ikcpCmdPush) = [] := by
    apply filterMap_ownEntry_none
    intro seg hseg
    obtain ⟨ack, -, rfl⟩ := List.mem_map.mp hseg
    exact hack
  have hdata : (dueSegments (flushOpened kcp) (ikcpWndUnused kcp)
      (flushOpened kcp).sndBuf).filterMap (ownEntry ikcpCmdPush) =
        (flushTransmissions kcp).map fun t => (t.segment.sn, kcp.current) := by
    rw [← flushTransmissions_sent, filterMap_ownEntry_all, List.map_map]
    · apply List.map_congr_left
      intro t ht
      obtain ⟨-, hsn, hts⟩ := transmission_sent h ht
      exact Prod.ext hsn hts
    · intro seg hseg
      obtain ⟨t, ht, rfl⟩ := List.mem_map.mp hseg
      exact (transmission_sent h ht).1
  unfold flushSegments
  rw [List.filterMap_append, List.filterMap_append, hacks, hdata,
    filterMap_ownEntry_none fun seg hseg => (control_cmd hseg).2, List.nil_append, List.nil_append]

end Emitted

/-- The numbers that an update transmits, with its clock. -/
def updateStamps (block : IKCPCB) (dlt : UInt32) : List (UInt32 × UInt32) :=
  (kcpUpdateTransmissions block dlt).map fun t => (t.segment.sn, dlt)

section Update

variable {conv : UInt32} {block : IKCPCB} (h : Sound conv block) (dlt : UInt32)

theorem timed_acklist : (updateTimer block dlt).1.acklist = block.acklist := by
  rw [updateTimer_eq]

theorem timed_current : (updateTimer block dlt).1.current = dlt := by
  rw [updateTimer_eq]

theorem flushOpened_acklist (kcp : IKCPCB) : (flushOpened kcp).acklist = [] := by
  show (flushProbed kcp).acklist = []
  rw [flushProbed_eq]

theorem ikcpFlush_acklist {kcp : IKCPCB} (h : kcp.updated ≠ 0) :
    (ikcpFlush kcp).1.acklist = [] := by
  rw [ikcpFlush_block h]
  dsimp only
  exact flushOpened_acklist kcp

theorem update_due_acklist (hdue : (updateTimer block dlt).2 = true) :
    (ikcpUpdate block dlt).1.acklist = [] := by
  rw [ikcpUpdate_due hdue]
  exact ikcpFlush_acklist (updateTimer_updated block dlt)

include h

/-- Pending acknowledgements are told, in order, or stay pending. -/
theorem update_acks :
    (kcpUpdate block dlt).2.flatMap (entries ikcpCmdAck) ++ (kcpUpdate block dlt).1.acklist =
      block.acklist := by
  rw [update_entries h]
  unfold updateSegments kcpUpdate
  cases hdue : (updateTimer block dlt).2 with
  | false =>
      rw [ikcpUpdate_idle hdue]
      exact timed_acklist dlt
  | true =>
      have hsent := flushSegments_acks (h.timed dlt)
      rw [if_pos rfl, hsent, timed_acklist, update_due_acklist dlt hdue, List.append_nil]

/-- The data on the wire is what the data loop transmitted, stamped with the clock. -/
theorem update_pushes :
    (kcpUpdate block dlt).2.flatMap (entries ikcpCmdPush) = updateStamps block dlt := by
  rw [update_entries h]
  unfold updateSegments updateStamps kcpUpdateTransmissions
  dsimp only
  cases hdue : (updateTimer block dlt).2 with
  | false => rfl
  | true =>
      rw [if_pos rfl, if_pos rfl, flushSegments_pushes (h.timed dlt), timed_current]

end Update

/-! ## Every acknowledgement once -/

/-- What a run has read, owed for it and told. -/
structure AckLog where
  reads : List Bytes := []
  owed : List (UInt32 × UInt32) := []
  told : List (UInt32 × UInt32) := []

/-- The runs of a plug, with their log. -/
inductive Logged (conv : UInt32) : IKCPCB → AckLog → Prop where
  | new : Logged conv (newKcpPlugControlBlock conv) {}
  | send {block : IKCPCB} {log : AckLog} (data : Bytes) (run : Logged conv block log) :
      Logged conv (kcpSend block data data.length).1 log
  | update {block : IKCPCB} {log : AckLog} (dlt : UInt32) (run : Logged conv block log) :
      Logged conv (kcpUpdate block dlt).1
        { log with told := log.told ++ (kcpUpdate block dlt).2.flatMap (entries ikcpCmdAck) }
  | recv {block : IKCPCB} {log : AckLog} (input : Option Bytes) (soc : Socket) (maxlen : Int)
      (run : Logged conv block log) :
      Logged conv (kcpRecv block input soc maxlen).block
        { log with
          reads := log.reads ++ kcpRecvInputs input soc
          owed := log.owed ++ inputsWalk segmentOwed block (kcpRecvInputs input soc) }

theorem Logged.reachable {conv : UInt32} {block : IKCPCB} {log : AckLog}
    (h : Logged conv block log) : Plug.Reachable conv block := by
  induction h with
  | new => exact Relation.ReflTransGen.refl
  | send data _ ih => exact ih.tail (Call.send _ data)
  | update dlt _ ih => exact ih.tail (Call.update _ dlt)
  | recv input soc maxlen _ ih => exact ih.tail (Call.recv _ input soc maxlen)

/-- Every reachable block is reached by a run with a log. -/
theorem exists_logged {conv : UInt32} {block : IKCPCB} (h : Plug.Reachable conv block) :
    ∃ log, Logged conv block log := by
  induction h with
  | refl => exact ⟨{}, .new⟩
  | tail _ hc ih =>
      obtain ⟨log, hrun⟩ := ih
      cases hc with
      | send data => exact ⟨_, .send data hrun⟩
      | update dlt => exact ⟨_, .update dlt hrun⟩
      | recv input soc maxlen => exact ⟨_, .recv input soc maxlen hrun⟩

/-- Whatever is received, in any run: the acknowledgements sent and those pending are
together one for each data segment found below the end of the window, in the order of
arrival, with its number and time stamp. They take no more bytes than were received. -/
theorem acks_settled {conv : UInt32} {block : IKCPCB} {log : AckLog}
    (h : Logged conv block log) :
    log.told ++ block.acklist = log.owed ∧
      ikcpOverhead * log.told.length ≤ log.reads.flatten.length := by
  have hsettled : log.told ++ block.acklist = log.owed ∧
      ikcpOverhead * log.owed.length ≤ log.reads.flatten.length := by
    induction h with
    | new => exact ⟨rfl, Nat.zero_le _⟩
    | @send block log data run ih =>
        have hsame : (kcpSend block data data.length).1.acklist = block.acklist := by
          rw [kcpSend_eq]
        rw [hsame]
        exact ih
    | @update block log dlt run ih =>
        have hacks := update_acks (Plug.sound_of_reachable run.reachable) dlt
        dsimp only
        rw [List.append_assoc, hacks]
        exact ih
    | @recv block log input soc maxlen run ih =>
        dsimp only
        rw [kcpRecv_owed, ← List.append_assoc, ih.1]
        refine ⟨rfl, ?_⟩
        rw [List.length_append, Nat.mul_add, List.flatten_append, List.length_append]
        exact Nat.add_le_add ih.2 (inputsWalk_length segmentOwed_length _ _)
  obtain ⟨hall, hbytes⟩ := hsettled
  refine ⟨hall, Nat.le_trans (Nat.mul_le_mul_left _ ?_) hbytes⟩
  rw [← hall, List.length_append]
  exact Nat.le_add_right _ _

/-- A datagram that is read twice: `[1, 2]` as number 0, sent at clock 10. -/
def readTwice : List Bytes :=
  (kcpUpdate (kcpUpdate (kcpSend (newKcpPlugControlBlock 7) [1, 2] 2).1 0).1 10).2.flatMap
    fun d => [d, d]

theorem acks_settled_readTwice :
    ∃ (block : IKCPCB) (log : AckLog), Logged 7 block log ∧ log.owed = [(0, 10), (0, 10)] ∧
      log.told ++ block.acklist = log.owed ∧
      ikcpOverhead * log.told.length ≤ log.reads.flatten.length := by
  have hrun := (@Logged.new 7).recv none (readTwice.map some) 512 |>.update 0
  exact ⟨_, _, hrun, by decide, acks_settled hrun⟩

/-! ## Honest datagrams -/

/-- A datagram as plugs emit it: whole segments, small enough to be read whole. -/
structure Whole (d : Bytes) (segs : List (SegHeader × Bytes)) : Prop where
  decoded : decodeDatagram d = some segs
  short : d.length ≤ maxUdpMtu

/-- What a segment of a datagram with this command says. -/
theorem Whole.mem_entries {d : Bytes} {segs : List (SegHeader × Bytes)} (h : Whole d segs)
    {seg : SegHeader × Bytes} (hseg : seg ∈ segs) {cmd : UInt32}
    (hcmd : seg.1.cmd.toUInt32 = cmd) : (seg.1.sn, seg.1.ts) ∈ Link.entries cmd d := by
  unfold Link.entries
  rw [h.decoded, Option.getD_some]
  exact List.mem_filterMap.mpr ⟨seg, hseg, if_pos hcmd⟩

/-- The walk of `ikcp_input` meets only headers that decoding gives. -/
theorem decodeSegs_step {fuel : ℕ} {data : Bytes} {segs : List (SegHeader × Bytes)}
    (h : decodeSegs fuel data = some segs) (hlong : ¬ data.length < ikcpOverhead) :
    ∃ fuel' rest payload, segs = ((decodeHeader data).1, payload) :: rest ∧
      decodeSegs fuel' ((decodeHeader data).2.drop (decodeHeader data).1.len.toNat) =
        some rest := by
  have hne : data ≠ [] := by
    rintro rfl
    exact hlong (by decide)
  cases fuel with
  | zero =>
      rw [decodeSegs, if_neg hne] at h
      cases h
  | succ fuel =>
      rw [decodeSegs, if_neg hne, if_neg hlong] at h
      dsimp only at h
      split_ifs at h
      obtain ⟨rest, hrest, rfl⟩ := Option.map_eq_some_iff.mp h
      exact ⟨fuel, rest, _, rfl, hrest⟩

theorem inputSegment_current (st : InputState) (h : SegHeader) (payload : Bytes) :
    (inputSegment st h payload).kcp.current = st.kcp.current := by
  refine @inputSegment_of (fun kcp => kcp.current = st.kcp.current) _ _ _ rfl ?_ ?_ rfl
  · have hrest := congrArg IKCPCB.current
      (inputAck_unacked { st with kcp := inputCommon st.kcp h } h)
    exact hrest
  · rw [inputPush_eq]
    rfl

/-- Whatever is made along the walk is made of a segment of the datagram. -/
theorem mem_loopWalk {α : Type} {f : IKCPCB → SegHeader → List α} (fuel : ℕ) {fuel' : ℕ}
    {st : InputState} {data : Bytes} {segs : List (SegHeader × Bytes)}
    (h : decodeSegs fuel' data = some segs) {x : α} (hx : x ∈ loopWalk f fuel st data) :
    ∃ seg ∈ segs, ∃ kcp, kcp.current = st.kcp.current ∧ x ∈ f kcp seg.1 := by
  induction fuel generalizing fuel' st data segs with
  | zero => cases hx
  | succ fuel ih =>
      unfold loopWalk at hx
      dsimp only at hx
      split_ifs at hx with hshort hconv hlen hcmd
      · cases hx
      · cases hx
      · cases hx
      · obtain ⟨fuel'', rest, payload, rfl, hrest⟩ := decodeSegs_step h hshort
        rcases List.mem_append.mp hx with hx | hx
        · exact ⟨_, List.mem_cons_self, st.kcp, rfl, hx⟩
        · obtain ⟨seg, hseg, kcp, hcurrent, hin⟩ := ih hrest hx
          rw [inputSegment_current] at hcurrent
          exact ⟨seg, List.mem_cons_of_mem _ hseg, kcp, hcurrent, hin⟩
      · cases hx

theorem ikcpInput_current (kcp : IKCPCB) (data : Bytes) :
    (ikcpInput kcp data).1.current = kcp.current := by
  apply ikcpInput_keeps (P := fun k => k.current = kcp.current)
  · intro st h payload hst
    rw [inputSegment_current, hst]
  · intro st prevUna hst
    rw [inputTail_eq]
    exact hst
  · rfl

/-! ### Several datagrams -/

theorem mem_inputsWalk {α : Type} {f : IKCPCB → SegHeader → List α} {kcp : IKCPCB}
    {inputs : List Bytes} {x : α} (h : x ∈ inputsWalk f kcp inputs) :
    ∃ d ∈ inputs, ∃ kcp', kcp'.current = kcp.current ∧ x ∈ inputWalk f kcp' d := by
  induction inputs generalizing kcp with
  | nil => cases h
  | cons d inputs ih =>
      rcases List.mem_append.mp h with h | h
      · exact ⟨d, List.mem_cons_self, kcp, rfl, h⟩
      · obtain ⟨d', hd', kcp', hcurrent, hx⟩ := ih h
        exact ⟨d', List.mem_cons_of_mem _ hd', kcp', hcurrent.trans (ikcpInput_current _ _), hx⟩

/-- Datagrams that are small enough are read as they are. -/
theorem mem_kcpRecvInputs {input : Option Bytes} {pending : List Bytes}
    (hshort : ∀ d ∈ pending, d.length ≤ maxUdpMtu) {d : Bytes}
    (h : d ∈ kcpRecvInputs input (pending.map some)) : d ∈ input.toList ++ pending := by
  have hloop : ∀ d ∈ loopInputs (pending.map some), d ∈ pending := by
    clear h
    induction pending with
    | nil => exact List.forall_mem_nil _
    | cons first pending ih =>
        have hfirst : first.take maxUdpMtu = first :=
          List.take_of_length_le (hshort first List.mem_cons_self)
        have hrest := ih fun d hd => hshort d (List.mem_cons_of_mem _ hd)
        intro d hd
        rw [List.map_cons, loopInputs, hfirst] at hd
        split at hd
        · rcases List.mem_cons.mp hd with rfl | hd
          · exact List.mem_cons_self
          · exact List.mem_cons_of_mem _ (hrest d hd)
        · cases hd
  unfold kcpRecvInputs at h
  cases input with
  | none => exact hloop d h
  | some data =>
      dsimp only at h
      split at h
      · rcases List.mem_cons.mp h with rfl | h
        · exact List.mem_cons_self
        · exact List.mem_cons_of_mem _ (hloop d h)
      · exact List.mem_cons_of_mem _ (hloop d h)

/-! ## Two plugs -/

/-- The runs of a link with every transmission that each side has made: the number and the
clock of the update. -/
inductive Stamped (conv : UInt32) : State → (Side → List (UInt32 × UInt32)) → Prop where
  | start : Stamped conv (State.start conv) fun _ => []
  | update {s : State} {stamps : Side → List (UInt32 × UInt32)} (side : Side) (dlt : UInt32)
      (run : Stamped conv s stamps) :
      Stamped conv (s.update side dlt)
        (Function.update stamps side (stamps side ++ updateStamps (s.ep side).kcp dlt))
  | send {s : State} {stamps : Side → List (UInt32 × UInt32)} (side : Side) (payload : Bytes)
      (run : Stamped conv s stamps) : Stamped conv (s.send side payload) stamps
  | recv {s : State} {stamps : Side → List (UInt32 × UInt32)} (side : Side)
      (input : Option Bytes) (pending rest : List Bytes) (maxlen : Int)
      (h : (s.net side.other).Perm (input.toList ++ pending ++ rest))
      (run : Stamped conv s stamps) :
      Stamped conv (s.recv side input pending rest maxlen) stamps
  | drop {s : State} {stamps : Side → List (UInt32 × UInt32)} (side : Side) (d : Bytes)
      (rest : List Bytes) (h : (s.net side).Perm (d :: rest)) (run : Stamped conv s stamps) :
      Stamped conv { s with net := Function.update s.net side rest } stamps
  | duplicate {s : State} {stamps : Side → List (UInt32 × UInt32)} (side : Side) (d : Bytes)
      (h : d ∈ s.net side) (run : Stamped conv s stamps) :
      Stamped conv { s with net := Function.update s.net side (d :: s.net side) } stamps

variable {conv : UInt32} {s : State} {stamps : Side → List (UInt32 × UInt32)}

theorem Stamped.reachable (h : Stamped conv s stamps) : Reachable conv s := by
  induction h with
  | start => exact Relation.ReflTransGen.refl
  | update side dlt _ ih => exact ih.tail (Step.update _ side dlt)
  | send side payload _ ih => exact ih.tail (Step.send _ side payload)
  | recv side input pending rest maxlen hnet _ ih =>
      exact ih.tail (Step.recv _ side input pending rest maxlen hnet)
  | drop side d rest hnet _ ih => exact ih.tail (Step.drop _ side d rest hnet)
  | duplicate side d hd _ ih => exact ih.tail (Step.duplicate _ side d hd)

/-- Every reachable state is reached by such a run. -/
theorem exists_stamped (h : Reachable conv s) : ∃ stamps, Stamped conv s stamps := by
  induction h with
  | refl => exact ⟨_, .start⟩
  | tail _ hs ih =>
      obtain ⟨stamps, hrun⟩ := ih
      cases hs with
      | send side payload => exact ⟨_, .send side payload hrun⟩
      | update side dlt => exact ⟨_, .update side dlt hrun⟩
      | recv side input pending rest maxlen hnet =>
          exact ⟨_, .recv side input pending rest maxlen hnet hrun⟩
      | drop side d rest hnet => exact ⟨_, .drop side d rest hnet hrun⟩
      | duplicate side d hd => exact ⟨_, .duplicate side d hd hrun⟩

/-- Data in a datagram of `side` was transmitted by it, acknowledgements echo the other side. -/
structure Genuine (stamps : Side → List (UInt32 × UInt32)) (side : Side) (d : Bytes) : Prop where
  whole : ∃ segs, Whole d segs
  pushes : ∀ e ∈ entries ikcpCmdPush d, e ∈ stamps side
  acks : ∀ e ∈ entries ikcpCmdAck d, e ∈ stamps side.other

structure Echoes (s : State) (stamps : Side → List (UInt32 × UInt32)) : Prop where
  flight : ∀ side, ∀ d ∈ s.net side, Genuine stamps side d
  pending : ∀ side, ∀ e ∈ (s.ep side).kcp.acklist, e ∈ stamps side.other

theorem Genuine.owed {side : Side} {d : Bytes} (h : Genuine stamps side d) {kcp : IKCPCB}
    {e : UInt32 × UInt32} (he : e ∈ inputWalk segmentOwed kcp d) : e ∈ stamps side := by
  obtain ⟨segs, hwhole⟩ := h.whole
  obtain ⟨seg, hseg, kcp', -, hin⟩ := mem_loopWalk _ hwhole.decoded he
  unfold segmentOwed at hin
  split at hin
  · rename_i hpush
    rw [List.mem_singleton.mp hin]
    exact h.pushes _ (hwhole.mem_entries hseg hpush.1)
  · cases hin

theorem Genuine.samples {side : Side} {d : Bytes} (h : Genuine stamps side d) {kcp : IKCPCB}
    {x : Sample} (hx : x ∈ inputWalk segmentSamples kcp d) :
    ∃ e ∈ stamps side.other, x.rtt = itimediff kcp.current e.2 := by
  obtain ⟨segs, hwhole⟩ := h.whole
  obtain ⟨seg, hseg, kcp', hcurrent, hin⟩ := mem_loopWalk _ hwhole.decoded hx
  unfold segmentSamples at hin
  dsimp only at hin
  split at hin
  · rename_i hack
    rw [List.mem_singleton.mp hin, ← show kcp'.current = kcp.current from hcurrent]
    exact ⟨_, h.acks _ (hwhole.mem_entries hseg hack.1), rfl⟩
  · cases hin

theorem Genuine.mono {stamps' : Side → List (UInt32 × UInt32)} {side : Side} {d : Bytes}
    (h : Genuine stamps side d) (hgrow : ∀ side, stamps side ⊆ stamps' side) :
    Genuine stamps' side d where
  whole := h.whole
  pushes := fun e he => hgrow side (h.pushes e he)
  acks := fun e he => hgrow side.other (h.acks e he)

theorem Echoes.start : Echoes (State.start conv) fun _ => [] where
  flight := fun _ => List.forall_mem_nil _
  pending := fun _ => List.forall_mem_nil _

section Steps

variable (h : Echoes s stamps)

include h

/-- A side whose ack list owes nothing new. -/
theorem Echoes.pending_update (side : Side) {e : Endpoint}
    (he : ∀ a ∈ e.kcp.acklist, a ∈ stamps side.other) :
    ∀ x, ∀ a ∈ (Function.update s.ep side e x).kcp.acklist, a ∈ stamps x.other :=
  @forall_update (fun x e => ∀ a ∈ e.kcp.acklist, a ∈ stamps x.other) _ _ _ he h.pending

/-- A side with these datagrams in flight. -/
theorem Echoes.flight_update (side : Side) {ds : List Bytes}
    (hds : ∀ d ∈ ds, Genuine stamps side d) :
    ∀ x, ∀ d ∈ Function.update s.net side ds x, Genuine stamps x d :=
  (Function.forall_update_iff s.net fun x ds => ∀ d ∈ ds, Genuine stamps x d).mpr
    ⟨hds, fun x _ => h.flight x⟩

theorem Echoes.mono {stamps' : Side → List (UInt32 × UInt32)}
    (hgrow : ∀ side, stamps side ⊆ stamps' side) : Echoes s stamps' where
  flight := fun side d hd => (h.flight side d hd).mono hgrow
  pending := fun side e he => hgrow side.other (h.pending side e he)

theorem Echoes.send (side : Side) (payload : Bytes) : Echoes (s.send side payload) stamps := by
  have hsame : ((s.ep side).send payload).kcp.acklist = (s.ep side).kcp.acklist := by
    show (kcpSend (s.ep side).kcp payload payload.length).1.acklist = _
    rw [kcpSend_eq]
  constructor
  · exact h.flight
  · apply h.pending_update side
    intro e he
    exact h.pending side e (hsame ▸ he)

theorem Echoes.recv (side : Side) (input : Option Bytes) (pending rest : List Bytes)
    (maxlen : Int) (hnet : (s.net side.other).Perm (input.toList ++ pending ++ rest)) :
    Echoes (s.recv side input pending rest maxlen) stamps := by
  have hgenuine : ∀ d ∈ input.toList ++ pending, Genuine stamps side.other d := fun d hd =>
    h.flight side.other d (hnet.mem_iff.mpr (List.mem_append_left _ hd))
  have hshort : ∀ d ∈ pending, d.length ≤ maxUdpMtu := by
    intro d hd
    obtain ⟨segs, hwhole⟩ := (hgenuine d (List.mem_append_right _ hd)).whole
    exact hwhole.short
  constructor
  · apply h.flight_update
    exact fun d hd => h.flight side.other d (hnet.mem_iff.mpr (List.mem_append_right _ hd))
  · apply h.pending_update
    intro e he
    have howed := kcpRecv_owed (s.ep side).kcp input (pending.map some) maxlen
    rcases List.mem_append.mp (howed ▸ he) with he | he
    · exact h.pending side e he
    · obtain ⟨d, hd, kcp', -, hin⟩ := mem_inputsWalk he
      exact (hgenuine d (mem_kcpRecvInputs hshort hd)).owed hin

/-- What an update emits is genuine once its transmissions are noted. -/
theorem Echoes.emitted (hreach : Reachable conv s) (side : Side) (dlt : UInt32)
    (hnoted : updateStamps (s.ep side).kcp dlt ⊆ stamps side) :
    ∀ d ∈ (kcpUpdate (s.ep side).kcp dlt).2, Genuine stamps side d := by
  have hsound := sound_of_reachable hreach side
  intro d hd
  refine ⟨?_, ?_, ?_⟩
  · obtain ⟨groups, hflat, hsent, -, hfit⟩ := hsound.update_groups dlt
    rw [hsent] at hd
    obtain ⟨g, hg, rfl⟩ := List.mem_map.mp hd
    refine ⟨_, decodeDatagram_segmentBytes ?_, hfit g hg⟩
    intro seg hseg
    have hmem : seg ∈ updateSegments (s.ep side).kcp dlt := by
      rw [← hflat]
      exact List.mem_flatten.mpr ⟨g, hg, hseg⟩
    exact (hsound.updateSegments hmem).toEncodable
  · intro e he
    apply hnoted
    rw [← update_pushes hsound]
    exact List.mem_flatMap.mpr ⟨d, hd, he⟩
  · intro e he
    apply h.pending side
    rw [← update_acks hsound dlt]
    exact List.mem_append_left _ (List.mem_flatMap.mpr ⟨d, hd, he⟩)

theorem Echoes.update (hreach : Reachable conv s) (side : Side) (dlt : UInt32) :
    Echoes (s.update side dlt)
      (Function.update stamps side (stamps side ++ updateStamps (s.ep side).kcp dlt)) := by
  have hgrow : ∀ x, stamps x ⊆
      Function.update stamps side (stamps side ++ updateStamps (s.ep side).kcp dlt) x := by
    intro x
    by_cases hx : x = side
    · subst hx
      rw [Function.update_self]
      exact List.subset_append_left _ _
    · rw [Function.update_of_ne hx]
      exact List.Subset.refl _
  have hnoted : updateStamps (s.ep side).kcp dlt ⊆
      Function.update stamps side (stamps side ++ updateStamps (s.ep side).kcp dlt) side := by
    rw [Function.update_self]
    exact List.subset_append_right _ _
  have hgrown := h.mono hgrow
  constructor
  · apply hgrown.flight_update
    intro d hd
    rcases List.mem_append.mp hd with hd | hd
    · exact hgrown.flight side d hd
    · exact hgrown.emitted hreach side dlt hnoted d hd
  · apply hgrown.pending_update
    intro e he
    apply hgrown.pending side
    rw [← update_acks (sound_of_reachable hreach side) dlt]
    exact List.mem_append_right _ he

end Steps

theorem Stamped.echoes (h : Stamped conv s stamps) : Echoes s stamps := by
  induction h with
  | start => exact Echoes.start
  | update side dlt run ih => exact ih.update run.reachable side dlt
  | send side payload _ ih => exact ih.send side payload
  | recv side input pending rest maxlen hnet _ ih =>
      exact ih.recv side input pending rest maxlen hnet
  | drop side d rest hnet _ ih =>
      refine ⟨ih.flight_update side fun y hy => ?_, ih.pending⟩
      exact ih.flight side y (hnet.mem_iff.mpr (List.mem_cons_of_mem _ hy))
  | duplicate side d hd _ ih =>
      refine ⟨ih.flight_update side ?_, ih.pending⟩
      exact List.forall_mem_cons.mpr ⟨ih.flight side d hd, ih.flight side⟩

/-- Between two plugs every acknowledgement echoes a transmission of the other side: what is
pending or in flight names a number and the clock of an update that transmitted it. And what
`ikcp_update_ack` measures, whatever is delivered, is the time since such an update. -/
theorem acks_echo (h : Stamped conv s stamps) (side : Side) :
    (∀ e ∈ (s.ep side).kcp.acklist, e ∈ stamps side.other) ∧
    (∀ d ∈ s.net side, ∀ e ∈ entries ikcpCmdAck d, e ∈ stamps side.other) ∧
    ∀ (input : Option Bytes) (pending rest : List Bytes),
      (s.net side.other).Perm (input.toList ++ pending ++ rest) →
      ∀ x ∈ kcpRecvSamples (s.ep side).kcp input (pending.map some),
        ∃ e ∈ stamps side, x.rtt = itimediff (s.ep side).kcp.current e.2 := by
  have hechoes := h.echoes
  refine ⟨hechoes.pending side, fun d hd => (hechoes.flight side d hd).acks, ?_⟩
  intro input pending rest hnet x hx
  have hgenuine : ∀ d ∈ input.toList ++ pending, Genuine stamps side.other d := fun d hd =>
    hechoes.flight side.other d (hnet.mem_iff.mpr (List.mem_append_left _ hd))
  have hshort : ∀ d ∈ pending, d.length ≤ maxUdpMtu := by
    intro d hd
    obtain ⟨segs, hwhole⟩ := (hgenuine d (List.mem_append_right _ hd)).whole
    exact hwhole.short
  obtain ⟨d, hd, kcp', hcurrent, hin⟩ := mem_inputsWalk hx
  obtain ⟨e, he, hrtt⟩ := (hgenuine d (mem_kcpRecvInputs hshort hd)).samples hin
  refine ⟨e, ?_, ?_⟩
  · have hother : side.other.other = side := by cases side <;> rfl
    rw [← hother]
    exact he
  · rw [hrtt, hcurrent]

/-- One message, sent at clock 10. -/
def stamped : State :=
  ((State.start 7).send .left [1, 2] |>.update .left 0).update .left 10

/-- The message, received and acknowledged. -/
def acknowledged : State :=
  (stamped.recv .right none (stamped.net .left) [] 512).update .right 20

theorem acks_echo_acknowledged :
    ∃ stamps, Stamped 7 acknowledged stamps ∧ stamps .left = [(0, 10)] ∧
      (∀ d ∈ acknowledged.net .right, ∀ e ∈ entries ikcpCmdAck d, e ∈ stamps .left) ∧
      ∀ x ∈ kcpRecvSamples (acknowledged.ep .left).kcp none
          ((acknowledged.net .right).map some),
        ∃ e ∈ stamps .left, x.rtt = itimediff (acknowledged.ep .left).kcp.current e.2 := by
  have hsent := ((@Stamped.start 7).send .left [1, 2] |>.update .left 0).update .left 10
  have hall : (stamped.net .left).Perm (stamped.net .left ++ []) :=
    List.Perm.of_eq (List.append_nil _).symm
  have hrun := (hsent.recv .right none (stamped.net .left) [] 512 hall).update .right 20
  have hacks := (acks_echo hrun .right).2.1
  have hsamples := (acks_echo hrun .left).2.2 none (acknowledged.net .right) []
    (List.Perm.of_eq (List.append_nil _).symm)
  exact ⟨_, hrun, by decide, hacks, hsamples⟩

end UdpKcp.Link
