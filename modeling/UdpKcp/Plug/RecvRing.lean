import UdpKcp.Ikcp.Windows
import UdpKcp.Plug.Reachable

/-! # The receiving half on the circle

`rcv_queue` holds consecutive numbers up to `rcv_nxt`, `rcv_buf` a window from
there, and only a full queue keeps the next number waiting. Forged segments
change nothing of this: a number outside the window is not stored, one inside
is stored once and in its place.
-/

namespace UdpKcp.Plug

open ByteCodec (Bytes)
open Serial (Window offset)
open Ikcp

/-- The receiving half while a move from the buffer to the queue may be due. -/
structure RecvRing (kcp : IKCPCB) : Prop where
  wnd : kcp.rcvWnd.toNat = plugWnd
  queued : kcp.nrcvQue = kcp.rcvQueue.length
  counted : kcp.nrcvBuf = kcp.rcvBuf.length
  room : kcp.nrcvQue ≤ plugWnd
  order : ∃ first, numbers kcp.rcvQueue = Serial.run first kcp.rcvQueue.length ∧
    kcp.rcvNxt = first + UInt32.ofNat kcp.rcvQueue.length
  window : Window kcp.rcvNxt plugWnd (numbers kcp.rcvBuf)

/-- The receiving half between operations. -/
structure RecvSettled (kcp : IKCPCB) : Prop extends RecvRing kcp where
  ready : ∀ seg ∈ kcp.rcvBuf.head?, seg.sn = kcp.rcvNxt → kcp.nrcvQue = plugWnd

theorem RecvSettled.new (conv : UInt32) : RecvSettled (newKcpPlugControlBlock conv) where
  wnd := rfl
  queued := rfl
  counted := rfl
  room := Nat.zero_le _
  order := ⟨0, rfl, rfl⟩
  window := Window.nil _ _
  ready := by
    intro seg hseg
    cases hseg

/-- A step that leaves the receiving half alone. -/
structure RecvFixed (old new : IKCPCB) : Prop where
  wnd : new.rcvWnd = old.rcvWnd
  nxt : new.rcvNxt = old.rcvNxt
  queue : new.rcvQueue = old.rcvQueue
  queued : new.nrcvQue = old.nrcvQue
  buf : new.rcvBuf = old.rcvBuf
  counted : new.nrcvBuf = old.nrcvBuf

theorem RecvFixed.trans {a b c : IKCPCB} (hab : RecvFixed a b) (hbc : RecvFixed b c) :
    RecvFixed a c :=
  ⟨hbc.wnd.trans hab.wnd, hbc.nxt.trans hab.nxt, hbc.queue.trans hab.queue,
    hbc.queued.trans hab.queued, hbc.buf.trans hab.buf, hbc.counted.trans hab.counted⟩

theorem RecvSettled.fixed {kcp kcp' : IKCPCB} (h : RecvSettled kcp) (hf : RecvFixed kcp kcp') :
    RecvSettled kcp' := by
  obtain ⟨hwnd, hnxt, hqueue, hqueued, hbuf, hcounted⟩ := hf
  refine ⟨⟨?_, ?_, ?_, ?_, ?_, ?_⟩, ?_⟩
  · rw [hwnd]; exact h.wnd
  · rw [hqueued, hqueue]; exact h.queued
  · rw [hcounted, hbuf]; exact h.counted
  · rw [hqueued]; exact h.room
  · rw [hqueue, hnxt]; exact h.order
  · rw [hbuf, hnxt]; exact h.window
  · rw [hbuf, hnxt, hqueued]; exact h.ready

/-! ## Moving and inserting -/

/-- The queue has grown at its end, and `rcv_nxt` with it. -/
def Gained (old new : IKCPCB) : Prop :=
  ∃ segs, new.rcvQueue = old.rcvQueue ++ segs ∧
    new.rcvNxt = old.rcvNxt + UInt32.ofNat segs.length

theorem Gained.refl (kcp : IKCPCB) : Gained kcp kcp :=
  ⟨[], (List.append_nil _).symm, (UInt32.add_zero _).symm⟩

theorem Gained.trans {a b c : IKCPCB} (hab : Gained a b) (hbc : Gained b c) : Gained a c := by
  obtain ⟨xs, hxs, hnxt⟩ := hab
  obtain ⟨ys, hys, hnxt'⟩ := hbc
  refine ⟨xs ++ ys, ?_, ?_⟩
  · rw [hys, hxs, List.append_assoc]
  · rw [hnxt', hnxt, List.length_append, UInt32.ofNat_add, UInt32.add_assoc]

theorem Gained.fixed {a b c : IKCPCB} (hab : Gained a b) (hbc : RecvFixed b c) : Gained a c := by
  obtain ⟨segs, hqueue, hnxt⟩ := hab
  exact ⟨segs, hbc.queue.trans hqueue, hbc.nxt.trans hnxt⟩

/-- What `rcv_buf -> rcv_queue` moves. -/
structure Promoted (old new : IKCPCB) (segs : List IKCPSEG) : Prop where
  queue : new.rcvQueue = old.rcvQueue ++ segs
  buf : old.rcvBuf = segs ++ new.rcvBuf
  nxt : new.rcvNxt = old.rcvNxt + UInt32.ofNat segs.length

theorem RecvRing.moveRcvBuf {kcp : IKCPCB} (h : RecvRing kcp) :
    RecvSettled (moveRcvBuf kcp) ∧ ∃ segs, Promoted kcp (Ikcp.moveRcvBuf kcp) segs := by
  have hroom : kcp.nrcvQue ≤ kcp.rcvWnd.toNat := by
    rw [h.wnd]
    exact h.room
  have htaken := moveAvailable_taken kcp.rcvNxt kcp.rcvBuf hroom
  have hwindow := moveAvailable_window hroom h.window (show plugWnd < 2 ^ 32 by decide)
  have happend := moveAvailable_append kcp.rcvWnd kcp.rcvNxt kcp.nrcvQue kcp.rcvBuf
  have hlen := congrArg List.length happend
  rw [List.length_append] at hlen
  obtain ⟨first, hnum, hnxt⟩ := h.order
  refine ⟨⟨⟨h.wnd, ?_, ?_, ?_, ⟨first, ?_, ?_⟩, ?_⟩, ?_⟩, _, rfl, happend.symm, rfl⟩
  · unfold Ikcp.moveRcvBuf
    dsimp only
    rw [List.length_append, h.queued]
  · unfold Ikcp.moveRcvBuf
    dsimp only
    rw [h.counted]
    omega
  · unfold Ikcp.moveRcvBuf
    dsimp only
    rw [← h.wnd]
    exact htaken.count_le
  · unfold Ikcp.moveRcvBuf
    dsimp only
    rw [numbers_append, hnum, htaken.numbers, List.length_append, Serial.run_append, ← hnxt]
  · unfold Ikcp.moveRcvBuf
    dsimp only
    rw [hnxt, List.length_append, UInt32.ofNat_add, UInt32.add_assoc]
  · exact hwindow.mono (Nat.sub_le _ _)
  · intro seg hs heq
    rw [← h.wnd]
    exact htaken.ready seg hs heq

/-- The guards of the data branch put the number inside the window. -/
theorem offset_of_guards {sn nxt wnd : UInt32} (hwnd : wnd.toNat = plugWnd)
    (hlimit : itimediff sn (nxt + wnd) < 0) (hnxt : itimediff sn nxt ≥ 0) :
    offset nxt sn < plugWnd := by
  have hplug : plugWnd = 128 := rfl
  have hbase : itimediff sn nxt = _ := Serial.diff_base nxt sn
  have hsn := Serial.offset_lt nxt sn
  have hend : offset nxt (nxt + wnd) = plugWnd := (Serial.offset_add_self nxt wnd).trans hwnd
  have hnear : offset nxt sn < 2 ^ 31 := by
    split at hbase <;> omega
  have hdiff : itimediff sn (nxt + wnd) = _ :=
    Serial.diff_eq_offset nxt hnear (by omega)
  omega

theorem RecvSettled.parseData {kcp : IKCPCB} (h : RecvSettled kcp) (newseg : IKCPSEG) :
    RecvSettled (ikcpParseData kcp newseg) ∧ Gained kcp (ikcpParseData kcp newseg) := by
  have hplug : plugWnd ≤ 2 ^ 31 := by decide
  unfold ikcpParseData
  by_cases hout : itimediff newseg.sn (kcp.rcvNxt + kcp.rcvWnd) ≥ 0 ∨
      itimediff newseg.sn kcp.rcvNxt < 0
  · rw [if_pos hout]
    exact ⟨h, Gained.refl kcp⟩
  · rw [if_neg hout]
    dsimp only
    have hin := @offset_of_guards newseg.sn kcp.rcvNxt kcp.rcvWnd h.wnd (by omega) (by omega)
    rcases insert_window h.window hplug hin with ⟨hnone, -⟩ | ⟨out, hsome, -, hperm, hwindow⟩
    · rw [hnone]
      obtain ⟨hsettled, segs, hp⟩ := h.toRecvRing.moveRcvBuf
      exact ⟨hsettled, segs, hp.queue, hp.nxt⟩
    · rw [hsome]
      have hring : RecvRing { kcp with rcvBuf := out.reverse, nrcvBuf := kcp.nrcvBuf + 1 } := by
        refine ⟨h.wnd, h.queued, ?_, h.room, h.order, hwindow⟩
        show kcp.nrcvBuf + 1 = out.reverse.length
        rw [hperm.length_eq, List.length_cons, h.counted]
      obtain ⟨hsettled, segs, hp⟩ := hring.moveRcvBuf
      exact ⟨hsettled, segs, hp.queue, hp.nxt⟩

/-! ## Input -/

theorem RecvSettled.inputPush {kcp : IKCPCB} (h : RecvSettled kcp) (header : SegHeader)
    (payload : Bytes) :
    RecvSettled (inputPush kcp header payload) ∧
      Gained kcp (Ikcp.inputPush kcp header payload) := by
  have hack : RecvSettled (ikcpAckPush kcp header.sn header.ts) :=
    h.fixed ⟨rfl, rfl, rfl, rfl, rfl, rfl⟩
  unfold Ikcp.inputPush
  dsimp only
  split_ifs
  · exact hack.parseData (receivedSegment header payload)
  · exact ⟨hack, Gained.refl kcp⟩
  · exact ⟨h, Gained.refl kcp⟩

/-- The acknowledgement branch does not touch the receiving half. -/
theorem RecvFixed.inputAck (st : InputState) (header : SegHeader) :
    RecvFixed st.kcp (inputAck st header).kcp := by
  have hsame := inputAck_unacked st header
  have hwnd := congrArg IKCPCB.rcvWnd hsame
  have hnxt := congrArg IKCPCB.rcvNxt hsame
  have hqueue := congrArg IKCPCB.rcvQueue hsame
  have hqueued := congrArg IKCPCB.nrcvQue hsame
  have hbuf := congrArg IKCPCB.rcvBuf hsame
  have hcounted := congrArg IKCPCB.nrcvBuf hsame
  exact ⟨hwnd, hnxt, hqueue, hqueued, hbuf, hcounted⟩

theorem RecvSettled.inputSegment {st : InputState} (h : RecvSettled st.kcp) (header : SegHeader)
    (payload : Bytes) :
    RecvSettled (inputSegment st header payload).kcp ∧
      Gained st.kcp (Ikcp.inputSegment st header payload).kcp := by
  have hcommon : RecvFixed st.kcp (inputCommon st.kcp header) := ⟨rfl, rfl, rfl, rfl, rfl, rfl⟩
  rcases inputSegment_cases st header payload with ⟨-, heq⟩ | ⟨-, heq⟩ | ⟨-, heq⟩ | ⟨-, -, -, heq⟩
  · rw [heq]
    have hfixed := hcommon.trans
      (RecvFixed.inputAck { st with kcp := inputCommon st.kcp header } header)
    exact ⟨h.fixed hfixed, (Gained.refl st.kcp).fixed hfixed⟩
  · rw [heq]
    exact (h.fixed hcommon).inputPush header payload
  · rw [heq]
    exact ⟨h.fixed ⟨rfl, rfl, rfl, rfl, rfl, rfl⟩, Gained.refl st.kcp⟩
  · rw [heq]
    exact ⟨h.fixed hcommon, Gained.refl st.kcp⟩

/-- Datagrams of any content keep the ring and only add to the end of the queue. -/
theorem RecvSettled.kcpRecvInput {block : IKCPCB} (h : RecvSettled block) (input : Option Bytes)
    (soc : Socket) :
    RecvSettled (kcpRecvInput block input soc).1 ∧
      Gained block (kcpRecvInput block input soc).1 := by
  apply kcpRecvInput_keeps (P := fun k => RecvSettled k ∧ Gained block k) _ input soc
    ⟨h, Gained.refl block⟩
  rintro kcp data ⟨hk, hgained⟩
  apply ikcpInput_keeps (P := fun k => RecvSettled k ∧ Gained block k) _ _ data ⟨hk, hgained⟩
  · rintro st header payload ⟨hst, hg⟩
    obtain ⟨hnext, hg'⟩ := hst.inputSegment header payload
    exact ⟨hnext, hg.trans hg'⟩
  · rintro st prevUna ⟨hst, hg⟩
    have hfixed : RecvFixed st.kcp (inputTail st prevUna) := by
      rw [inputTail_eq]
      exact ⟨rfl, rfl, rfl, rfl, rfl, rfl⟩
    exact ⟨hst.fixed hfixed, hg.fixed hfixed⟩

/-! ## Receiving -/

theorem mergeFragments_pos {queue : List IKCPSEG} (h : queue ≠ []) :
    0 < (mergeFragments queue).1.length := by
  obtain ⟨seg, p, rfl⟩ := List.exists_cons_of_ne_nil h
  unfold mergeFragments
  split <;> exact Nat.succ_pos _

theorem RecvRing.dropMessage {kcp : IKCPCB} (h : RecvRing kcp) : RecvRing (dropMessage kcp) := by
  have happend := mergeFragments_append kcp.rcvQueue
  obtain ⟨first, hnum, hnxt⟩ := h.order
  have hlen := congrArg List.length happend
  rw [List.length_append] at hlen
  have hqueued := h.queued
  have hroom := h.room
  refine ⟨h.wnd, ?_, h.counted, ?_,
    ⟨first + UInt32.ofNat (mergeFragments kcp.rcvQueue).1.length, ?_, ?_⟩, h.window⟩
  · unfold Ikcp.dropMessage
    dsimp only
    omega
  · unfold Ikcp.dropMessage
    dsimp only
    omega
  · have hdrop : numbers (mergeFragments kcp.rcvQueue).2 =
        (numbers kcp.rcvQueue).drop (mergeFragments kcp.rcvQueue).1.length := by
      have hsplit := congrArg numbers happend
      rw [numbers_append] at hsplit
      rw [← hsplit, List.drop_left' (numbers_length _)]
    show numbers (mergeFragments kcp.rcvQueue).2 = _
    rw [hdrop, hnum, ← hlen, Serial.run_drop]
    rfl
  · show kcp.rcvNxt = _ + UInt32.ofNat (mergeFragments kcp.rcvQueue).2.length
    rw [UInt32.add_assoc, ← UInt32.ofNat_add, hlen]
    exact hnxt

/-- A successful `ikcp_recv` takes the first segments of queue and buffer together, and
leaves the others as they are. -/
structure Takes (old new : IKCPCB) (taken : List IKCPSEG) : Prop where
  held : old.rcvQueue ++ old.rcvBuf = taken ++ (new.rcvQueue ++ new.rcvBuf)
  nxt : ∃ k, new.rcvNxt = old.rcvNxt + UInt32.ofNat k ∧ k + new.rcvBuf.length = old.rcvBuf.length

theorem Takes.nothing (kcp : IKCPCB) : Takes kcp kcp [] :=
  ⟨rfl, 0, (UInt32.add_zero _).symm, Nat.zero_add _⟩

theorem Takes.trans {a b c : IKCPCB} {xs ys : List IKCPSEG} (hab : Takes a b xs)
    (hbc : Takes b c ys) : Takes a c (xs ++ ys) := by
  obtain ⟨k, hk, hlen⟩ := hab.nxt
  obtain ⟨k', hk', hlen'⟩ := hbc.nxt
  refine ⟨?_, k + k', ?_, ?_⟩
  · rw [hab.held, hbc.held, List.append_assoc]
  · rw [hk', hk, UInt32.ofNat_add, UInt32.add_assoc]
  · omega

theorem RecvSettled.ikcpRecv {kcp kcp' : IKCPCB} (h : RecvSettled kcp) {len : Int} {bytes : Bytes}
    (hlen : 0 ≤ len) (hrecv : ikcpRecv kcp len = .ok (bytes, kcp')) :
    RecvSettled kcp' ∧ Takes kcp kcp' (mergeFragments kcp.rcvQueue).1 := by
  obtain ⟨-, -, -, -, probe, rfl, -⟩ := ikcpRecv_ok hlen hrecv
  obtain ⟨hsettled, segs, hp⟩ := h.toRecvRing.dropMessage.moveRcvBuf
  have hbuf : kcp.rcvBuf = segs ++ (moveRcvBuf (dropMessage kcp)).rcvBuf := hp.buf
  have hqueue : (moveRcvBuf (dropMessage kcp)).rcvQueue =
      (mergeFragments kcp.rcvQueue).2 ++ segs := hp.queue
  have happend := mergeFragments_append kcp.rcvQueue
  refine ⟨hsettled.fixed ⟨rfl, rfl, rfl, rfl, rfl, rfl⟩, ?_, segs.length, hp.nxt, ?_⟩
  · show _ = _ ++ ((moveRcvBuf (dropMessage kcp)).rcvQueue ++
      (moveRcvBuf (dropMessage kcp)).rcvBuf)
    rw [hqueue, List.append_assoc, ← hbuf, ← List.append_assoc, happend]
  · show segs.length + (moveRcvBuf (dropMessage kcp)).rcvBuf.length = _
    rw [hbuf, List.length_append]

theorem RecvSettled.kcpRecv {block : IKCPCB} (h : RecvSettled block) (input : Option Bytes)
    (soc : Socket) (maxlen : Int) : RecvSettled (kcpRecv block input soc maxlen).block :=
  drain_keeps (fun _ _ _ _ hlen hr hk => (hk.ikcpRecv hlen hr).1) maxlen
    (h.kcpRecvInput input soc).1

/-! ## Sending and the passing of time -/

theorem RecvFixed.send (block : IKCPCB) (data : Bytes) (len : Int) :
    RecvFixed block (kcpSend block data len).1 := by
  rw [kcpSend_eq]
  exact ⟨rfl, rfl, rfl, rfl, rfl, rfl⟩

theorem RecvFixed.update (block : IKCPCB) (dlt : UInt32) :
    RecvFixed block (kcpUpdate block dlt).1 := by
  have htimed : RecvFixed block (updateTimer block dlt).1 := by
    rw [updateTimer_eq]
    exact ⟨rfl, rfl, rfl, rfl, rfl, rfl⟩
  have hopened : ∀ kcp, RecvFixed kcp (flushOpened kcp) := by
    intro kcp
    have hprobed : RecvFixed kcp (flushProbed kcp) := by
      rw [flushProbed_eq]
      exact ⟨rfl, rfl, rfl, rfl, rfl, rfl⟩
    exact hprobed.trans ⟨rfl, rfl, rfl, rfl, rfl, rfl⟩
  apply kcpUpdate_of htimed
  rw [ikcpFlush_block (updateTimer_updated block dlt)]
  exact htimed.trans ((hopened _).trans ⟨rfl, rfl, rfl, rfl, rfl, rfl⟩)

end UdpKcp.Plug
