import UdpKcp.Plug.Reachable

/-! # The message at the head of the receive queue

What `KcpRecv` does with a message all of whose fragments are at the head of
`rcv_queue`, whatever datagrams it is given meanwhile: input only appends to the
queue, and the drain loop takes the message or stops at it.
-/

namespace UdpKcp.Plug

open ByteCodec (Bytes)
open Framing (Piece fragments)
open Ikcp

theorem plugMss_pos : 0 < plugMss := by decide

/-! ## The merge walk -/

theorem piece_frg_zero {seg : IKCPSEG} : seg.frg = 0 ↔ (piece seg).1 = 0 :=
  UInt32.toNat_inj.symm

theorem mergeFragments_pieces (queue : List IKCPSEG) :
    (mergeFragments queue).1.map piece = Framing.firstMessage (queue.map piece) := by
  induction queue with
  | nil => rfl
  | cons seg p ih =>
      unfold mergeFragments
      rw [List.map_cons, Framing.firstMessage]
      by_cases hzero : seg.frg = 0
      · rw [if_pos hzero, if_pos (piece_frg_zero.mp hzero)]
        rfl
      · rw [if_neg hzero, if_neg (fun h => hzero (piece_frg_zero.mpr h)), List.map_cons, ih]

theorem merged_data (segs : List IKCPSEG) :
    segs.flatMap (·.data) = Framing.payload (segs.map piece) := by
  unfold Framing.payload
  rw [List.flatMap_map]
  rfl

/-! ## The queue and its count -/

/-- `nrcv_que` counts the queue. -/
def Counted (kcp : IKCPCB) : Prop := kcp.nrcvQue = kcp.rcvQueue.length

/-- The queue has grown at its end, and is still counted. -/
structure Grown (queue : List IKCPSEG) (kcp : IKCPCB) : Prop where
  count : Counted kcp
  grown : queue <+: kcp.rcvQueue

theorem Grown.moveRcvBuf {queue : List IKCPSEG} {kcp : IKCPCB} (h : Grown queue kcp) :
    Grown queue (moveRcvBuf kcp) := by
  refine ⟨?_, h.grown.trans (List.prefix_append _ _)⟩
  have hcount : kcp.nrcvQue = kcp.rcvQueue.length := h.count
  unfold Counted Ikcp.moveRcvBuf
  dsimp only
  rw [List.length_append, hcount]

theorem Grown.inputPush {queue : List IKCPSEG} {kcp : IKCPCB} (h : Grown queue kcp)
    (header : SegHeader) (payload : Bytes) : Grown queue (inputPush kcp header payload) := by
  have hack : Grown queue (ikcpAckPush kcp header.sn header.ts) := ⟨h.count, h.grown⟩
  unfold Ikcp.inputPush ikcpParseData
  dsimp only
  split_ifs
  · exact hack
  · cases insertFromTail (receivedSegment header payload)
        (ikcpAckPush kcp header.sn header.ts).rcvBuf.reverse with
    | none => exact hack.moveRcvBuf
    | some rcvBuf => exact Grown.moveRcvBuf ⟨hack.count, hack.grown⟩
  · exact hack
  · exact h

theorem Grown.inputSegment {queue : List IKCPSEG} {st : InputState} (h : Grown queue st.kcp)
    (header : SegHeader) (payload : Bytes) :
    Grown queue (inputSegment st header payload).kcp := by
  have hcommon : Grown queue (inputCommon st.kcp header) := ⟨h.count, h.grown⟩
  apply inputSegment_of hcommon
  · have hsame := inputAck_unacked { st with kcp := inputCommon st.kcp header } header
    have hcount : (inputAck { st with kcp := inputCommon st.kcp header } header).kcp.nrcvQue =
        (inputCommon st.kcp header).nrcvQue := by
      have hrest := congrArg IKCPCB.nrcvQue hsame
      exact hrest
    have hqueue : (inputAck { st with kcp := inputCommon st.kcp header } header).kcp.rcvQueue =
        (inputCommon st.kcp header).rcvQueue := by
      have hrest := congrArg IKCPCB.rcvQueue hsame
      exact hrest
    refine ⟨?_, ?_⟩
    · unfold Counted
      rw [hcount, hqueue]
      exact hcommon.count
    · rw [hqueue]
      exact hcommon.grown
  · exact hcommon.inputPush header payload
  · exact ⟨hcommon.count, hcommon.grown⟩

/-- Datagrams of any content only add to the end of the queue. -/
theorem kcpRecvInput_grown {kcp : IKCPCB} (h : Counted kcp) (input : Option Bytes)
    (soc : Socket) : Grown kcp.rcvQueue (kcpRecvInput kcp input soc).1 := by
  apply kcpRecvInput_keeps _ input soc ⟨h, List.prefix_rfl⟩
  intro k data hk
  apply ikcpInput_keeps _ _ data hk
  · exact fun st header payload hst => hst.inputSegment header payload
  · intro st prevUna hst
    rw [inputTail_eq]
    exact ⟨hst.count, hst.grown⟩

theorem Counted.send {block : IKCPCB} (h : Counted block) (data : Bytes) (len : Int) :
    Counted (kcpSend block data len).1 := by
  rw [kcpSend_eq]
  exact h

theorem Counted.update {block : IKCPCB} (h : Counted block) (dlt : UInt32) :
    Counted (kcpUpdate block dlt).1 := by
  have hkept := kcpUpdate_kept block dlt
  unfold Counted
  rw [hkept.nrcvQue, hkept.rcvQueue]
  exact h

theorem Counted.ikcpRecv {kcp kcp' : IKCPCB} (h : Counted kcp) {len : Int} {bytes : Bytes}
    (hlen : 0 ≤ len) (hrecv : ikcpRecv kcp len = .ok (bytes, kcp')) : Counted kcp' := by
  obtain ⟨-, -, -, -, probe, rfl, -⟩ := ikcpRecv_ok hlen hrecv
  have hdrop : Counted (dropMessage kcp) := by
    have happend := congrArg List.length (mergeFragments_append kcp.rcvQueue)
    have hcount : kcp.nrcvQue = kcp.rcvQueue.length := h
    rw [List.length_append] at happend
    unfold Counted dropMessage
    dsimp only
    omega
  have hmoved : Counted (moveRcvBuf (dropMessage kcp)) :=
    (Grown.moveRcvBuf ⟨hdrop, List.prefix_rfl⟩).count
  exact hmoved

theorem Counted.recv {block : IKCPCB} (h : Counted block) (input : Option Bytes) (soc : Socket)
    (maxlen : Int) : Counted (kcpRecv block input soc maxlen).block :=
  drain_keeps (fun _ _ _ _ hlen hr hk => hk.ikcpRecv hlen hr) maxlen
    (kcpRecvInput_grown h input soc).count

/-! ## Taking a message -/

/-- The pieces of `m` have left the front of `queue`, perhaps with others behind them. -/
def Removed (m : Bytes) (queue : List IKCPSEG) (kcp : IKCPCB) : Prop :=
  ∃ gone arrived, fragments plugMss m ++ gone ++ kcp.rcvQueue.map piece = queue.map piece ++ arrived

/-- A successful `ikcp_recv` takes the first message, and the window it opens lets
segments in at the other end. -/
theorem ikcpRecv_taken {kcp kcp' : IKCPCB} {len : Int} {bytes : Bytes} (hlen : 0 ≤ len)
    (h : ikcpRecv kcp len = .ok (bytes, kcp')) :
    ∃ arrived, (mergeFragments kcp.rcvQueue).1 ++ kcp'.rcvQueue = kcp.rcvQueue ++ arrived := by
  obtain ⟨-, -, -, -, probe, rfl, -⟩ := ikcpRecv_ok hlen h
  have hmoved : ∃ arrived, (moveRcvBuf (dropMessage kcp)).rcvQueue =
      (mergeFragments kcp.rcvQueue).2 ++ arrived := ⟨_, rfl⟩
  obtain ⟨arrived, harrived⟩ := hmoved
  refine ⟨arrived, ?_⟩
  show (mergeFragments kcp.rcvQueue).1 ++ (moveRcvBuf (dropMessage kcp)).rcvQueue = _
  rw [harrived, ← List.append_assoc, mergeFragments_append]

/-- What is removed stays removed. -/
theorem Removed.ikcpRecv {m : Bytes} {queue : List IKCPSEG} {kcp kcp' : IKCPCB}
    (hm : Removed m queue kcp) {len : Int} {bytes : Bytes} (hlen : 0 ≤ len)
    (h : ikcpRecv kcp len = .ok (bytes, kcp')) : Removed m queue kcp' := by
  obtain ⟨gone, arrived, heq⟩ := hm
  obtain ⟨more, hmore⟩ := ikcpRecv_taken hlen h
  refine ⟨gone ++ (mergeFragments kcp.rcvQueue).1.map piece, arrived ++ more.map piece, ?_⟩
  have hpieces := congrArg (List.map piece) hmore
  rw [List.map_append, List.map_append] at hpieces
  calc fragments plugMss m ++ (gone ++ (mergeFragments kcp.rcvQueue).1.map piece) ++
        kcp'.rcvQueue.map piece
      = fragments plugMss m ++ gone ++
          ((mergeFragments kcp.rcvQueue).1.map piece ++ kcp'.rcvQueue.map piece) := by
        simp only [List.append_assoc]
    _ = fragments plugMss m ++ gone ++ kcp.rcvQueue.map piece ++ more.map piece := by
        rw [hpieces, List.append_assoc _ (kcp.rcvQueue.map piece)]
    _ = queue.map piece ++ (arrived ++ more.map piece) := by
        rw [heq, List.append_assoc]

theorem Removed.grown {m : Bytes} {queue queue' : List IKCPSEG} {kcp : IKCPCB}
    (hm : Removed m queue' kcp) (hgrown : queue <+: queue') : Removed m queue kcp := by
  obtain ⟨gone, arrived, heq⟩ := hm
  obtain ⟨more, rfl⟩ := hgrown
  refine ⟨gone, more.map piece ++ arrived, ?_⟩
  rw [heq, List.map_append, List.append_assoc]

/-! ## Peeking at a whole message -/

theorem peekLength_eq (queue : List IKCPSEG) :
    peekLength queue = (Framing.payload (Framing.firstMessage (queue.map piece))).length := by
  induction queue with
  | nil => rfl
  | cons seg p ih =>
      unfold peekLength
      rw [List.map_cons, Framing.firstMessage]
      by_cases hzero : seg.frg = 0
      · rw [if_pos hzero, if_pos (piece_frg_zero.mp hzero)]
        simp [piece]
      · rw [if_neg hzero, if_neg (fun h => hzero (piece_frg_zero.mpr h)), ih,
          Framing.payload_cons, List.length_append]
        rfl

section Head

variable {kcp : IKCPCB} {m : Bytes} (hcount : Counted kcp)
  (hfew : Framing.pieceCount plugMss m.length < ikcpWndRcv.toNat)
  (hhead : fragments plugMss m <+: kcp.rcvQueue.map piece)

include hhead

theorem firstMessage_head :
    Framing.firstMessage (kcp.rcvQueue.map piece) = fragments plugMss m := by
  obtain ⟨rest, hrest⟩ := hhead
  rw [← hrest, Framing.firstMessage_fragments_append plugMss_pos]

theorem head_ne_nil : kcp.rcvQueue ≠ [] := by
  intro hnil
  rw [hnil] at hhead
  exact Framing.fragments_ne_nil plugMss_pos m (List.prefix_nil.mp hhead)

theorem merged_head : (mergeFragments kcp.rcvQueue).1.flatMap (·.data) = m := by
  rw [merged_data, mergeFragments_pieces, firstMessage_head hhead,
    Framing.payload_fragments plugMss_pos]

include hcount hfew

/-- `ikcp_peeksize` reports the length of a whole message. -/
theorem peeksize_head : ikcpPeeksize kcp = m.length := by
  have hwnd : ikcpWndRcv.toNat = 128 := rfl
  have hlen : kcp.nrcvQue = kcp.rcvQueue.length := hcount
  have hwalk : peekLength kcp.rcvQueue = m.length := by
    rw [peekLength_eq, firstMessage_head hhead, Framing.payload_fragments plugMss_pos]
  obtain ⟨seg, tail, hqueue⟩ := List.exists_cons_of_ne_nil (head_ne_nil hhead)
  obtain ⟨x, more, hpieces⟩ := Framing.fragments_head plugMss_pos m
  have hpos := Framing.pieceCount_pos plugMss_pos m.length
  have hfrg : seg.frg.toNat = Framing.pieceCount plugMss m.length - 1 := by
    rw [hqueue, hpieces, List.map_cons, List.cons_prefix_cons] at hhead
    exact (congrArg Prod.fst hhead.1).symm
  have henough : Framing.pieceCount plugMss m.length ≤ kcp.nrcvQue := by
    have hle := hhead.length_le
    rw [List.length_map, Framing.fragments, Framing.pieces_length] at hle
    omega
  have hone : (seg.frg + 1).toNat = seg.frg.toNat + 1 := by
    rw [UInt32.toNat_add]
    show (seg.frg.toNat + 1) % 2 ^ 32 = _
    omega
  unfold ikcpPeeksize
  rw [hqueue] at hwalk ⊢
  dsimp only
  by_cases hzero : seg.frg = 0
  · rw [if_pos hzero]
    rw [peekLength, if_pos hzero] at hwalk
    exact hwalk
  · rw [if_neg hzero, if_neg (by omega)]
    exact hwalk

/-- The drain loop takes the message first when it fits the buffer, and stops at it
otherwise. -/
theorem drain_head {maxlen : Int} (hmax : 0 < maxlen) :
    (m.length ≤ maxlen → (∃ later, (drain kcp maxlen).messages = m :: later) ∧
      Removed m kcp.rcvQueue (drain kcp maxlen).block) ∧
      (maxlen < m.length → drain kcp maxlen = { block := kcp, messages := [] }) := by
  have hne := head_ne_nil hhead
  have hpeek := peeksize_head hcount hfew hhead
  have hmerged := merged_head hhead
  have hnonneg : ¬ ikcpPeeksize kcp < 0 := by omega
  have hfirst : (mergeFragments kcp.rcvQueue).1.map piece = fragments plugMss m := by
    rw [mergeFragments_pieces, firstMessage_head hhead]
  unfold drain drainLoop
  rw [if_pos (show maxlen > 0 from hmax)]
  constructor
  · intro hfits
    have hok : ∃ kcp', ikcpRecv kcp maxlen = .ok (m, kcp') := by
      unfold ikcpRecv
      rw [if_neg hne]
      dsimp only
      rw [if_neg hnonneg, hmerged, if_neg (by omega)]
      exact ⟨_, rfl⟩
    obtain ⟨kcp', hrecv⟩ := hok
    obtain ⟨arrived, harrived⟩ := ikcpRecv_taken (Int.le_of_lt hmax) hrecv
    have hremoved : Removed m kcp.rcvQueue kcp' := by
      refine ⟨[], arrived.map piece, ?_⟩
      rw [List.append_nil, ← hfirst, ← List.map_append, harrived, List.map_append]
    rw [hrecv]
    exact ⟨⟨_, rfl⟩, drainLoop_keeps (fun _ _ _ _ hlen hr hk => hk.ikcpRecv hlen hr) _ _ hremoved⟩
  · intro hlong
    unfold ikcpRecv
    rw [if_neg hne]
    dsimp only
    rw [if_neg hnonneg, if_pos (by omega)]

end Head

end UdpKcp.Plug
