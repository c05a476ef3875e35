import UdpKcp.Link.FlushMoves
import UdpKcp.Plug.HeadMessage

/-! # Receiving whole messages

`ikcp_recv` takes the first message of `rcv_queue`. As long as the queue is a
piece of a framed stream, what it takes is exactly one submitted message, so the
messages returned so far are a prefix of the submitted ones.
-/

namespace UdpKcp.Link

open ByteCodec (Bytes)
open Framing (Piece fragments)
open SelectiveRepeat (Fact Peer Move Moves Half)
open Ikcp Plug

/-- The pieces of a list of messages. -/
def framed (messages : List Bytes) : List (Piece UInt8) := messages.flatMap (fragments plugMss)

theorem framed_append (xs ys : List Bytes) : framed (xs ++ ys) = framed xs ++ framed ys :=
  List.flatMap_append

theorem framed_singleton (message : Bytes) : framed [message] = fragments plugMss message := by
  simp [framed]

/-! ## Whole messages -/

/-- A message whose length `ikcp_peeksize` reports has all its pieces queued. -/
theorem peeksize_complete {kcp : IKCPCB} {seg : IKCPSEG} {tail : List IKCPSEG}
    (hcount : kcp.nrcvQue = kcp.rcvQueue.length) (hqueue : kcp.rcvQueue = seg :: tail)
    (hfrg : seg.frg.toNat < ikcpWndRcv.toNat) (h : 0 ≤ ikcpPeeksize kcp) :
    seg.frg.toNat < kcp.rcvQueue.length := by
  have hwnd : ikcpWndRcv.toNat = 128 := rfl
  have hone : (seg.frg + 1).toNat = seg.frg.toNat + 1 := by
    rw [UInt32.toNat_add]
    show (seg.frg.toNat + 1) % 2 ^ 32 = _
    omega
  unfold ikcpPeeksize at h
  rw [hqueue] at h
  dsimp only at h
  by_cases hzero : seg.frg = 0
  · rw [hzero, hqueue]
    exact Nat.succ_pos _
  · rw [if_neg hzero] at h
    by_cases hshort : kcp.nrcvQue < (seg.frg + 1).toNat
    · rw [if_pos hshort] at h
      omega
    · omega

/-- A queue that starts a framed stream and reports a length holds its first message. -/
theorem merged_message {kcp : IKCPCB} {messages : List Bytes}
    (hsmall : ∀ m ∈ messages, Framing.pieceCount plugMss m.length < ikcpWndRcv.toNat)
    (hcount : kcp.nrcvQue = kcp.rcvQueue.length)
    (hbegins : kcp.rcvQueue.map piece <+: framed messages) (hne : kcp.rcvQueue ≠ [])
    (hpeek : 0 ≤ ikcpPeeksize kcp) :
    ∃ m rest, messages = m :: rest ∧
      (mergeFragments kcp.rcvQueue).1.map piece = fragments plugMss m ∧
      (mergeFragments kcp.rcvQueue).1.flatMap (·.data) = m := by
  obtain ⟨seg, tail, hqueue⟩ := List.exists_cons_of_ne_nil hne
  cases messages with
  | nil =>
      rw [hqueue] at hbegins
      exact absurd (List.prefix_nil.mp hbegins) (by simp)
  | cons m rest =>
      have hstream : framed (m :: rest) = fragments plugMss m ++ framed rest := rfl
      rw [hstream] at hbegins
      obtain ⟨x, more, hhead⟩ := Framing.fragments_head plugMss_pos m
      have hfrg : seg.frg.toNat = Framing.pieceCount plugMss m.length - 1 := by
        rw [hqueue, hhead, List.map_cons, List.cons_append, List.cons_prefix_cons] at hbegins
        exact congrArg Prod.fst hbegins.1
      have hfew := hsmall m List.mem_cons_self
      have hcomplete := peeksize_complete hcount hqueue (by omega) hpeek
      have hwhole := Framing.fragments_prefix_of_head plugMss_pos hbegins
        (show kcp.rcvQueue.map piece = piece seg :: tail.map piece by rw [hqueue]; rfl)
        (by rw [List.length_map]; exact hcomplete)
      have hfirst : (mergeFragments kcp.rcvQueue).1.map piece = fragments plugMss m := by
        rw [mergeFragments_pieces, firstMessage_head hwhole]
      exact ⟨m, rest, rfl, hfirst, merged_head hwhole⟩

/-! ## ikcp_recv -/

/-- Taking the first message: the same peer, seen with one message more taken. -/
theorem dropMessage_loose {taken : List (Piece UInt8)} {kcp : IKCPCB} {m : Bytes}
    (hr : RecvShape taken kcp)
    (hm : (mergeFragments kcp.rcvQueue).1.map piece = fragments plugMss m) :
    RecvLoose (taken ++ fragments plugMss m) (dropMessage kcp) ∧
      ∀ stream said, view stream (taken ++ fragments plugMss m) said (dropMessage kcp) =
        view stream taken said kcp := by
  have happend := mergeFragments_append kcp.rcvQueue
  have hlen : (mergeFragments kcp.rcvQueue).1.length + (mergeFragments kcp.rcvQueue).2.length =
      kcp.rcvQueue.length := by
    rw [← List.length_append, happend]
  have hnxt := hr.nxt
  have hcount := hr.count
  have hle := hr.count_le
  constructor
  · refine ⟨hr.wnd, ?_, hr.nxt_lt, ?_, ?_, hr.ascending, hr.ahead, hr.acks⟩
    · show kcp.rcvNxt.toNat = _ + (mergeFragments kcp.rcvQueue).2.length
      rw [← hm, List.length_append, List.length_map]
      omega
    · show kcp.nrcvQue - (mergeFragments kcp.rcvQueue).1.length = _
      have hqueue : (dropMessage kcp).rcvQueue = (mergeFragments kcp.rcvQueue).2 := rfl
      rw [hqueue]
      omega
    · show kcp.nrcvQue - (mergeFragments kcp.rcvQueue).1.length ≤ _
      omega
  · intro stream said
    have hreceived : (taken ++ fragments plugMss m) ++
        (mergeFragments kcp.rcvQueue).2.map piece = taken ++ kcp.rcvQueue.map piece := by
      rw [← hm, List.append_assoc, ← List.map_append, happend]
    unfold view
    rw [← hreceived]
    rfl

section Drain

variable {said : Set (Fact (Piece UInt8))} {stream : List (Piece UInt8)}

/-- A successful `ikcp_recv` returns the next submitted message. -/
theorem ikcpRecv_follows {p : Peer (Piece UInt8)} {accepted returned : List Bytes}
    (hsmall : ∀ m ∈ accepted, Framing.pieceCount plugMss m.length < ikcpWndRcv.toNat)
    (hp : p.stream = framed accepted) {kcp kcp' : IKCPCB} {len : Int} {bytes : Bytes}
    (hlen : 0 ≤ len) (hs : SendShape stream kcp) (hr : RecvShape (framed returned) kcp)
    (hhalf : Half p (view stream (framed returned) said kcp))
    (h : ikcpRecv kcp len = .ok (bytes, kcp')) (heard : Set (Fact (Piece UInt8))) :
    Moves heard (view stream (framed returned) said kcp)
        (view stream (framed (returned ++ [bytes])) said kcp') ∧
      SendShape stream kcp' ∧ RecvShape (framed (returned ++ [bytes])) kcp' ∧
      returned ++ [bytes] <+: accepted := by
  obtain ⟨hne, hpeek, -, rfl, probe, rfl, -⟩ := ikcpRecv_ok hlen h
  have hreceived : framed returned ++ kcp.rcvQueue.map piece <+: framed accepted := by
    rw [← hp]
    exact hhalf.received_stream
  have hbegins : returned <+: accepted :=
    Framing.prefix_of_flatMap_prefix plugMss_pos ((List.prefix_append _ _).trans hreceived)
  obtain ⟨rest, rfl⟩ := hbegins
  rw [framed_append, List.prefix_append_right_inj] at hreceived
  obtain ⟨m, rest', rfl, hpieces, hbytes⟩ := merged_message
    (fun m hm => hsmall m (List.mem_append_right _ hm)) hr.count hreceived hne hpeek
  rw [hbytes]
  have htaken : framed (returned ++ [m]) = framed returned ++ fragments plugMss m := by
    rw [framed_append, framed_singleton]
  obtain ⟨hloose, hview⟩ := dropMessage_loose hr hpieces
  obtain ⟨hmove, hshape⟩ := moveRcvBuf_moves hloose stream heard said
  have hsend : SendSame kcp { moveRcvBuf (dropMessage kcp) with probe := probe } :=
    ⟨rfl, rfl, rfl, rfl⟩
  have hrecv : RecvSame (moveRcvBuf (dropMessage kcp))
      { moveRcvBuf (dropMessage kcp) with probe := probe } :=
    ⟨rfl, rfl, rfl, rfl, rfl, rfl⟩
  rw [htaken]
  refine ⟨?_, hs.same hsend, hshape.same hrecv, ?_⟩
  · rw [hview stream said] at hmove
    exact hmove
  · exact ⟨rest', by simp⟩

/-- The drain loop returns the next submitted messages, one after the other. -/
theorem drainLoop_follows {p : Peer (Piece UInt8)} {accepted : List Bytes}
    (hsmall : ∀ m ∈ accepted, Framing.pieceCount plugMss m.length < ikcpWndRcv.toNat)
    (hp : p.stream = framed accepted) (fuel : ℕ) {kcp : IKCPCB} {returned : List Bytes}
    (maxlen : Int) (hs : SendShape stream kcp) (hr : RecvShape (framed returned) kcp)
    (hhalf : Half p (view stream (framed returned) said kcp)) :
    Moves p.said (view stream (framed returned) said kcp)
        (view stream (framed (returned ++ (drainLoop fuel kcp maxlen).messages)) said
          (drainLoop fuel kcp maxlen).block) ∧
      SendShape stream (drainLoop fuel kcp maxlen).block ∧
      RecvShape (framed (returned ++ (drainLoop fuel kcp maxlen).messages))
        (drainLoop fuel kcp maxlen).block := by
  induction fuel generalizing kcp returned maxlen with
  | zero =>
      simp only [drainLoop, List.append_nil]
      exact ⟨Relation.ReflTransGen.refl, hs, hr⟩
  | succ fuel ih =>
      unfold drainLoop
      by_cases hpos : maxlen > 0
      · rw [if_pos hpos]
        cases h : ikcpRecv kcp maxlen with
        | error code =>
            simp only [List.append_nil]
            exact ⟨Relation.ReflTransGen.refl, hs, hr⟩
        | ok result =>
            obtain ⟨bytes, kcp'⟩ := result
            obtain ⟨hmove, hs', hr', -⟩ := ikcpRecv_follows hsmall hp (by omega) hs hr hhalf h
              p.said
            obtain ⟨hmore, hs'', hr''⟩ := ih (maxlen - bytes.length) hs' hr'
              (hhalf.receiver_moves hmove)
            dsimp only
            rw [← List.singleton_append, ← List.append_assoc]
            exact ⟨hmove.trans hmore, hs'', hr''⟩
      · rw [if_neg hpos]
        simp only [List.append_nil]
        exact ⟨Relation.ReflTransGen.refl, hs, hr⟩

end Drain

end UdpKcp.Link
