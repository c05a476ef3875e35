import UdpKcp.Link.InputMoves

/-! # Sending and flushing refine submitting, opening and saying -/

namespace UdpKcp.Link

open ByteCodec (Bytes)
open Framing (Piece)
open SelectiveRepeat (Fact Peer Move Moves)
open Ikcp Plug

/-! ## Sending -/

/-- An accepted message is submitted as its fragments. -/
theorem queueMessage_follows {stream taken : List (Piece UInt8)} {kcp : IKCPCB}
    (hmss : kcp.mss.toNat = plugMss) (hs : SendShape stream kcp) (hr : RecvShape taken kcp)
    {message : Bytes} (hfew : Framing.pieceCount plugMss message.length < ikcpWndRcv.toNat)
    (heard said : Set (Fact (Piece UInt8))) :
    Moves heard (view stream taken said kcp)
        (view (stream ++ Framing.fragments plugMss message) taken said
          (queueMessage kcp message)) ∧
      SendShape (stream ++ Framing.fragments plugMss message) (queueMessage kcp message) ∧
      RecvShape taken (queueMessage kcp message) := by
  have hlt : ikcpWndRcv.toNat ≤ 2 ^ 32 := by decide
  have hpieces : (sendFragments kcp.mss.toNat 0
      (Framing.pieceCount kcp.mss.toNat message.length) message).map piece =
      Framing.fragments plugMss message := by
    rw [hmss, sendFragments_pieces (by omega)]
    rfl
  refine ⟨?_, ?_, hr.same ⟨rfl, rfl, rfl, rfl, rfl, rfl⟩⟩
  · exact Relation.ReflTransGen.single
      (Move.submit (view stream taken said kcp) (Framing.fragments plugMss message))
  · refine ⟨?_, ?_, hs.nxt_lt, hs.ascending, hs.below, ?_, hs.una, hs.window⟩
    · show (kcp.sndQueue ++ _).map piece = _
      rw [List.map_append, hs.queue, hpieces, ← List.drop_append_of_le_length hs.nxt_le]
      rfl
    · have hle := hs.nxt_le
      rw [List.length_append]
      exact Nat.le_add_right_of_le hle
    · intro seg hseg
      exact SelectiveRepeat.getElem?_append_of_lt (hs.content seg hseg)

/-! ## Opening the window -/

/-- The numbers of the opened segments follow `snd_nxt`. -/
theorem openWindow_sns {kcp : IKCPCB} {wnd limit sndNxt : UInt32} {queue : List IKCPSEG}
    (hlt : sndNxt.toNat + (openWindow kcp wnd limit sndNxt queue).1.length < 2 ^ 32) :
    sns (openWindow kcp wnd limit sndNxt queue).1 =
      List.range' sndNxt.toNat (openWindow kcp wnd limit sndNxt queue).1.length := by
  apply List.ext_getElem?
  intro i
  unfold sns
  rw [List.getElem?_map]
  cases hi : (openWindow kcp wnd limit sndNxt queue).1[i]? with
  | none =>
      have hle := List.getElem?_eq_none_iff.mp hi
      exact (List.getElem?_eq_none (by simpa using hle)).symm
  | some seg =>
      obtain ⟨hin, -⟩ := List.getElem?_eq_some_iff.mp hi
      obtain ⟨newseg, -, rfl⟩ := openWindow_get hi
      rw [List.getElem?_range' hin]
      show some (sndNxt + UInt32.ofNat i).toNat = _
      rw [UInt32.toNat_add, UInt32.toNat_ofNat']
      congr 1
      omega

/-- The loop stops at the end of the window. -/
theorem openWindow_length {kcp : IKCPCB} {wnd limit sndNxt : UInt32} {queue : List IKCPSEG}
    (hlt : sndNxt.toNat + (openWindow kcp wnd limit sndNxt queue).1.length < halfCircle)
    (hlimit : limit.toNat ≤ sndNxt.toNat + plugWnd) :
    (openWindow kcp wnd limit sndNxt queue).1.length ≤ limit.toNat - sndNxt.toNat := by
  induction queue generalizing sndNxt with
  | nil => exact Nat.zero_le _
  | cons newseg queue ih =>
      unfold openWindow at hlt ⊢
      unfold halfCircle plugWnd at *
      have hdiff : itimediff sndNxt limit = (sndNxt.toNat : Int) - limit.toNat :=
        Serial.diff_of_near (by omega) (by omega)
      by_cases hopen : itimediff sndNxt limit < 0
      · rw [if_pos hopen] at hlt ⊢
        have hone : (sndNxt + 1).toNat = sndNxt.toNat + 1 := by
          rw [UInt32.toNat_add]
          show (sndNxt.toNat + 1) % 2 ^ 32 = _
          omega
        dsimp only [List.length_cons] at hlt ⊢
        have hrest := @ih (sndNxt + 1) (by omega) (by omega)
        omega
      · rw [if_neg hopen]
        exact Nat.zero_le _

/-- What opening the window does to the queue, to `snd_nxt` and to the numbers buffered. -/
structure Opens (kcp kcp' : IKCPCB) (k : ℕ) : Prop where
  queue : kcp'.sndQueue = kcp.sndQueue.drop k
  nxt : kcp'.sndNxt.toNat = kcp.sndNxt.toNat + k
  few : kcp.sndNxt.toNat + k < halfCircle
  sns : sns kcp'.sndBuf = sns kcp.sndBuf ++ List.range' kcp.sndNxt.toNat k

section Open

variable {stream : List (Piece UInt8)} {kcp : IKCPCB} (wnd : UInt32) {cwnd : UInt32}
  (hs : SendShape stream kcp)
  (hlt : stream.length - (moveSndQueue kcp wnd cwnd).sndQueue.length < halfCircle)

include hs hlt

theorem moveSndQueue_numbers :
    Opens kcp (moveSndQueue kcp wnd cwnd)
        (openWindow kcp wnd (kcp.sndUna + cwnd) kcp.sndNxt kcp.sndQueue).1.length ∧
      kcp.sndNxt.toNat +
        (openWindow kcp wnd (kcp.sndUna + cwnd) kcp.sndNxt kcp.sndQueue).1.length ≤
        stream.length := by
  obtain ⟨k, hdrop, hlen, hle⟩ :=
    openWindow_append kcp wnd (kcp.sndUna + cwnd) kcp.sndNxt kcp.sndQueue
  have hqueue : (moveSndQueue kcp wnd cwnd).sndQueue = kcp.sndQueue.drop k := hdrop
  have hqlen : kcp.sndQueue.length = stream.length - kcp.sndNxt.toNat := by
    rw [← List.length_drop, ← hs.queue, List.length_map]
  have hnle := hs.nxt_le
  have hsum : kcp.sndNxt.toNat + k < halfCircle := by
    rw [hqueue, List.length_drop] at hlt
    omega
  have hnxt : (moveSndQueue kcp wnd cwnd).sndNxt.toNat = kcp.sndNxt.toNat + k := by
    show (kcp.sndNxt + UInt32.ofNat _).toNat = _
    unfold halfCircle at hsum
    rw [hlen, UInt32.toNat_add, UInt32.toNat_ofNat']
    omega
  have hsns : sns (moveSndQueue kcp wnd cwnd).sndBuf =
      sns kcp.sndBuf ++ List.range' kcp.sndNxt.toNat k := by
    show sns (kcp.sndBuf ++ _) = _
    unfold halfCircle at hsum
    rw [sns_append, openWindow_sns (by omega), hlen]
  rw [hlen]
  exact ⟨⟨hqueue, hnxt, hsum, hsns⟩, by omega⟩

theorem moveSndQueue_mem (n : ℕ) :
    n ∈ sns (moveSndQueue kcp wnd cwnd).sndBuf ↔ n ∈ sns kcp.sndBuf ∨
      (kcp.sndNxt.toNat ≤ n ∧ n < kcp.sndNxt.toNat +
        (openWindow kcp wnd (kcp.sndUna + cwnd) kcp.sndNxt kcp.sndQueue).1.length) := by
  rw [(moveSndQueue_numbers wnd hs hlt).1.sns, List.mem_append, List.mem_range'_1]

/-- An opened segment carries the next piece of the stream. -/
theorem moveSndQueue_content :
    ∀ seg ∈ cores (moveSndQueue kcp wnd cwnd).sndBuf,
      stream[seg.sn.toNat]? = some (piece seg) := by
  have hfew := (moveSndQueue_numbers wnd hs hlt).1.few
  have hmove : cores (moveSndQueue kcp wnd cwnd).sndBuf = cores kcp.sndBuf ++
      cores (openWindow kcp wnd (kcp.sndUna + cwnd) kcp.sndNxt kcp.sndQueue).1 :=
    cores_append _ _
  intro seg hseg
  rw [hmove] at hseg
  rcases List.mem_append.mp hseg with hseg | hseg
  · exact hs.content seg hseg
  · obtain ⟨opened, hopened, rfl⟩ := List.mem_map.mp hseg
    obtain ⟨i, hi⟩ := List.mem_iff_getElem?.mp hopened
    obtain ⟨hin, -⟩ := List.getElem?_eq_some_iff.mp hi
    obtain ⟨newseg, hget, rfl⟩ := openWindow_get hi
    have hsn : (kcp.sndNxt + UInt32.ofNat i).toNat = kcp.sndNxt.toNat + i := by
      unfold halfCircle at hfew
      rw [UInt32.toNat_add, UInt32.toNat_ofNat']
      omega
    have hpiece : stream[kcp.sndNxt.toNat + i]? = some (piece newseg) := by
      rw [← List.getElem?_drop, ← hs.queue, List.getElem?_map, hget]
      rfl
    show stream[(kcp.sndNxt + UInt32.ofNat i).toNat]? = some (piece newseg)
    rw [hsn, hpiece]

theorem moveSndQueue_window (hcwnd : cwnd.toNat ≤ plugWnd) :
    (moveSndQueue kcp wnd cwnd).sndNxt.toNat ≤ kcp.sndUna.toNat + plugWnd := by
  obtain ⟨hopens, -⟩ := moveSndQueue_numbers wnd hs hlt
  have hnxt := hopens.nxt
  have hfew := hopens.few
  have huna := hs.una_le_nxt
  have hwindow := hs.window
  have hlimit : (kcp.sndUna + cwnd).toNat = kcp.sndUna.toNat + cwnd.toNat := by
    unfold halfCircle plugWnd at *
    rw [UInt32.toNat_add]
    omega
  have hcount := @openWindow_length kcp wnd (kcp.sndUna + cwnd) kcp.sndNxt kcp.sndQueue hfew
    (show (kcp.sndUna + cwnd).toNat ≤ _ by omega)
  rw [hlimit] at hcount
  omega

theorem moveSndQueue_shape (hcwnd : cwnd.toNat ≤ plugWnd) :
    SendShape stream (moveSndQueue kcp wnd cwnd) := by
  obtain ⟨hopens, hfits⟩ := moveSndQueue_numbers wnd hs hlt
  have hnxt := hopens.nxt
  have hfew := hopens.few
  refine ⟨?_, ?_, ?_, ?_, ?_, moveSndQueue_content wnd hs hlt, moveSndQueue_una wnd cwnd hs.una,
    moveSndQueue_window wnd hs hlt hcwnd⟩
  · rw [hopens.queue, hnxt, List.map_drop, hs.queue, List.drop_drop]
  · omega
  · omega
  · unfold Ascending
    rw [hopens.sns, List.pairwise_append]
    refine ⟨hs.ascending, List.pairwise_lt_range', ?_⟩
    intro a ha b hb
    have hlow := hs.below a ha
    have hhigh := (List.mem_range'_1.mp hb).1
    omega
  · intro n hn
    rw [hnxt]
    rcases (moveSndQueue_mem wnd hs hlt n).mp hn with hn | hn
    · have hlow := hs.below n hn
      omega
    · exact hn.2

/-- Opening the window is a run of openings. -/
theorem moveSndQueue_moves (hcwnd : cwnd.toNat ≤ plugWnd) (taken : List (Piece UInt8))
    (heard said : Set (Fact (Piece UInt8))) :
    Moves heard (view stream taken said kcp)
        (view stream taken said (moveSndQueue kcp wnd cwnd)) ∧
      SendShape stream (moveSndQueue kcp wnd cwnd) := by
  obtain ⟨hopens, hfits⟩ := moveSndQueue_numbers wnd hs hlt
  have hset : {n | n ∈ sns (moveSndQueue kcp wnd cwnd).sndBuf} =
      {n | n ∈ sns kcp.sndBuf} ∪
        {n | kcp.sndNxt.toNat ≤ n ∧ n < kcp.sndNxt.toNat +
          (openWindow kcp wnd (kcp.sndUna + cwnd) kcp.sndNxt kcp.sndQueue).1.length} :=
    Set.ext (moveSndQueue_mem wnd hs hlt)
  have hopen := SelectiveRepeat.moves_open heard (view stream taken said kcp) _ hfits
  have hview : view stream taken said (moveSndQueue kcp wnd cwnd) =
      { view stream taken said kcp with
        opened := kcp.sndNxt.toNat +
          (openWindow kcp wnd (kcp.sndUna + cwnd) kcp.sndNxt kcp.sndQueue).1.length
        pending := {n | n ∈ sns kcp.sndBuf} ∪
          {n | kcp.sndNxt.toNat ≤ n ∧ n < kcp.sndNxt.toNat +
            (openWindow kcp wnd (kcp.sndUna + cwnd) kcp.sndNxt kcp.sndQueue).1.length} } := by
    unfold view
    rw [hopens.nxt, hset]
    rfl
  rw [hview]
  exact ⟨hopen, moveSndQueue_shape wnd hs hlt hcwnd⟩

end Open

/-! ## A whole flush -/

theorem flushProbed_same (kcp : IKCPCB) :
    SendSame { kcp with acklist := [] } { flushProbed kcp with probe := 0 } ∧
      RecvSame { kcp with acklist := [] } { flushProbed kcp with probe := 0 } := by
  rw [flushProbed_eq]
  exact ⟨⟨rfl, rfl, rfl, rfl⟩, ⟨rfl, rfl, rfl, rfl, rfl, rfl⟩⟩

theorem RecvShape.cleared {taken : List (Piece UInt8)} {kcp : IKCPCB} (h : RecvShape taken kcp) :
    RecvShape taken { kcp with acklist := [] } :=
  ⟨⟨h.wnd, h.nxt, h.nxt_lt, h.count, h.count_le, h.ascending, h.ahead,
    List.forall_mem_nil _⟩, h.ready⟩

theorem stampSegment_una {kcp : IKCPCB} {wnd : UInt32} {seg : IKCPSEG}
    (h : sendReason kcp seg ≠ .idle) : (stampSegment kcp wnd seg).una = kcp.rcvNxt := by
  unfold stampSegment
  dsimp only
  split
  · contradiction
  · rfl
  · rfl
  · rfl

theorem flushOpened_recv (kcp : IKCPCB) :
    RecvSame { kcp with acklist := [] } (flushOpened kcp) :=
  (flushProbed_same kcp).2.trans ⟨rfl, rfl, rfl, rfl, rfl, rfl⟩

/-- Everything a flush emits is true of the block with its window opened. -/
theorem flushSegments_sayable {stream taken : List (Piece UInt8)} {kcp : IKCPCB}
    (hr : RecvShape taken kcp) (hopened : SendShape stream (flushOpened kcp))
    (said : Set (Fact (Piece UInt8))) {conv : UInt32} (hsound : Sound conv kcp)
    {seg : IKCPSEG} (hseg : seg ∈ flushSegments kcp) :
    Sayable (view stream taken said (flushOpened kcp)) seg := by
  have hsame := flushOpened_recv kcp
  have hrecv : RecvShape taken (flushOpened kcp) := hr.cleared.same hsame
  have hrcv : (flushOpened kcp).rcvNxt = kcp.rcvNxt := hsame.nxt
  have hlen : (view stream taken said (flushOpened kcp)).received.length = kcp.rcvNxt.toNat := by
    rw [← hrcv, hrecv.nxt]
    simp [view]
  obtain ⟨sn, ts, hlast⟩ := lastAck_template (flushSeg kcp) kcp.acklist
  have hwask : ikcpCmdWask ≠ ikcpCmdPush ∧ ikcpCmdWask ≠ ikcpCmdAck := by decide
  have hwins : ikcpCmdWins ≠ ikcpCmdPush ∧ ikcpCmdWins ≠ ikcpCmdAck := by decide
  have hack : ikcpCmdAck ≠ ikcpCmdPush := by decide
  unfold flushSegments at hseg
  rcases List.mem_append.mp hseg with hseg | hseg
  · rcases List.mem_append.mp hseg with hseg | hseg
    · obtain ⟨ack, hmem, rfl⟩ := List.mem_map.mp hseg
      refine ⟨hlen.ge, fun hc => absurd hc hack, fun _ => ?_⟩
      rw [view_accepted hrecv.toRecvLoose, hrcv, hsame.buf]
      exact hr.acks ack hmem
    · rcases List.mem_append.mp hseg with hseg | hseg
      · rw [mem_probeSegments hseg, hlast]
        exact ⟨hlen.ge, fun hc => absurd hc hwask.1, fun hc => absurd hc hwask.2⟩
      · rw [mem_probeSegments hseg, hlast]
        exact ⟨hlen.ge, fun hc => absurd hc hwins.1, fun hc => absurd hc hwins.2⟩
  · obtain ⟨s, hs, hreason, rfl⟩ := mem_dueSegments hseg
    have hcore := stampSegment_core (flushOpened kcp) (ikcpWndUnused kcp) s
    have hcmd := (cmd_of_core hcore).trans (hsound.opened.sendable hs).cmd_eq
    have hcontent := hopened.content _ (mem_cores hs)
    refine ⟨?_, fun _ => ?_, fun hc => absurd (hc.symm.trans hcmd) hack⟩
    · rw [stampSegment_una hreason, hrcv]
      exact hlen.ge
    · rw [sn_of_core hcore, piece_of_core hcore]
      exact ⟨hopened.below _ (mem_sns hs), hcontent⟩

/-- What one call of `KcpUpdate` does, seen from the peer: openings, then facts. -/
structure Updates (heard : Set (Fact (Piece UInt8))) (stream taken : List (Piece UInt8))
    (said said' : Set (Fact (Piece UInt8))) (kcp kcp' : IKCPCB) (segs : List IKCPSEG) :
    Prop where
  moves : Moves heard (view stream taken said kcp) (view stream taken said' kcp')
  send : SendShape stream kcp'
  recv : RecvShape taken kcp'
  said_mono : said ⊆ said'
  facts : ∀ seg ∈ segs, Heard said' seg

theorem ikcpFlush_updates {stream taken : List (Piece UInt8)} {kcp : IKCPCB} {conv : UInt32}
    (hsound : Sound conv kcp) (hupdated : kcp.updated ≠ 0) (hs : SendShape stream kcp)
    (hr : RecvShape taken kcp)
    (hlt : stream.length - (ikcpFlush kcp).1.sndQueue.length < halfCircle)
    (heard said : Set (Fact (Piece UInt8))) :
    ∃ said', Updates heard stream taken said said' kcp (ikcpFlush kcp).1 (flushSegments kcp) := by
  obtain ⟨hsend, hsame⟩ := flushProbed_same kcp
  have hprobed : SendShape stream { flushProbed kcp with probe := 0 } :=
    hs.same ⟨hsend.queue, hsend.nxt, hsend.una, hsend.buf⟩
  have hqueue : (ikcpFlush kcp).1.sndQueue = (flushOpened kcp).sndQueue := by
    rw [ikcpFlush_block hupdated]
  rw [hqueue] at hlt
  have hcwnd : (flushCwnd { flushProbed kcp with probe := 0 }).toNat ≤ plugWnd := by
    have hwnd : (flushProbed kcp).sndWnd.toNat = plugWnd := by
      have hconfig := (flushProbed_config kcp).trans hsound.config
      exact congrArg (UInt32.toNat ∘ Config.sndWnd) hconfig
    rw [← hwnd]
    exact flushCwnd_le { flushProbed kcp with probe := 0 }
  obtain ⟨hopen, hopened⟩ :=
    moveSndQueue_moves (ikcpWndUnused kcp) hprobed hlt hcwnd taken heard said
  have hstart : view stream taken said { flushProbed kcp with probe := 0 } =
      view stream taken said kcp := by
    have hview := @view_same stream taken said _ _ hsend hsame
    exact hview
  have hrecv : RecvShape taken (flushOpened kcp) := hr.cleared.same (flushOpened_recv kcp)
  obtain ⟨said', hsay, hsub, hfacts⟩ := @say_segments heard _ _
    fun seg hseg => flushSegments_sayable hr hopened said hsound hseg
  have hend : SendSame (flushOpened kcp) (ikcpFlush kcp).1 := by
    rw [ikcpFlush_block hupdated]
    exact ⟨rfl, rfl, rfl, stamped_cores _ _ _⟩
  have hendr : RecvSame (flushOpened kcp) (ikcpFlush kcp).1 := by
    rw [ikcpFlush_block hupdated]
    exact ⟨rfl, rfl, rfl, rfl, rfl, rfl⟩
  refine ⟨said', ?_, hopened.same hend, hrecv.same hendr, hsub, hfacts⟩
  rw [view_same hend hendr, ← hstart]
  exact hopen.trans hsay

/-- `KcpUpdate`, whether or not a flush is due. -/
theorem kcpUpdate_updates {stream taken : List (Piece UInt8)} {kcp : IKCPCB} {conv : UInt32}
    (hsound : Sound conv kcp) (hs : SendShape stream kcp) (hr : RecvShape taken kcp)
    {dlt : UInt32} (hlt : stream.length - (kcpUpdate kcp dlt).1.sndQueue.length < halfCircle)
    (heard said : Set (Fact (Piece UInt8))) :
    ∃ said', Updates heard stream taken said said' kcp (kcpUpdate kcp dlt).1
      (updateSegments kcp dlt) := by
  have hsend : SendSame kcp (updateTimer kcp dlt).1 := by
    rw [updateTimer_eq]
    exact ⟨rfl, rfl, rfl, rfl⟩
  have hrecv : RecvSame kcp (updateTimer kcp dlt).1 := by
    rw [updateTimer_eq]
    exact ⟨rfl, rfl, rfl, rfl, rfl, rfl⟩
  have hview : view stream taken said (updateTimer kcp dlt).1 = view stream taken said kcp :=
    view_same hsend hrecv
  unfold kcpUpdate updateSegments at *
  cases hdue : (updateTimer kcp dlt).2 with
  | false =>
      rw [ikcpUpdate_idle hdue]
      refine ⟨said, ?_, hs.same hsend, hr.same hrecv, subset_rfl, by simp⟩
      rw [hview]
  | true =>
      rw [ikcpUpdate_due hdue] at hlt ⊢
      obtain ⟨said', h⟩ := ikcpFlush_updates (hsound.timed dlt) (updateTimer_updated kcp dlt)
        (hs.same hsend) (hr.same hrecv) hlt heard said
      refine ⟨said', ?_, h.send, h.recv, h.said_mono, h.facts⟩
      rw [← hview]
      exact h.moves

end UdpKcp.Link
