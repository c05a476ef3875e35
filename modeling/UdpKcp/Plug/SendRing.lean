import UdpKcp.Ikcp.Windows
import UdpKcp.Plug.Reachable

/-! # The sending half on the circle

What holds of `snd_queue`, `snd_buf` and their counters whatever the network
delivers: input can delete numbers from the window and move its start, a flush
adds the next numbers at its end while there is room for them.
-/

namespace UdpKcp.Plug

open ByteCodec (Bytes)
open Serial (Window offset)
open Ikcp

/-- The counters count, `snd_una` is the first number outstanding, and the numbers of
`snd_buf` lie between `snd_una` and `snd_nxt`, at most a window apart. -/
structure SendRing (kcp : IKCPCB) : Prop where
  queued : kcp.nsndQue = kcp.sndQueue.length
  counted : kcp.nsndBuf = kcp.sndBuf.length
  una : kcp.sndUna = (ikcpShrinkBuf kcp).sndUna
  window : Window kcp.sndUna (offset kcp.sndUna kcp.sndNxt) (numbers kcp.sndBuf)
  size : offset kcp.sndUna kcp.sndNxt ≤ plugWnd

theorem SendRing.new (conv : UInt32) : SendRing (newKcpPlugControlBlock conv) where
  queued := rfl
  counted := rfl
  una := rfl
  window := Window.nil _ _
  size := by
    have hempty : (newKcpPlugControlBlock conv).sndUna = (newKcpPlugControlBlock conv).sndNxt := rfl
    rw [hempty, Serial.offset_self]
    exact Nat.zero_le _

/-! ## Input -/

/-- Input has deleted some of `snd_buf`, counting, and `snd_una` follows. -/
structure Trimmed (old new : IKCPCB) : Prop extends SendKept old new where
  queued : new.nsndQue = old.nsndQue
  counted : old.nsndBuf = old.sndBuf.length → new.nsndBuf = new.sndBuf.length
  una : old.sndUna = (ikcpShrinkBuf old).sndUna → new.sndUna = (ikcpShrinkBuf new).sndUna

theorem Trimmed.refl (kcp : IKCPCB) : Trimmed kcp kcp := ⟨SendKept.refl kcp, rfl, id, id⟩

theorem Trimmed.trans {a b c : IKCPCB} (hab : Trimmed a b) (hbc : Trimmed b c) : Trimmed a c :=
  ⟨hab.toSendKept.trans hbc.toSendKept, hbc.queued.trans hab.queued,
    fun h => hbc.counted (hab.counted h), fun h => hbc.una (hab.una h)⟩

/-- A step that leaves the sending half alone. -/
theorem Trimmed.of_eq {old new : IKCPCB} (hqueue : new.sndQueue = old.sndQueue)
    (hqueued : new.nsndQue = old.nsndQue) (hnxt : new.sndNxt = old.sndNxt)
    (hbuf : new.sndBuf = old.sndBuf) (hcount : new.nsndBuf = old.nsndBuf)
    (huna : new.sndUna = old.sndUna) : Trimmed old new := by
  refine ⟨SendKept.of_eq hqueue hnxt hbuf, hqueued, ?_, ?_⟩
  · intro h
    rw [hcount, hbuf]
    exact h
  · intro h
    rw [huna, h]
    unfold ikcpShrinkBuf
    rw [hbuf, hnxt]

/-- A deletion followed by `ikcp_shrink_buf`. -/
theorem Trimmed.shrink {old new : IKCPCB} (hkept : SendKept old new)
    (hqueued : new.nsndQue = old.nsndQue)
    (hcount : new.nsndBuf = old.nsndBuf - (old.sndBuf.length - new.sndBuf.length)) :
    Trimmed old (ikcpShrinkBuf new) := by
  refine ⟨⟨hkept.queue, hkept.nxt, hkept.buf⟩, hqueued, ?_, fun _ => rfl⟩
  intro h
  have hle := hkept.buf.length_le
  unfold cores at hle
  rw [List.length_map, List.length_map] at hle
  show new.nsndBuf = new.sndBuf.length
  omega

theorem Trimmed.inputCommon (kcp : IKCPCB) (h : SegHeader) : Trimmed kcp (inputCommon kcp h) :=
  Trimmed.shrink ⟨rfl, rfl, (dropUnacked_suffix h.una kcp.sndBuf).sublist.map _⟩ rfl rfl

theorem Trimmed.parseAck (kcp : IKCPCB) (sn : UInt32) :
    Trimmed kcp (ikcpShrinkBuf (ikcpParseAck kcp sn)) := by
  apply Trimmed.shrink (SendKept.parseAck kcp sn)
  · unfold ikcpParseAck
    split <;> rfl
  · unfold ikcpParseAck
    split
    · omega
    · rfl

theorem Trimmed.inputAck (st : InputState) (h : SegHeader) :
    Trimmed st.kcp (inputAck st h).kcp := by
  apply inputAck_of (Trimmed.refl st.kcp)
  · intro rtt
    rw [ikcpUpdateAck_eq]
    exact Trimmed.of_eq rfl rfl rfl rfl rfl rfl
  · exact fun kcp hkcp => hkcp.trans (Trimmed.parseAck kcp h.sn)

theorem Trimmed.inputSegment (st : InputState) (h : SegHeader) (payload : Bytes) :
    Trimmed st.kcp (inputSegment st h payload).kcp := by
  have hcommon := Trimmed.inputCommon st.kcp h
  apply inputSegment_of hcommon
  · exact hcommon.trans (Trimmed.inputAck { st with kcp := Ikcp.inputCommon st.kcp h } h)
  · rw [inputPush_eq]
    exact hcommon.trans (Trimmed.of_eq rfl rfl rfl rfl rfl rfl)
  · exact hcommon.trans (Trimmed.of_eq rfl rfl rfl rfl rfl rfl)

/-- The fast-ack walk only counts. -/
theorem Trimmed.parseFastack (kcp : IKCPCB) (sn ts : UInt32) :
    Trimmed kcp (ikcpParseFastack kcp sn ts) := by
  unfold ikcpParseFastack
  split
  · exact Trimmed.refl kcp
  · have hcores := countFastack_cores sn kcp.sndBuf
    have hlen := congrArg List.length hcores
    unfold cores at hlen
    rw [List.length_map, List.length_map] at hlen
    refine ⟨⟨rfl, rfl, hcores ▸ List.Sublist.refl _⟩, rfl, fun h => h.trans hlen.symm, ?_⟩
    intro h
    have hshrink : (ikcpShrinkBuf { kcp with sndBuf := countFastack sn kcp.sndBuf }).sndUna =
        (ikcpShrinkBuf kcp).sndUna := shrink_una_cores rfl hcores
    rw [hshrink]
    exact h

theorem Trimmed.inputTail (st : InputState) (prevUna : UInt32) :
    Trimmed st.kcp (inputTail st prevUna) := by
  have hfast : Trimmed st.kcp
      (if st.flag then ikcpParseFastack st.kcp st.maxack st.latestTs else st.kcp) := by
    split
    · exact Trimmed.parseFastack _ _ _
    · exact Trimmed.refl _
  unfold Ikcp.inputTail
  rw [inputCwnd_eq]
  exact hfast.trans (Trimmed.of_eq rfl rfl rfl rfl rfl rfl)

theorem Trimmed.input (kcp : IKCPCB) (data : Bytes) : Trimmed kcp (ikcpInput kcp data).1 :=
  ikcpInput_keeps (fun st h payload hst => hst.trans (Trimmed.inputSegment st h payload))
    (fun st prevUna hst => hst.trans (Trimmed.inputTail st prevUna)) data (Trimmed.refl kcp)

theorem Trimmed.kcpRecv (block : IKCPCB) (input : Option Bytes) (soc : Socket) (maxlen : Int) :
    Trimmed block (kcpRecv block input soc maxlen).block := by
  apply kcpRecv_keeps _ _ input soc maxlen (Trimmed.refl block)
  · exact fun kcp data hk => hk.trans (Trimmed.input kcp data)
  · intro kcp kcp' len bytes hlen hr hk
    obtain ⟨-, -, -, -, probe, rfl, -⟩ := ikcpRecv_ok hlen hr
    exact hk.trans (Trimmed.of_eq rfl rfl rfl rfl rfl rfl)

/-- `snd_una` after `ikcp_shrink_buf`: a number of the buffer, or `snd_nxt` without one. -/
theorem shrink_una_mem (kcp : IKCPCB) :
    (ikcpShrinkBuf kcp).sndUna ∈ numbers kcp.sndBuf ∨ (ikcpShrinkBuf kcp).sndUna = kcp.sndNxt := by
  unfold ikcpShrinkBuf
  cases kcp.sndBuf with
  | nil => exact Or.inr rfl
  | cons seg segs => exact Or.inl List.mem_cons_self

/-- No number of the buffer lies behind its head. -/
theorem shrink_una_le {base : UInt32} {size : ℕ} {kcp : IKCPCB}
    (h : Window base size (numbers kcp.sndBuf)) :
    ∀ n ∈ numbers kcp.sndBuf, offset base (ikcpShrinkBuf kcp).sndUna ≤ offset base n := by
  unfold ikcpShrinkBuf
  cases hbuf : kcp.sndBuf with
  | nil => exact List.forall_mem_nil _
  | cons seg segs =>
      rw [hbuf] at h
      intro n hn
      rcases List.mem_cons.mp hn with rfl | hn
      · exact Nat.le_refl _
      · exact Nat.le_of_lt (h.head_lt hn)

/-- Deleting keeps the ring, and `snd_una` moves up, at most to `snd_nxt`. -/
theorem SendRing.trimmed {kcp kcp' : IKCPCB} (h : SendRing kcp) (ht : Trimmed kcp kcp') :
    SendRing kcp' ∧ offset kcp.sndUna kcp'.sndUna ≤ offset kcp.sndUna kcp.sndNxt := by
  have huna := ht.una h.una
  have hsub : (numbers kcp'.sndBuf).Sublist (numbers kcp.sndBuf) := by
    rw [← numbers_cores, ← numbers_cores kcp.sndBuf]
    exact ht.buf.map _
  have hwindow := h.window.sublist hsub
  have hle : offset kcp.sndUna kcp'.sndUna ≤ offset kcp.sndUna kcp.sndNxt := by
    rw [huna]
    rcases shrink_una_mem kcp' with hmem | heq
    · exact Nat.le_of_lt (hwindow.inside _ hmem)
    · rw [heq, ht.nxt]
  have hrest := Serial.offset_rebase hle
  have hsize := h.size
  have hbehind := shrink_una_le hwindow
  rw [← huna] at hbehind
  have hrebase := hwindow.rebase hbehind
  rw [← hrest, ← ht.nxt] at hrebase
  refine ⟨⟨?_, ht.counted h.counted, huna, hrebase, ?_⟩, hle⟩
  · rw [ht.queued, ht.queue]
    exact h.queued
  · rw [ht.nxt]
    omega

/-! ## Sending and flushing -/

theorem sendFragments_length (mss : ℕ) (stream : Int) (count : ℕ) (buffer : Bytes) :
    (sendFragments mss stream count buffer).length = count := by
  induction count generalizing buffer with
  | zero => rfl
  | succ count ih => rw [sendFragments, List.length_cons, ih]

theorem SendRing.send {conv : UInt32} {block : IKCPCB} (h : SendRing block)
    (hsound : Sound conv block) (data : Bytes) :
    SendRing (kcpSend block data data.length).1 := by
  rw [kcpSend_message hsound.stream_eq (by rw [hsound.mss_toNat]; decide)]
  split
  · refine ⟨?_, h.counted, h.una, h.window, h.size⟩
    unfold queueMessage
    dsimp only
    rw [List.length_append, sendFragments_length, h.queued]
  · exact h

/-- Opening the window puts the next numbers behind the last ones. -/
theorem SendRing.moveSndQueue {kcp : IKCPCB} (h : SendRing kcp) (wnd : UInt32) {cwnd : UInt32}
    (hcwnd : cwnd.toNat ≤ plugWnd) :
    SendRing (moveSndQueue kcp wnd cwnd) ∧
      ∃ k ≤ plugWnd, (Ikcp.moveSndQueue kcp wnd cwnd).sndNxt = kcp.sndNxt + UInt32.ofNat k := by
  have hsize := h.size
  have hwnd : plugWnd = 128 := rfl
  obtain ⟨k, hdrop, hlen, hle⟩ := openWindow_append kcp wnd (kcp.sndUna + cwnd) kcp.sndNxt
    kcp.sndQueue
  have hfits := @openWindow_fits kcp wnd cwnd kcp.sndNxt kcp.sndUna kcp.sndQueue
    (by omega) (by omega)
  have hnumbers := openWindow_numbers kcp wnd (kcp.sndUna + cwnd) kcp.sndNxt kcp.sndQueue
  rw [hlen] at hfits hnumbers
  have hnxt : offset kcp.sndUna (kcp.sndNxt + UInt32.ofNat k) = offset kcp.sndUna kcp.sndNxt + k :=
    Serial.offset_add (by omega)
  have hrun : Window kcp.sndUna (offset kcp.sndUna kcp.sndNxt + k) (Serial.run kcp.sndNxt k) :=
    Window.run (by omega)
  refine ⟨⟨?_, ?_, moveSndQueue_una wnd cwnd h.una, ?_, ?_⟩, k, by omega, ?_⟩
  · show kcp.nsndQue - (openWindow kcp wnd (kcp.sndUna + cwnd) kcp.sndNxt kcp.sndQueue).1.length =
      (openWindow kcp wnd (kcp.sndUna + cwnd) kcp.sndNxt kcp.sndQueue).2.length
    rw [hlen, hdrop, List.length_drop, h.queued]
  · unfold Ikcp.moveSndQueue
    dsimp only
    rw [List.length_append, h.counted]
  · unfold Ikcp.moveSndQueue
    dsimp only
    rw [numbers_append, hnumbers, hlen, hnxt]
    apply (h.window.mono (Nat.le_add_right _ k)).append hrun
    intro x hx y hy
    have hxin := h.window.inside x hx
    have hyin := (Serial.mem_run kcp.sndUna (by omega) hy).1
    omega
  · unfold Ikcp.moveSndQueue
    dsimp only
    rw [hlen, hnxt]
    omega
  · unfold Ikcp.moveSndQueue
    dsimp only
    rw [hlen]

/-- A step that leaves the sending half alone, time stamps and counts of segments apart. -/
theorem SendRing.same {kcp kcp' : IKCPCB} (h : SendRing kcp) (hqueue : kcp'.sndQueue = kcp.sndQueue)
    (hqueued : kcp'.nsndQue = kcp.nsndQue) (hnxt : kcp'.sndNxt = kcp.sndNxt)
    (hbuf : cores kcp'.sndBuf = cores kcp.sndBuf) (hcount : kcp'.nsndBuf = kcp.nsndBuf)
    (huna : kcp'.sndUna = kcp.sndUna) : SendRing kcp' := by
  have hnum : numbers kcp'.sndBuf = numbers kcp.sndBuf := by
    rw [← numbers_cores, hbuf, numbers_cores]
  refine ⟨?_, ?_, ?_, ?_, ?_⟩
  · rw [hqueued, hqueue]
    exact h.queued
  · rw [hcount, h.counted, ← numbers_length, ← hnum, numbers_length]
  · rw [huna, h.una, shrink_una_cores hnxt hbuf]
  · rw [huna, hnxt, hnum]
    exact h.window
  · rw [huna, hnxt]
    exact h.size

/-- A flush opens at most a window of numbers, and `snd_una` stays. -/
theorem SendRing.flush {conv : UInt32} {kcp : IKCPCB} (h : SendRing kcp) (hsound : Sound conv kcp)
    (hupdated : kcp.updated ≠ 0) :
    SendRing (ikcpFlush kcp).1 ∧ (ikcpFlush kcp).1.sndUna = kcp.sndUna ∧
      ∃ k ≤ plugWnd, (ikcpFlush kcp).1.sndNxt = kcp.sndNxt + UInt32.ofNat k := by
  have hprobed : SendRing { flushProbed kcp with probe := 0 } := by
    rw [flushProbed_eq]
    exact ⟨h.queued, h.counted, h.una, h.window, h.size⟩
  have hfields : (flushProbed kcp).sndUna = kcp.sndUna ∧ (flushProbed kcp).sndNxt = kcp.sndNxt := by
    rw [flushProbed_eq]
    exact ⟨rfl, rfl⟩
  have hcwnd : (flushCwnd { flushProbed kcp with probe := 0 }).toNat ≤ plugWnd := by
    have hle := flushCwnd_le { flushProbed kcp with probe := 0 }
    have hwnd : (flushProbed kcp).sndWnd.toNat = plugWnd :=
      congrArg (UInt32.toNat ∘ Config.sndWnd) ((flushProbed_config kcp).trans hsound.config)
    exact Nat.le_trans hle (Nat.le_of_eq hwnd)
  obtain ⟨hopened, k, hk, hnxt⟩ := hprobed.moveSndQueue (ikcpWndUnused kcp) hcwnd
  rw [ikcpFlush_block hupdated]
  refine ⟨?_, hfields.1, k, hk, ?_⟩
  · exact @SendRing.same (flushOpened kcp) _ hopened rfl rfl rfl (stamped_cores _ _ _) rfl rfl
  · exact hnxt.trans (congrArg (· + UInt32.ofNat k) hfields.2)

theorem SendRing.timed {block : IKCPCB} (h : SendRing block) (dlt : UInt32) :
    SendRing (updateTimer block dlt).1 := by
  rw [updateTimer_eq]
  exact ⟨h.queued, h.counted, h.una, h.window, h.size⟩

theorem SendRing.update {conv : UInt32} {block : IKCPCB} (h : SendRing block)
    (hsound : Sound conv block) (dlt : UInt32) :
    SendRing (kcpUpdate block dlt).1 ∧ (kcpUpdate block dlt).1.sndUna = block.sndUna ∧
      ∃ k ≤ plugWnd, (kcpUpdate block dlt).1.sndNxt = block.sndNxt + UInt32.ofNat k := by
  have hfields : (updateTimer block dlt).1.sndUna = block.sndUna ∧
      (updateTimer block dlt).1.sndNxt = block.sndNxt := by
    rw [updateTimer_eq]
    exact ⟨rfl, rfl⟩
  have hflush := (h.timed dlt).flush (hsound.timed dlt) (updateTimer_updated block dlt)
  rw [hfields.1, hfields.2] at hflush
  refine @kcpUpdate_of (fun kcp => SendRing kcp ∧ kcp.sndUna = block.sndUna ∧
    ∃ k ≤ plugWnd, kcp.sndNxt = block.sndNxt + UInt32.ofNat k) _ _ ?_ hflush
  refine ⟨h.timed dlt, hfields.1, 0, Nat.zero_le _, ?_⟩
  rw [hfields.2]
  exact (UInt32.add_zero _).symm

end UdpKcp.Plug
