import UdpKcp.Plug.Backoff
import UdpKcp.Plug.Representation

/-! # The retransmission counters

`segment->xmit`, `kcp->xmit` and `kcp->state` as what they count along a run: the
transmissions of a number, the timeouts, and whether a number was sent
`dead_link` times. First transmissions carry the numbers in order, each once.
-/

namespace UdpKcp.Plug

open ByteCodec (Bytes)
open Serial (Window offset)
open Ikcp

/-! ## Counting transmissions -/

/-- How often number `sn` has been transmitted. -/
def timesSent (sent : List Transmission) (sn : UInt32) : ℕ :=
  sent.countP fun t => t.segment.sn = sn

/-- The numbers of the first transmissions, in order. -/
def firstNumbers (sent : List Transmission) : List UInt32 :=
  (sent.filter fun t => t.reason = .first).map fun t => t.segment.sn

theorem timesSent_append (sent more : List Transmission) (sn : UInt32) :
    timesSent (sent ++ more) sn = timesSent sent sn + timesSent more sn := List.countP_append

theorem firstNumbers_append (sent more : List Transmission) :
    firstNumbers (sent ++ more) = firstNumbers sent ++ firstNumbers more := by
  unfold firstNumbers
  rw [List.filter_append, List.map_append]

theorem timesSent_le_length (sent : List Transmission) (sn : UInt32) :
    timesSent sent sn ≤ sent.length := List.countP_le_length

theorem firstNumbers_length_le (sent : List Transmission) :
    (firstNumbers sent).length ≤ sent.length := by
  unfold firstNumbers
  rw [List.length_map]
  exact List.length_filter_le _ _

/-- Where keys are distinct, an entry is found once, if it passes the filter. -/
theorem countP_filter_key {α β : Type} [DecidableEq β] {f : α → β} (p : α → Bool) {xs : List α}
    (h : (xs.map f).Nodup) {x : α} (hx : x ∈ xs) :
    (xs.filter p).countP (fun y => f y = f x) = if p x then 1 else 0 := by
  induction xs with
  | nil => cases hx
  | cons y ys ih =>
      obtain ⟨hnew, hrest⟩ := List.nodup_cons.mp h
      rcases List.mem_cons.mp hx with rfl | hmem
      · -- no later entry has the key
        have hnone : (ys.filter p).countP (fun y => f y = f x) = 0 := by
          rw [List.countP_eq_zero]
          intro y hy heq
          apply hnew
          rw [← of_decide_eq_true heq]
          exact List.mem_map_of_mem (List.mem_of_mem_filter hy)
        by_cases hp : p x
        · rw [List.filter_cons_of_pos hp, List.countP_cons_of_pos (by simp), hnone, if_pos hp]
        · rw [List.filter_cons_of_neg hp, hnone, if_neg hp]
      · have hne : f y ≠ f x := by
          intro heq
          apply hnew
          rw [heq]
          exact List.mem_map_of_mem hmem
        by_cases hp : p y
        · rw [List.filter_cons_of_pos hp, List.countP_cons_of_neg (by simpa using hne)]
          exact ih hrest hmem
        · rw [List.filter_cons_of_neg hp]
          exact ih hrest hmem

/-! ## The two counters of the data loop -/

theorem flushSegment_xmit (kcp : IKCPCB) (wnd : UInt32) (st : DataLoop) (segment : IKCPSEG) :
    (flushSegment kcp wnd st segment).xmit =
      if sendReason kcp segment = .timeout then st.xmit + 1 else st.xmit := by
  unfold flushSegment
  by_cases hidle : sendReason kcp segment = .idle
  · simp [hidle]
  · simp [hidle]

theorem flushSegment_state (kcp : IKCPCB) (wnd : UInt32) (st : DataLoop) (segment : IKCPSEG) :
    (flushSegment kcp wnd st segment).state =
      if sendReason kcp segment ≠ .idle ∧ (stampSegment kcp wnd segment).xmit ≥ kcp.deadLink then
        0xffffffff
      else st.state := by
  unfold flushSegment
  by_cases hidle : sendReason kcp segment = .idle
  · simp [hidle]
  · simp [hidle]

theorem flushData_xmit (kcp : IKCPCB) (wnd : UInt32) (st : DataLoop) (buf : List IKCPSEG) :
    (buf.foldl (flushSegment kcp wnd) st).xmit =
      st.xmit + UInt32.ofNat (buf.countP fun seg => sendReason kcp seg = .timeout) := by
  induction buf generalizing st with
  | nil => exact (UInt32.add_zero _).symm
  | cons seg buf ih =>
      rw [List.foldl_cons, ih, flushSegment_xmit, List.countP_cons]
      by_cases htimeout : sendReason kcp seg = .timeout
      · rw [if_pos htimeout, if_pos (by simpa using htimeout), UInt32.ofNat_add, UInt32.add_assoc,
          UInt32.add_comm 1]
        rfl
      · rw [if_neg htimeout, if_neg (by simpa using htimeout), Nat.add_zero]

theorem flushData_state (kcp : IKCPCB) (wnd : UInt32) (st : DataLoop) (buf : List IKCPSEG) :
    ((buf.foldl (flushSegment kcp wnd) st).state = 0xffffffff ∧
        ∃ seg ∈ buf, sendReason kcp seg ≠ .idle ∧
          (stampSegment kcp wnd seg).xmit ≥ kcp.deadLink) ∨
      ((buf.foldl (flushSegment kcp wnd) st).state = st.state ∧
        ∀ seg ∈ buf, sendReason kcp seg ≠ .idle →
          ¬ (stampSegment kcp wnd seg).xmit ≥ kcp.deadLink) := by
  induction buf generalizing st with
  | nil => exact Or.inr ⟨rfl, List.forall_mem_nil _⟩
  | cons seg buf ih =>
      rw [List.foldl_cons]
      rcases ih (flushSegment kcp wnd st seg) with ⟨hset, s, hs, hdead⟩ | ⟨hkept, hnone⟩
      · exact Or.inl ⟨hset, s, List.mem_cons_of_mem _ hs, hdead⟩
      · rw [flushSegment_state] at hkept
        by_cases hdead : sendReason kcp seg ≠ .idle ∧
            (stampSegment kcp wnd seg).xmit ≥ kcp.deadLink
        · rw [if_pos hdead] at hkept
          exact Or.inl ⟨hkept, seg, List.mem_cons_self, hdead⟩
        · rw [if_neg hdead] at hkept
          refine Or.inr ⟨hkept, ?_⟩
          intro s hs hreason hge
          rcases List.mem_cons.mp hs with rfl | hs
          · exact hdead ⟨hreason, hge⟩
          · exact hnone s hs hreason hge

theorem ikcpFlush_counters {kcp : IKCPCB} (h : kcp.updated ≠ 0) :
    (ikcpFlush kcp).1.xmit = (flushLoop kcp).xmit ∧
      (ikcpFlush kcp).1.state = (flushLoop kcp).state := by
  rw [ikcpFlush_eq h]
  dsimp only
  rw [flushCongestion_eq]
  exact ⟨rfl, rfl⟩

theorem stampSegment_xmit (kcp : IKCPCB) (wnd : UInt32) (seg : IKCPSEG) :
    (stampSegment kcp wnd seg).xmit =
      if sendReason kcp seg = .idle then seg.xmit else seg.xmit + 1 := by
  unfold stampSegment
  cases sendReason kcp seg <;> rfl

theorem sendReason_first_iff (kcp : IKCPCB) (seg : IKCPSEG) :
    sendReason kcp seg = .first ↔ seg.xmit = 0 := by
  unfold sendReason
  split_ifs with hfirst <;> simp [hfirst]

/-! ## Steps that transmit nothing -/

/-- The numbers of a buffer with their counters. -/
def xmits (segs : List IKCPSEG) : List (UInt32 × UInt32) := segs.map fun seg => (seg.sn, seg.xmit)

theorem mem_xmits {segs : List IKCPSEG} {seg : IKCPSEG} (h : seg ∈ segs) :
    (seg.sn, seg.xmit) ∈ xmits segs :=
  List.mem_map_of_mem h

/-- A step that counts nothing; `snd_buf` may lose segments. -/
structure Uncounted (old new : IKCPCB) : Prop where
  nxt : new.sndNxt = old.sndNxt
  xmit : new.xmit = old.xmit
  state : new.state = old.state
  buf : (xmits new.sndBuf).Sublist (xmits old.sndBuf)

theorem Uncounted.refl (kcp : IKCPCB) : Uncounted kcp kcp := ⟨rfl, rfl, rfl, List.Sublist.refl _⟩

theorem Uncounted.trans {a b c : IKCPCB} (hab : Uncounted a b) (hbc : Uncounted b c) :
    Uncounted a c :=
  ⟨hbc.nxt.trans hab.nxt, hbc.xmit.trans hab.xmit, hbc.state.trans hab.state,
    hbc.buf.trans hab.buf⟩

theorem inputSegment_counters (st : InputState) (h : SegHeader) (payload : Bytes) :
    (inputSegment st h payload).kcp.xmit = st.kcp.xmit ∧
      (inputSegment st h payload).kcp.state = st.kcp.state := by
  refine @inputSegment_of (fun kcp => kcp.xmit = st.kcp.xmit ∧ kcp.state = st.kcp.state) st h
    payload ⟨rfl, rfl⟩ ?_ ?_ ⟨rfl, rfl⟩
  · refine @inputAck_of (fun kcp => kcp.xmit = st.kcp.xmit ∧ kcp.state = st.kcp.state)
      (fun kcp => kcp.xmit = st.kcp.xmit ∧ kcp.state = st.kcp.state) _ h ⟨rfl, rfl⟩ ?_ ?_
    · intro rtt
      rw [ikcpUpdateAck_eq]
      exact ⟨rfl, rfl⟩
    · intro kcp hkcp
      unfold ikcpParseAck
      split
      · exact hkcp
      · exact hkcp
  · rw [inputPush_eq]
    exact ⟨rfl, rfl⟩

theorem Uncounted.inputSegment (st : InputState) (h : SegHeader) (payload : Bytes) :
    Uncounted st.kcp (inputSegment st h payload).kcp :=
  ⟨(SendKept.inputSegment st h payload).nxt, (inputSegment_counters st h payload).1,
    (inputSegment_counters st h payload).2, (inputSegment_sndBuf st h payload).map _⟩

theorem inputTail_xmits (st : InputState) (prevUna : UInt32) :
    xmits (inputTail st prevUna).sndBuf = xmits st.kcp.sndBuf := by
  have hbuf := congrArg IKCPCB.sndBuf (inputTail_looped st prevUna)
  have hxmits := congrArg xmits hbuf
  unfold IKCPCB.looped xmits at hxmits
  dsimp only at hxmits
  rw [List.map_map, List.map_map] at hxmits
  exact hxmits

theorem Uncounted.inputTail (st : InputState) (prevUna : UInt32) :
    Uncounted st.kcp (inputTail st prevUna) := by
  refine ⟨(SendKept.inputTail st prevUna).nxt, ?_, ?_, ?_⟩
  · rw [inputTail_eq]
  · rw [inputTail_eq]
  · rw [inputTail_xmits]

theorem Uncounted.recv (block : IKCPCB) (input : Option Bytes) (soc : Socket) (maxlen : Int) :
    Uncounted block (kcpRecv block input soc maxlen).block := by
  refine kcpRecv_keeps ?_ ?_ input soc maxlen (Uncounted.refl block)
  · intro kcp data hkcp
    exact ikcpInput_keeps (fun st h payload hst => hst.trans (Uncounted.inputSegment st h payload))
      (fun st prevUna hst => hst.trans (Uncounted.inputTail st prevUna)) data hkcp
  · intro kcp kcp' len bytes hlen hr hkcp
    obtain ⟨-, -, -, -, probe, rfl, -⟩ := ikcpRecv_ok hlen hr
    exact hkcp.trans ⟨rfl, rfl, rfl, List.Sublist.refl _⟩

theorem Uncounted.send (block : IKCPCB) (data : Bytes) :
    Uncounted block (kcpSend block data data.length).1 := by
  rw [kcpSend_eq]
  exact ⟨rfl, rfl, rfl, List.Sublist.refl _⟩

theorem Uncounted.timed (block : IKCPCB) (dlt : UInt32) :
    Uncounted block (updateTimer block dlt).1 := by
  rw [updateTimer_eq]
  exact ⟨rfl, rfl, rfl, List.Sublist.refl _⟩

/-! ## The tally of a run -/

/-- What the counters of a block say about the transmissions so far. -/
structure Tally (block : IKCPCB) (sent : List Transmission) : Prop where
  first : firstNumbers sent = Serial.run 0 block.sndNxt.toNat
  below : ∀ t ∈ sent, t.segment.sn.toNat < block.sndNxt.toNat
  segments : ∀ x ∈ xmits block.sndBuf, 0 < timesSent sent x.1 ∧ x.2.toNat = timesSent sent x.1
  timeouts : block.xmit.toNat = sent.countP fun t => t.reason = .timeout
  dead : (block.state = 0xffffffff ∧ ∃ sn, ikcpDeadlink.toNat ≤ timesSent sent sn) ∨
    (block.state = 0 ∧ ∀ sn, timesSent sent sn < ikcpDeadlink.toNat)

theorem Tally.new (conv : UInt32) : Tally (newKcpPlugControlBlock conv) [] where
  first := rfl
  below := List.forall_mem_nil _
  segments := List.forall_mem_nil _
  timeouts := rfl
  dead := by
    have hdeadlink : 0 < ikcpDeadlink.toNat := by decide
    exact Or.inr ⟨rfl, fun _ => hdeadlink⟩

theorem Tally.uncounted {old new : IKCPCB} {sent : List Transmission} (h : Tally old sent)
    (hu : Uncounted old new) : Tally new sent where
  first := by
    rw [hu.nxt]
    exact h.first
  below := by
    rw [hu.nxt]
    exact h.below
  segments := fun x hx => h.segments x (hu.buf.mem hx)
  timeouts := by
    rw [hu.xmit]
    exact h.timeouts
  dead := by
    rw [hu.state]
    exact h.dead

/-! ## One flush -/

theorem filter_flushTransmissions (kcp : IKCPCB) {reason : SendReason} (h : reason ≠ .idle) :
    (flushTransmissions kcp).filter (fun t => decide (t.reason = reason)) =
      ((flushOpened kcp).sndBuf.filter
        fun seg => decide (sendReason (flushOpened kcp) seg = reason)).map
          fun seg => ⟨flushOpened kcp, ikcpWndUnused kcp, seg⟩ := by
  unfold flushTransmissions
  dsimp only
  rw [List.filter_map, List.filter_filter]
  congr 1
  apply List.filter_congr
  intro seg _
  unfold Transmission.reason
  by_cases hreason : sendReason (flushOpened kcp) seg = reason
  · simp [hreason, h]
  · simp [hreason]

/-- What a flush opens: the next numbers, not sent yet. -/
structure Opens (kcp : IKCPCB) (opened : List IKCPSEG) : Prop where
  buf : (flushOpened kcp).sndBuf = kcp.sndBuf ++ opened
  numbered : numbers opened = Serial.run kcp.sndNxt opened.length
  nxt : (flushOpened kcp).sndNxt = kcp.sndNxt + UInt32.ofNat opened.length
  fresh : ∀ seg ∈ opened, seg.xmit = 0
  distinct : (numbers (flushOpened kcp).sndBuf).Nodup

theorem exists_opens {conv : UInt32} {kcp : IKCPCB} (hring : SendRing kcp)
    (hsound : Sound conv kcp) : ∃ opened, Opens kcp opened := by
  have hprobed : SendRing { flushProbed kcp with probe := 0 } := by
    rw [flushProbed_eq]
    exact ⟨hring.queued, hring.counted, hring.una, hring.window, hring.size⟩
  have hnxt : (flushProbed kcp).sndNxt = kcp.sndNxt := by rw [flushProbed_eq]
  have hcwnd : (flushCwnd { flushProbed kcp with probe := 0 }).toNat ≤ plugWnd := by
    have hle := flushCwnd_le { flushProbed kcp with probe := 0 }
    have hwnd : (flushProbed kcp).sndWnd.toNat = plugWnd :=
      congrArg (UInt32.toNat ∘ Config.sndWnd) ((flushProbed_config kcp).trans hsound.config)
    exact Nat.le_trans hle (Nat.le_of_eq hwnd)
  have hopened := (hprobed.moveSndQueue (ikcpWndUnused kcp) hcwnd).1
  refine ⟨(openWindow { flushProbed kcp with probe := 0 } (ikcpWndUnused kcp)
    ((flushProbed kcp).sndUna + flushCwnd { flushProbed kcp with probe := 0 })
    (flushProbed kcp).sndNxt (flushProbed kcp).sndQueue).1, ?_, ?_, ?_, ?_, ?_⟩
  · rw [← flushProbed_sndBuf kcp]
    rfl
  · rw [← hnxt]
    exact openWindow_numbers _ _ _ _ _
  · rw [← hnxt]
    rfl
  · intro seg hseg
    obtain ⟨i, hi⟩ := List.mem_iff_getElem?.mp hseg
    obtain ⟨newseg, -, rfl⟩ := openWindow_get hi
    rfl
  · apply hopened.window.ascending.imp
    intro a b hlt heq
    rw [heq] at hlt
    exact Nat.lt_irrefl _ hlt

section Flush

variable {kcp : IKCPCB} {sent : List Transmission} (h : Tally kcp sent) {opened : List IKCPSEG}
  (ho : Opens kcp opened)

include ho

/-- How often this flush transmits a number of its buffer: once, unless it is idle. -/
theorem timesSent_flush {seg : IKCPSEG} (hseg : seg ∈ (flushOpened kcp).sndBuf) :
    timesSent (flushTransmissions kcp) seg.sn =
      if sendReason (flushOpened kcp) seg = .idle then 0 else 1 := by
  have hcount := countP_filter_key (fun s => decide (sendReason (flushOpened kcp) s ≠ .idle))
    (f := IKCPSEG.sn) ho.distinct hseg
  unfold timesSent flushTransmissions
  dsimp only
  rw [List.countP_map]
  refine hcount.trans ?_
  by_cases hidle : sendReason (flushOpened kcp) seg = .idle
  · simp [hidle]
  · simp [hidle]

include h

/-- The first transmissions of a flush are those of what it opens. -/
theorem firstNumbers_flush : firstNumbers (flushTransmissions kcp) = numbers opened := by
  have hold : ∀ seg ∈ kcp.sndBuf, sendReason (flushOpened kcp) seg ≠ .first := by
    intro seg hseg hfirst
    obtain ⟨hpos, hxmit⟩ := h.segments _ (mem_xmits hseg)
    rw [(sendReason_first_iff _ seg).mp hfirst] at hxmit
    exact Nat.ne_of_gt hpos hxmit.symm
  have hnew : ∀ seg ∈ opened, sendReason (flushOpened kcp) seg = .first := fun seg hseg =>
    (sendReason_first_iff _ seg).mpr (ho.fresh seg hseg)
  have hfilter : (flushOpened kcp).sndBuf.filter
      (fun seg => decide (sendReason (flushOpened kcp) seg = .first)) = opened := by
    rw [ho.buf, List.filter_append, List.filter_eq_nil_iff.mpr (by simpa using hold),
      List.filter_eq_self.mpr (by simpa using hnew), List.nil_append]
  unfold firstNumbers
  rw [filter_flushTransmissions kcp (by decide), List.map_map, hfilter]
  rfl

variable (hfew : (sent ++ flushTransmissions kcp).length < 2 ^ 32)

include hfew

/-- The numbers that a flush opens do not wrap. -/
theorem opened_fits : kcp.sndNxt.toNat + opened.length < 2 ^ 32 := by
  have hall := firstNumbers_length_le (sent ++ flushTransmissions kcp)
  rw [firstNumbers_append, h.first, firstNumbers_flush h ho, List.length_append,
    Serial.run_length, numbers_length] at hall
  omega

theorem opened_numbers {seg : IKCPSEG} (hseg : seg ∈ opened) :
    kcp.sndNxt.toNat ≤ seg.sn.toNat ∧ seg.sn.toNat < kcp.sndNxt.toNat + opened.length := by
  have hfits := opened_fits h ho hfew
  have hmem := mem_numbers hseg
  rw [ho.numbered] at hmem
  have hrun := Serial.mem_run 0 (by rw [Serial.offset_zero]; omega) hmem
  simpa using hrun

/-- Before the flush every counter of its buffer is right: what it opens was never sent. -/
theorem xmit_opened {seg : IKCPSEG} (hseg : seg ∈ (flushOpened kcp).sndBuf) :
    seg.xmit.toNat = timesSent sent seg.sn := by
  rw [ho.buf] at hseg
  rcases List.mem_append.mp hseg with hseg | hseg
  · exact (h.segments _ (mem_xmits hseg)).2
  · have hunsent : timesSent sent seg.sn = 0 := by
      unfold timesSent
      rw [List.countP_eq_zero]
      intro t ht heq
      have hlt := h.below t ht
      rw [of_decide_eq_true heq] at hlt
      have hle := (opened_numbers h ho hfew hseg).1
      omega
    rw [ho.fresh seg hseg, hunsent]
    rfl

/-- And after it. -/
theorem xmit_stamped {seg : IKCPSEG} (hseg : seg ∈ (flushOpened kcp).sndBuf) :
    (stampSegment (flushOpened kcp) (ikcpWndUnused kcp) seg).xmit.toNat =
      timesSent (sent ++ flushTransmissions kcp) seg.sn := by
  have hbound := timesSent_le_length (sent ++ flushTransmissions kcp) seg.sn
  rw [timesSent_append, timesSent_flush ho hseg, ← xmit_opened h ho hfew hseg] at hbound ⊢
  rw [stampSegment_xmit]
  by_cases hidle : sendReason (flushOpened kcp) seg = .idle
  · rw [if_pos hidle, if_pos hidle, Nat.add_zero]
  · rw [if_neg hidle] at hbound ⊢
    rw [if_neg hidle, UInt32.toNat_add]
    exact Nat.mod_eq_of_lt (Nat.lt_of_le_of_lt hbound hfew)

omit hfew in
/-- Everything in the buffer has been sent by now. -/
theorem timesSent_pos {seg : IKCPSEG} (hseg : seg ∈ (flushOpened kcp).sndBuf) :
    0 < timesSent (sent ++ flushTransmissions kcp) seg.sn := by
  rw [timesSent_append, timesSent_flush ho hseg]
  rw [ho.buf] at hseg
  rcases List.mem_append.mp hseg with hmem | hmem
  · exact Nat.lt_of_lt_of_le (h.segments _ (mem_xmits hmem)).1 (Nat.le_add_right _ _)
  · have hreason := (sendReason_first_iff (flushOpened kcp) seg).mpr (ho.fresh seg hmem)
    rw [if_neg (by rw [hreason]; decide)]
    omega

omit ho in
theorem timeouts_flush (hupdated : kcp.updated ≠ 0) :
    (ikcpFlush kcp).1.xmit.toNat =
      (sent ++ flushTransmissions kcp).countP fun t => t.reason = .timeout := by
  have hcount : (flushTransmissions kcp).countP (fun t => t.reason = .timeout) =
      (flushOpened kcp).sndBuf.countP fun seg => sendReason (flushOpened kcp) seg = .timeout := by
    rw [List.countP_eq_length_filter, List.countP_eq_length_filter,
      filter_flushTransmissions kcp (by decide), List.length_map]
  have hstart : (flushOpened kcp).xmit = kcp.xmit := by
    show (flushProbed kcp).xmit = kcp.xmit
    rw [flushProbed_eq]
  have hbound : (sent ++ flushTransmissions kcp).countP (fun t => t.reason = .timeout) ≤ _ :=
    List.countP_le_length
  rw [List.countP_append, hcount, ← h.timeouts] at hbound ⊢
  rw [(ikcpFlush_counters hupdated).1]
  unfold flushLoop
  rw [flushData_xmit, UInt32.toNat_add, UInt32.toNat_ofNat']
  dsimp only
  rw [hstart]
  omega

theorem dead_flush (hdead : kcp.deadLink = ikcpDeadlink) (hupdated : kcp.updated ≠ 0) :
    ((ikcpFlush kcp).1.state = 0xffffffff ∧
        ∃ sn, ikcpDeadlink.toNat ≤ timesSent (sent ++ flushTransmissions kcp) sn) ∨
      ((ikcpFlush kcp).1.state = 0 ∧
        ∀ sn, timesSent (sent ++ flushTransmissions kcp) sn < ikcpDeadlink.toNat) := by
  have hlimit : (flushOpened kcp).deadLink = ikcpDeadlink :=
    (congrArg Config.deadLink (flushOpened_config kcp)).trans hdead
  have hstart : (flushOpened kcp).state = kcp.state := by
    show (flushProbed kcp).state = kcp.state
    rw [flushProbed_eq]
  have hstate : (ikcpFlush kcp).1.state = (flushLoop kcp).state := (ikcpFlush_counters hupdated).2
  rw [hstate]
  rcases flushData_state (flushOpened kcp) (ikcpWndUnused kcp)
      { out := (flushWriter kcp).2, xmit := (flushOpened kcp).xmit
        state := (flushOpened kcp).state } (flushOpened kcp).sndBuf with
    ⟨hset, seg, hseg, -, hge⟩ | ⟨hkept, hnone⟩
  · refine Or.inl ⟨hset, seg.sn, ?_⟩
    rw [hlimit, ge_iff_le, UInt32.le_iff_toNat_le, xmit_stamped h ho hfew hseg] at hge
    exact hge
  · have hkept' : (flushLoop kcp).state = kcp.state := hkept.trans hstart
    rw [hkept']
    rcases h.dead with ⟨hdead, sn, hsn⟩ | ⟨halive, hall⟩
    · refine Or.inl ⟨hdead, sn, ?_⟩
      rw [timesSent_append]
      exact Nat.le_add_right_of_le hsn
    · refine Or.inr ⟨halive, ?_⟩
      intro sn
      by_cases hsent : timesSent (flushTransmissions kcp) sn = 0
      · rw [timesSent_append, hsent]
        exact hall sn
      · -- the flush sends the number, without reaching the limit
        obtain ⟨t, ht, heq⟩ := List.countP_pos_iff.mp (Nat.pos_of_ne_zero hsent)
        have hsn : t.segment.sn = sn := of_decide_eq_true heq
        obtain ⟨hseg, hreason, hkcp⟩ := mem_flushTransmissions ht
        have hbelow := hnone t.segment hseg (by rw [← hkcp]; exact hreason)
        rw [hlimit, ge_iff_le, UInt32.le_iff_toNat_le, xmit_stamped h ho hfew hseg, hsn] at hbelow
        exact Nat.not_le.mp hbelow

theorem Tally.flush (hdead : kcp.deadLink = ikcpDeadlink) (hupdated : kcp.updated ≠ 0) :
    Tally (ikcpFlush kcp).1 (sent ++ flushTransmissions kcp) := by
  have hfits := opened_fits h ho hfew
  have hnxt : (ikcpFlush kcp).1.sndNxt.toNat = kcp.sndNxt.toNat + opened.length := by
    rw [ikcpFlush_block hupdated]
    dsimp only
    rw [ho.nxt, UInt32.toNat_add, UInt32.toNat_ofNat']
    omega
  have hbelow : ∀ seg ∈ kcp.sndBuf, seg.sn.toNat < kcp.sndNxt.toNat := by
    intro seg hseg
    obtain ⟨t, ht, heq⟩ := List.countP_pos_iff.mp (h.segments _ (mem_xmits hseg)).1
    have hsn : t.segment.sn = seg.sn := of_decide_eq_true heq
    rw [← hsn]
    exact h.below t ht
  constructor
  · rw [firstNumbers_append, h.first, firstNumbers_flush h ho, hnxt, Serial.run_append,
      ho.numbered, UInt32.zero_add, UInt32.ofNat_toNat]
  · intro t ht
    rw [hnxt]
    rcases List.mem_append.mp ht with ht | ht
    · exact Nat.lt_of_lt_of_le (h.below t ht) (Nat.le_add_right _ _)
    · have hmem := (mem_flushTransmissions ht).1
      rw [ho.buf] at hmem
      rcases List.mem_append.mp hmem with hmem | hmem
      · exact Nat.lt_of_lt_of_le (hbelow _ hmem) (Nat.le_add_right _ _)
      · exact (opened_numbers h ho hfew hmem).2
  · intro x hx
    rw [ikcpFlush_block hupdated] at hx
    obtain ⟨stamped, hstamped, rfl⟩ := List.mem_map.mp hx
    obtain ⟨seg, hseg, rfl⟩ := List.mem_map.mp hstamped
    have hsn : (stampSegment (flushOpened kcp) (ikcpWndUnused kcp) seg).sn = seg.sn :=
      sn_of_core (stampSegment_core _ _ seg)
    dsimp only
    rw [hsn]
    exact ⟨timesSent_pos h ho hseg, xmit_stamped h ho hfew hseg⟩
  · exact timeouts_flush h hfew hupdated
  · exact dead_flush h ho hfew hdead hupdated

end Flush

/-! ## Runs -/

theorem Tally.update {conv : UInt32} {block : IKCPCB} {sent : List Transmission}
    (h : Tally block sent) (hring : SendRing block) (hsound : Sound conv block) (dlt : UInt32)
    (hfew : (sent ++ kcpUpdateTransmissions block dlt).length < 2 ^ 32) :
    Tally (kcpUpdate block dlt).1 (sent ++ kcpUpdateTransmissions block dlt) := by
  have htimed := h.uncounted (Uncounted.timed block dlt)
  unfold kcpUpdateTransmissions at hfew ⊢
  unfold kcpUpdate
  dsimp only at hfew ⊢
  cases hdue : (updateTimer block dlt).2 with
  | false =>
      rw [ikcpUpdate_idle hdue, if_neg (by decide), List.append_nil]
      exact htimed
  | true =>
      rw [hdue, if_pos rfl] at hfew
      rw [ikcpUpdate_due hdue, if_pos rfl]
      have htimedSound := hsound.timed dlt
      obtain ⟨opened, ho⟩ := exists_opens (hring.timed dlt) htimedSound
      exact htimed.flush ho hfew (congrArg Config.deadLink htimedSound.config)
        (updateTimer_updated block dlt)

/-- In every run with fewer than `2 ^ 32` transmissions: the first transmissions carry
0, 1, 2, … up to `snd_nxt`, each once; every segment of `snd_buf` counts the transmissions
of its number and `kcp->xmit` the timeouts; and `state` is -1 exactly when some number has
been transmitted 20 times, else 0. -/
theorem recorded_tally {conv : UInt32} {block : IKCPCB} {past : History}
    (h : Recorded conv block past) (hfew : past.sent.length < 2 ^ 32) : Tally block past.sent := by
  induction h with
  | new => exact Tally.new conv
  | send data _ ih => exact (ih hfew).uncounted (Uncounted.send _ data)
  | recv input soc maxlen _ ih => exact (ih hfew).uncounted (Uncounted.recv _ input soc maxlen)
  | @update block past dlt run ih =>
      dsimp only at hfew ⊢
      have hshort : past.sent.length < 2 ^ 32 := by
        rw [List.length_append] at hfew
        omega
      have hring := (ringed_of_reachable run.reachable).snd
      have hsound := sound_of_reachable run.reachable
      exact (ih hshort).update hring hsound dlt hfew

/-- Two timeouts of one byte. -/
theorem recorded_tally_silent :
    timesSent (silentRun 2).2.sent 0 = 3 ∧ Tally (silentRun 2).1 (silentRun 2).2.sent :=
  ⟨by decide +kernel, recorded_tally (silentRun_recorded 2) (by decide +kernel)⟩

end UdpKcp.Plug
