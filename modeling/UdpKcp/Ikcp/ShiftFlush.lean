import UdpKcp.Ikcp.Shift

/-! # Flushing under a shift

The update timer, the probe timer, the window and the data loop commute with the
shift; so do the emitted segments, of which only the probes keep a number that
is none of the receiver's business.
-/

namespace UdpKcp.Ikcp

open ByteCodec (Bytes)

/-! ## The update timer in steps -/

/-- The clock is read, and on the first call the flush timer set. -/
def timerStart (kcp : IKCPCB) (current : UInt32) : IKCPCB :=
  if kcp.updated = 0 then { kcp with current := current, updated := 1, tsFlush := current }
  else { kcp with current := current }

/-- The flush timer is too far from the clock to be trusted. -/
def timerLost (kcp : IKCPCB) : Prop :=
  itimediff kcp.current kcp.tsFlush ≥ 10000 ∨ itimediff kcp.current kcp.tsFlush < -10000

instance (kcp : IKCPCB) : Decidable (timerLost kcp) := by
  unfold timerLost
  infer_instance

def timerReset (kcp : IKCPCB) : IKCPCB :=
  if timerLost kcp then { kcp with tsFlush := kcp.current } else kcp

def timerAdvance (kcp : IKCPCB) : IKCPCB :=
  { kcp with
    tsFlush :=
      if itimediff kcp.current (kcp.tsFlush + kcp.interval) ≥ 0 then kcp.current + kcp.interval
      else kcp.tsFlush + kcp.interval }

theorem updateTimer_steps (kcp : IKCPCB) (current : UInt32) :
    updateTimer kcp current =
      if (if timerLost (timerStart kcp current) then 0
          else itimediff (timerStart kcp current).current (timerStart kcp current).tsFlush) ≥ 0 then
        (timerAdvance (timerReset (timerStart kcp current)), true)
      else (timerReset (timerStart kcp current), false) := by
  have hstart : (if kcp.updated = 0 then
      { { kcp with current := current } with updated := 1, tsFlush := current }
      else { kcp with current := current }) = timerStart kcp current := rfl
  unfold updateTimer
  dsimp only
  rw [hstart]
  rfl

/-! ## The probe timer -/

/-- The wait after one more round without an answer. -/
def nextProbeWait (wait : UInt32) : UInt32 :=
  let wait := if wait < ikcpProbeInit then ikcpProbeInit else wait
  let wait := wait + wait / 2
  if wait > ikcpProbeLimit then ikcpProbeLimit else wait

theorem nextProbeWait_le (wait : UInt32) : nextProbeWait wait ≤ ikcpProbeLimit := by
  unfold nextProbeWait
  dsimp only
  generalize (if wait < ikcpProbeInit then ikcpProbeInit else wait) = w
  split
  · exact UInt32.le_refl _
  · rename_i hle
    exact UInt32.not_lt.mp hle

theorem nextProbeWait_ne_zero {wait : UInt32} (h : wait ≤ ikcpProbeLimit) :
    nextProbeWait wait ≠ 0 := by
  have hlimit : ikcpProbeLimit.toNat = 120000 := rfl
  have hinit : ikcpProbeInit.toNat = 7000 := rfl
  rw [UInt32.le_iff_toNat_le] at h
  have hbounds : 7000 ≤ (if wait < ikcpProbeInit then ikcpProbeInit else wait).toNat ∧
      (if wait < ikcpProbeInit then ikcpProbeInit else wait).toNat ≤ 120000 := by
    split
    · omega
    · rename_i hge
      rw [UInt32.lt_iff_toNat_lt] at hge
      omega
  unfold nextProbeWait
  dsimp only
  generalize (if wait < ikcpProbeInit then ikcpProbeInit else wait) = w at hbounds ⊢
  split
  · decide
  · intro hzero
    have hsum := congrArg UInt32.toNat hzero
    rw [UInt32.toNat_add, UInt32.toNat_div] at hsum
    change (w.toNat + w.toNat / 2) % 2 ^ 32 = 0 at hsum
    omega

namespace Offsets

variable (o : Offsets)

theorem timerStart_shift (kcp : IKCPCB) (current : UInt32) :
    timerStart (o.block kcp) (current + o.clock) = o.block (timerStart kcp current) := by
  unfold timerStart
  have hupdated : (o.block kcp).updated = kcp.updated := rfl
  rw [hupdated]
  split <;> rfl

theorem timerLost_shift (kcp : IKCPCB) : timerLost (o.block kcp) ↔ timerLost kcp := by
  have hslap : itimediff (o.block kcp).current (o.block kcp).tsFlush =
      itimediff kcp.current kcp.tsFlush := itimediff_add _ _ _
  unfold timerLost
  rw [hslap]

theorem timerReset_shift (kcp : IKCPCB) : timerReset (o.block kcp) = o.block (timerReset kcp) := by
  unfold timerReset
  simp only [timerLost_shift]
  split <;> rfl

theorem timerAdvance_shift (kcp : IKCPCB) :
    timerAdvance (o.block kcp) = o.block (timerAdvance kcp) := by
  have hnext : (o.block kcp).tsFlush + (o.block kcp).interval =
      kcp.tsFlush + kcp.interval + o.clock := add_shift _ _ _
  have hlate : (o.block kcp).current + (o.block kcp).interval =
      kcp.current + kcp.interval + o.clock := add_shift _ _ _
  unfold timerAdvance
  rw [hnext, hlate, block_current, itimediff_add]
  split <;> rfl

theorem updateTimer_shift (kcp : IKCPCB) (current : UInt32) :
    updateTimer (o.block kcp) (current + o.clock) =
      (o.block (updateTimer kcp current).1, (updateTimer kcp current).2) := by
  have hslap : itimediff (o.block (timerStart kcp current)).current
      (o.block (timerStart kcp current)).tsFlush =
      itimediff (timerStart kcp current).current (timerStart kcp current).tsFlush :=
    itimediff_add _ _ _
  rw [updateTimer_steps, updateTimer_steps, timerStart_shift, hslap, timerReset_shift,
    timerAdvance_shift]
  simp only [timerLost_shift]
  split_ifs <;> rfl

/-! ## The probe timer -/

theorem probeTimer_shift {kcp : IKCPCB} (hwait : kcp.probeWait ≤ ikcpProbeLimit) :
    probeTimer (o.block kcp) = o.block (probeTimer kcp) := by
  have hrmt : (o.block kcp).rmtWnd = kcp.rmtWnd := rfl
  have hpw : (o.block kcp).probeWait = kcp.probeWait := rfl
  have hinit : ikcpProbeInit ≠ 0 := by decide
  have hnext := nextProbeWait_ne_zero hwait
  unfold probeTimer
  rw [hrmt, hpw]
  by_cases hclosed : kcp.rmtWnd = 0
  · rw [if_pos hclosed, if_pos hclosed]
    by_cases hfresh : kcp.probeWait = 0
    · rw [if_pos hfresh, if_pos hfresh]
      simp only [block, hinit, if_false, add_shift kcp.current]
    · have hdue : itimediff (o.block kcp).current (o.block kcp).tsProbe =
          itimediff kcp.current kcp.tsProbe := by
        have hts : (o.block kcp).tsProbe = kcp.tsProbe + o.clock := if_neg hfresh
        rw [hts, block_current, itimediff_add]
      rw [if_neg hfresh, if_neg hfresh, hdue]
      split
      · unfold nextProbeWait at hnext
        simp only [block, hnext, if_false, add_shift kcp.current]
      · rfl
  · rw [if_neg hclosed, if_neg hclosed]
    rfl

/-! ## The window -/

theorem openWindow_shift (kcp : IKCPCB) (wnd limit sndNxt : UInt32) (queue : List IKCPSEG) :
    openWindow (o.block kcp) wnd (limit + o.snd) (sndNxt + o.snd) queue =
      ((openWindow kcp wnd limit sndNxt queue).1.map o.own,
        (openWindow kcp wnd limit sndNxt queue).2) := by
  induction queue generalizing sndNxt with
  | nil => rfl
  | cons newseg queue ih =>
      have hnext : sndNxt + o.snd + 1 = sndNxt + 1 + o.snd := add_shift sndNxt o.snd 1
      simp only [openWindow, itimediff_add, hnext, ih]
      split <;> rfl

theorem moveSndQueue_shift (kcp : IKCPCB) (wnd cwnd : UInt32) :
    moveSndQueue (o.block kcp) wnd cwnd = o.block (moveSndQueue kcp wnd cwnd) := by
  have hopened := openWindow_shift o kcp wnd (kcp.sndUna + cwnd) kcp.sndNxt kcp.sndQueue
  have hqueue : (o.block kcp).sndQueue = kcp.sndQueue := rfl
  unfold moveSndQueue
  dsimp only
  rw [block_sndUna, block_sndNxt, add_shift kcp.sndUna, hqueue, hopened]
  unfold block
  simp only [List.length_map, List.map_append]
  rw [add_shift kcp.sndNxt o.snd]

theorem flushProbed_shift {kcp : IKCPCB} (hwait : kcp.probeWait ≤ ikcpProbeLimit) :
    flushProbed (o.block kcp) = o.block (flushProbed kcp) :=
  @probeTimer_shift o { kcp with acklist := [] } hwait

theorem flushOpened_shift {kcp : IKCPCB} (hwait : kcp.probeWait ≤ ikcpProbeLimit) :
    flushOpened (o.block kcp) = o.block (flushOpened kcp) := by
  unfold flushOpened
  rw [flushProbed_shift o hwait]
  exact moveSndQueue_shift o { flushProbed kcp with probe := 0 } _ _

/-! ## The data loop -/

theorem sendReason_shift (kcp : IKCPCB) (seg : IKCPSEG) :
    sendReason (o.block kcp) (o.own seg) = sendReason kcp seg := by
  have hdue : itimediff (o.block kcp).current (o.own seg).resendts =
      itimediff kcp.current seg.resendts := itimediff_add _ _ _
  unfold sendReason
  rw [hdue]
  rfl

theorem stampSegment_shift (kcp : IKCPCB) (wnd : UInt32) (seg : IKCPSEG) :
    stampSegment (o.block kcp) wnd (o.own seg) = o.own (stampSegment kcp wnd seg) := by
  unfold stampSegment
  rw [sendReason_shift]
  cases sendReason kcp seg with
  | idle => rfl
  | first =>
      unfold own
      simp only [block_current, add_shift]
      rfl
  | timeout =>
      have hbackoff : backoff (o.block kcp) (o.own seg) = backoff kcp seg := rfl
      rw [hbackoff]
      unfold own
      simp only [block_current, add_shift]
      rfl
  | fast =>
      unfold own
      simp only [block_current, add_shift]
      rfl

/-- Two data loops that differ by the shift, and in what they have written. -/
structure Looped (st st' : DataLoop) : Prop where
  done : st'.done = st.done.map o.own
  xmit : st'.xmit = st.xmit
  state : st'.state = st.state
  change : st'.change = st.change
  lost : st'.lost = st.lost

theorem Looped.flushSegment {st st' : DataLoop} (h : o.Looped st st') (kcp : IKCPCB)
    (wnd : UInt32) (seg : IKCPSEG) :
    o.Looped (flushSegment kcp wnd st seg)
      (flushSegment (o.block kcp) wnd st' (o.own seg)) := by
  obtain ⟨hdone, hxmit, hstate, hchange, hlost⟩ := h
  have hdead : (o.block kcp).deadLink = kcp.deadLink := rfl
  unfold Ikcp.flushSegment
  dsimp only
  rw [sendReason_shift, stampSegment_shift, hdead]
  have hsent : (o.own (stampSegment kcp wnd seg)).xmit = (stampSegment kcp wnd seg).xmit := rfl
  split
  · exact ⟨by simp [hdone], hxmit, hstate, hchange, hlost⟩
  · refine ⟨by simp [hdone], ?_, ?_, ?_, ?_⟩
    · simp only [hxmit]
    · simp only [hstate, hsent]
    · simp only [hchange]
    · simp only [hlost]

theorem Looped.flushData {st st' : DataLoop} (h : o.Looped st st') (kcp : IKCPCB) (wnd : UInt32)
    (buf : List IKCPSEG) :
    o.Looped (buf.foldl (Ikcp.flushSegment kcp wnd) st)
      ((buf.map o.own).foldl (Ikcp.flushSegment (o.block kcp) wnd) st') := by
  induction buf generalizing st st' with
  | nil => exact h
  | cons seg buf ih => exact ih (h.flushSegment o kcp wnd seg)

theorem flushLoop_shift {kcp : IKCPCB} (hwait : kcp.probeWait ≤ ikcpProbeLimit) :
    o.Looped (flushLoop kcp) (flushLoop (o.block kcp)) := by
  unfold flushLoop
  rw [flushOpened_shift o hwait]
  have hstart : o.Looped
      { out := (flushWriter kcp).2
        xmit := (flushOpened kcp).xmit
        state := (flushOpened kcp).state }
      { out := (flushWriter (o.block kcp)).2
        xmit := (flushOpened kcp).xmit
        state := (flushOpened kcp).state } := ⟨rfl, rfl, rfl, rfl, rfl⟩
  exact hstart.flushData o (flushOpened kcp) (ikcpWndUnused kcp) (flushOpened kcp).sndBuf

/-! ## A whole flush -/

theorem flushCongestion_shift (kcp : IKCPCB) (change : ℕ) (lost : Bool) (cwnd resent : UInt32) :
    flushCongestion (o.block kcp) change lost cwnd resent =
      o.block (flushCongestion kcp change lost cwnd resent) := by
  have hflight : (o.block kcp).sndNxt - (o.block kcp).sndUna = kcp.sndNxt - kcp.sndUna :=
    Serial.sub_add_add _ _ _
  have hcwnd : (o.block kcp).cwnd = kcp.cwnd := rfl
  unfold flushCongestion
  rw [hflight]
  dsimp only
  cases lost <;> by_cases hchange : change = 0 <;>
    simp only [hchange, hcwnd, ne_eq, not_true, not_false_eq_true, if_true, if_false,
      Bool.false_eq_true]
  all_goals
    split <;> rfl

theorem ikcpFlush_shift {kcp : IKCPCB} (hwait : kcp.probeWait ≤ ikcpProbeLimit) :
    (ikcpFlush (o.block kcp)).1 = o.block (ikcpFlush kcp).1 := by
  by_cases hupdated : kcp.updated = 0
  · have hstill : (ikcpFlush kcp).1 = kcp := by
      unfold ikcpFlush
      rw [if_pos hupdated]
    unfold ikcpFlush at hstill ⊢
    rw [hstill, if_pos (show (o.block kcp).updated = 0 from hupdated)]
  · obtain ⟨hdone, hxmit, hstate, hchange, hlost⟩ := flushLoop_shift o hwait
    rw [ikcpFlush_eq hupdated, ikcpFlush_eq (show (o.block kcp).updated ≠ 0 from hupdated)]
    dsimp only
    rw [flushOpened_shift o hwait, flushProbed_shift o hwait, hdone, hxmit, hstate, hchange, hlost,
      ← flushCongestion_shift]
    rfl

/-! ## The emitted segments -/

/-- An emitted segment under the shift. Probes take over the `sn` of the last
acknowledgement, or none: it moves by `c`. -/
def emitted (c : UInt32) (seg : IKCPSEG) : IKCPSEG :=
  if seg.cmd = ikcpCmdPush then o.own seg
  else if seg.cmd = ikcpCmdAck then { seg with sn := seg.sn + o.rcv, una := seg.una + o.rcv }
  else { seg with sn := seg.sn + c, una := seg.una + o.rcv }

theorem emitted_data (c : UInt32) (seg : IKCPSEG) : (o.emitted c seg).data = seg.data := by
  unfold emitted
  split_ifs <;> rfl

theorem emitted_push {c : UInt32} {seg : IKCPSEG} (h : seg.cmd = ikcpCmdPush) :
    o.emitted c seg = o.own seg := if_pos h

theorem ackSegments_shift (c : UInt32) (kcp : IKCPCB) :
    ackSegments (flushSeg (o.block kcp)) (kcp.acklist.map o.ack) =
      (ackSegments (flushSeg kcp) kcp.acklist).map (o.emitted c) := by
  have hpush : ikcpCmdAck ≠ ikcpCmdPush := by decide
  unfold ackSegments
  rw [List.map_map, List.map_map]
  apply List.map_congr_left
  intro ack _
  simp only [Function.comp, emitted, flushSeg, hpush, if_false, if_true]
  rfl

/-- The template after the acknowledgements, shifted from whichever it was before. -/
theorem lastAck_shift (seg : IKCPSEG) (c : UInt32) (acks : List (UInt32 × UInt32)) :
    ∃ c', lastAck { seg with sn := seg.sn + c, una := seg.una + o.rcv } (acks.map o.ack) =
      { lastAck seg acks with
        sn := (lastAck seg acks).sn + c'
        una := (lastAck seg acks).una + o.rcv } := by
  induction acks generalizing seg c with
  | nil => exact ⟨c, rfl⟩
  | cons ack acks ih => exact ih { seg with sn := ack.1, ts := ack.2 } o.rcv

theorem probeSegments_shift (c probe bit : UInt32) {cmd : UInt32} (seg : IKCPSEG)
    (hpush : cmd ≠ ikcpCmdPush) (hack : cmd ≠ ikcpCmdAck) :
    probeSegments probe bit cmd { seg with sn := seg.sn + c, una := seg.una + o.rcv } =
      (probeSegments probe bit cmd seg).map (o.emitted c) := by
  unfold probeSegments
  split
  · simp only [List.map_cons, List.map_nil, emitted, hpush, hack, if_false]
  · rfl

theorem dueSegments_shift (kcp : IKCPCB) (wnd : UInt32) (buf : List IKCPSEG) :
    dueSegments (o.block kcp) wnd (buf.map o.own) = (dueSegments kcp wnd buf).map o.own := by
  unfold dueSegments
  rw [List.filter_map, List.map_map, List.map_map]
  have hreason : ((fun segment => decide (sendReason (o.block kcp) segment ≠ SendReason.idle)) ∘
      o.own) = fun segment => decide (sendReason kcp segment ≠ SendReason.idle) := by
    funext seg
    simp only [Function.comp, sendReason_shift]
  rw [hreason]
  apply List.map_congr_left
  intro seg _
  exact stampSegment_shift o kcp wnd seg

/-- A flush of the shifted block emits the shifted segments. -/
theorem flushSegments_shift {kcp : IKCPCB} (hwait : kcp.probeWait ≤ ikcpProbeLimit)
    (hpush : ∀ seg ∈ (flushOpened kcp).sndBuf, seg.cmd = ikcpCmdPush) :
    ∃ c, flushSegments (o.block kcp) = (flushSegments kcp).map (o.emitted c) := by
  have hzero : (flushSeg kcp).sn + 0 = (flushSeg kcp).sn := UInt32.add_zero _
  obtain ⟨c, hlast⟩ := lastAck_shift o (flushSeg kcp) 0 kcp.acklist
  rw [hzero] at hlast
  refine ⟨c, ?_⟩
  have hlast' : lastAck (flushSeg (o.block kcp)) (kcp.acklist.map o.ack) = _ := hlast
  have hprobe : (o.block (flushProbed kcp)).probe = (flushProbed kcp).probe := rfl
  have hunused : ikcpWndUnused (o.block kcp) = ikcpWndUnused kcp := rfl
  have hacks : (o.block kcp).acklist = kcp.acklist.map o.ack := rfl
  have hdue : (dueSegments (flushOpened kcp) (ikcpWndUnused kcp)
      (flushOpened kcp).sndBuf).map o.own =
      (dueSegments (flushOpened kcp) (ikcpWndUnused kcp) (flushOpened kcp).sndBuf).map
        (o.emitted c) := by
    apply List.map_congr_left
    intro seg hseg
    obtain ⟨s, hs, -, rfl⟩ := mem_dueSegments hseg
    have hcore := stampSegment_core (flushOpened kcp) (ikcpWndUnused kcp) s
    have hcmd : (stampSegment (flushOpened kcp) (ikcpWndUnused kcp) s).cmd = s.cmd := by
      have hcores := congrArg IKCPSEG.cmd hcore
      exact hcores
    exact (o.emitted_push (hcmd.trans (hpush s hs))).symm
  unfold flushSegments
  rw [flushProbed_shift o hwait, flushOpened_shift o hwait, hacks, ackSegments_shift o c, hlast',
    hprobe, hunused, block_sndBuf, dueSegments_shift, hdue,
    probeSegments_shift o c _ _ _ (by decide) (by decide),
    probeSegments_shift o c _ _ _ (by decide) (by decide)]
  simp only [List.map_append]

end Offsets

end UdpKcp.Ikcp
