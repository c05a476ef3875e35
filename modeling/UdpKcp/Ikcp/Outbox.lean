import UdpKcp.Ikcp.ShiftFlush

/-! # The part of a block that only sending looks at

`ikcp_input`, `ikcp_recv` and the update timer never look at `snd_queue` or at the
stream flag, and `ikcp_flush` looks at no more of the queue than it opens. So one
block may stand for another that holds more data back.
-/

namespace UdpKcp.Ikcp

open ByteCodec (Bytes)

/-- What waits for the send window, and how it was cut. -/
structure Outbox where
  queue : List IKCPSEG
  count : Nat
  stream : Int

namespace Outbox

/-- The block with this outbox in place of its own. -/
def into (o : Outbox) (kcp : IKCPCB) : IKCPCB :=
  { kcp with sndQueue := o.queue, nsndQue := o.count, stream := o.stream }

/-- The outbox that a block has. -/
def own (kcp : IKCPCB) : Outbox where
  queue := kcp.sndQueue
  count := kcp.nsndQue
  stream := kcp.stream

/-- The outbox of a block that is not in stream mode and has nothing to send. -/
def empty : Outbox where
  queue := []
  count := 0
  stream := 0

/-- The state of the input loop with this outbox in place. -/
def state (o : Outbox) (st : InputState) : InputState :=
  { st with kcp := o.into st.kcp }

@[simp] theorem into_into (o o' : Outbox) (kcp : IKCPCB) : o.into (o'.into kcp) = o.into kcp := rfl

@[simp] theorem own_into (kcp : IKCPCB) : (own kcp).into kcp = kcp := rfl

variable (o : Outbox) (kcp : IKCPCB)

/-! ## ikcp_input -/

theorem shrinkBuf_into : ikcpShrinkBuf (o.into kcp) = o.into (ikcpShrinkBuf kcp) := by
  have hbuf : (o.into kcp).sndBuf = kcp.sndBuf := rfl
  unfold ikcpShrinkBuf
  rw [hbuf]
  cases kcp.sndBuf <;> rfl

theorem parseAck_into (sn : UInt32) :
    ikcpParseAck (o.into kcp) sn = o.into (ikcpParseAck kcp sn) := by
  unfold ikcpParseAck into
  dsimp only
  split <;> rfl

theorem parseFastack_into (sn ts : UInt32) :
    ikcpParseFastack (o.into kcp) sn ts = o.into (ikcpParseFastack kcp sn ts) := by
  unfold ikcpParseFastack into
  dsimp only
  split <;> rfl

theorem updateAck_into (rtt : Int) :
    ikcpUpdateAck (o.into kcp) rtt = o.into (ikcpUpdateAck kcp rtt) := by
  unfold ikcpUpdateAck into
  dsimp only
  split <;> rfl

theorem inputAck_into (st : InputState) (h : SegHeader) :
    inputAck (o.state st) h = o.state (inputAck st h) := by
  have hrtt : (if itimediff st.kcp.current h.ts ≥ 0 then
      ikcpUpdateAck (o.into st.kcp) (itimediff st.kcp.current h.ts) else o.into st.kcp) =
      o.into (if itimediff st.kcp.current h.ts ≥ 0 then
        ikcpUpdateAck st.kcp (itimediff st.kcp.current h.ts) else st.kcp) := by
    split
    · exact o.updateAck_into st.kcp _
    · rfl
  have hcurrent : (o.state st).kcp.current = st.kcp.current := rfl
  have hkcp : (o.state st).kcp = o.into st.kcp := rfl
  unfold inputAck
  dsimp only
  rw [hcurrent, hkcp, hrtt, parseAck_into, shrinkBuf_into]
  unfold state
  dsimp only
  split <;> rfl

theorem parseData_into (newseg : IKCPSEG) :
    ikcpParseData (o.into kcp) newseg = o.into (ikcpParseData kcp newseg) := by
  have hbuf : (o.into kcp).rcvBuf = kcp.rcvBuf := rfl
  have hnxt : (o.into kcp).rcvNxt = kcp.rcvNxt := rfl
  have hwnd : (o.into kcp).rcvWnd = kcp.rcvWnd := rfl
  unfold ikcpParseData
  rw [hnxt, hwnd, hbuf]
  split
  · rfl
  · cases insertFromTail newseg kcp.rcvBuf.reverse <;> rfl

theorem inputPush_into (h : SegHeader) (payload : Bytes) :
    inputPush (o.into kcp) h payload = o.into (inputPush kcp h payload) := by
  have hpush : ikcpAckPush (o.into kcp) h.sn h.ts = o.into (ikcpAckPush kcp h.sn h.ts) := rfl
  have hnxt : (o.into kcp).rcvNxt = kcp.rcvNxt := rfl
  have hwnd : (o.into kcp).rcvWnd = kcp.rcvWnd := rfl
  have hpushed : (o.into (ikcpAckPush kcp h.sn h.ts)).rcvNxt = (ikcpAckPush kcp h.sn h.ts).rcvNxt :=
    rfl
  unfold inputPush
  dsimp only
  rw [hnxt, hwnd, hpush, hpushed, parseData_into]
  split
  · split <;> rfl
  · rfl

theorem inputCommon_into (h : SegHeader) :
    inputCommon (o.into kcp) h = o.into (inputCommon kcp h) := by
  unfold inputCommon
  rw [← shrinkBuf_into]
  rfl

theorem inputSegment_into (st : InputState) (h : SegHeader) (payload : Bytes) :
    inputSegment (o.state st) h payload = o.state (inputSegment st h payload) := by
  have hkcp : (o.state st).kcp = o.into st.kcp := rfl
  have hack := o.inputAck_into { st with kcp := inputCommon st.kcp h } h
  unfold inputSegment
  dsimp only
  rw [hkcp, inputCommon_into, inputPush_into]
  split
  · exact hack
  · split
    · rfl
    · split <;> rfl

theorem inputLoop_into (fuel : Nat) (st : InputState) (data : Bytes) :
    inputLoop fuel (o.state st) data =
      (o.state (inputLoop fuel st data).1, (inputLoop fuel st data).2) := by
  induction fuel generalizing st data with
  | zero => rfl
  | succ fuel ih =>
      have hconv : (o.state st).kcp.conv = st.kcp.conv := rfl
      unfold inputLoop
      dsimp only
      rw [hconv, inputSegment_into, ih]
      split_ifs <;> rfl

theorem growCwnd_into : growCwnd (o.into kcp) = o.into (growCwnd kcp) := by
  unfold growCwnd into
  dsimp only
  split_ifs <;> rfl

theorem inputCwnd_into (prevUna : UInt32) :
    inputCwnd (o.into kcp) prevUna = o.into (inputCwnd kcp prevUna) := by
  have hgrown : ∀ k : IKCPCB,
      (if (o.into k).cwnd > (o.into k).rmtWnd then
          { o.into k with cwnd := (o.into k).rmtWnd, incr := (o.into k).rmtWnd * (o.into k).mss }
        else o.into k) =
        o.into (if k.cwnd > k.rmtWnd then { k with cwnd := k.rmtWnd, incr := k.rmtWnd * k.mss }
          else k) := by
    intro k
    unfold into
    dsimp only
    split <;> rfl
  have huna : (o.into kcp).sndUna = kcp.sndUna := rfl
  have hcwnd : (o.into kcp).cwnd = kcp.cwnd := rfl
  have hrmt : (o.into kcp).rmtWnd = kcp.rmtWnd := rfl
  unfold inputCwnd
  dsimp only
  rw [growCwnd_into, hgrown, huna, hcwnd, hrmt]
  split
  · split <;> rfl
  · rfl

theorem inputTail_into (st : InputState) (prevUna : UInt32) :
    inputTail (o.state st) prevUna = o.into (inputTail st prevUna) := by
  have hflag : (o.state st).flag = st.flag := rfl
  have hfast : (if st.flag then
      ikcpParseFastack (o.state st).kcp (o.state st).maxack (o.state st).latestTs
      else (o.state st).kcp) =
      o.into (if st.flag then ikcpParseFastack st.kcp st.maxack st.latestTs else st.kcp) := by
    split
    · exact o.parseFastack_into st.kcp st.maxack st.latestTs
    · rfl
  unfold inputTail
  rw [hflag, hfast]
  exact o.inputCwnd_into _ prevUna

theorem ikcpInput_into (data : Bytes) :
    ikcpInput (o.into kcp) data = (o.into (ikcpInput kcp data).1, (ikcpInput kcp data).2) := by
  have hloop := o.inputLoop_into data.length { kcp := kcp } data
  unfold ikcpInput
  change inputLoop data.length { kcp := o.into kcp } data = _ at hloop
  rw [hloop]
  split
  · rfl
  · cases hrun : inputLoop data.length { kcp := kcp } data with
    | mk st code =>
        cases code with
        | none => exact congrArg (·, 0) (o.inputTail_into st kcp.sndUna)
        | some code => rfl

/-! ## ikcp_recv -/

theorem peeksize_into : ikcpPeeksize (o.into kcp) = ikcpPeeksize kcp := rfl

theorem takeMessage_into : takeMessage (o.into kcp) = o.into (takeMessage kcp) := rfl

theorem ikcpRecv_into {len : Int} (hlen : 0 ≤ len) :
    ikcpRecv (o.into kcp) len =
      (ikcpRecv kcp len).map fun res => (res.1, o.into res.2) := by
  have hqueue : (o.into kcp).rcvQueue = kcp.rcvQueue := rfl
  rw [ikcpRecv_eq hlen, ikcpRecv_eq hlen, hqueue, peeksize_into, takeMessage_into]
  split_ifs <;> rfl

/-! ## ikcp_update -/

theorem timerStart_into (current : UInt32) :
    timerStart (o.into kcp) current = o.into (timerStart kcp current) := by
  unfold timerStart into
  dsimp only
  split <;> rfl

theorem timerLost_into : timerLost (o.into kcp) ↔ timerLost kcp := Iff.rfl

theorem timerReset_into : timerReset (o.into kcp) = o.into (timerReset kcp) := by
  unfold timerReset
  simp only [timerLost_into]
  split <;> rfl

theorem timerAdvance_into : timerAdvance (o.into kcp) = o.into (timerAdvance kcp) := rfl

theorem updateTimer_into (current : UInt32) :
    updateTimer (o.into kcp) current =
      (o.into (updateTimer kcp current).1, (updateTimer kcp current).2) := by
  have hcurrent :
      (o.into (timerStart kcp current)).current = (timerStart kcp current).current := rfl
  have hflush : (o.into (timerStart kcp current)).tsFlush = (timerStart kcp current).tsFlush := rfl
  rw [updateTimer_steps, updateTimer_steps, timerStart_into, hcurrent, hflush, timerReset_into,
    timerAdvance_into]
  simp only [timerLost_into]
  split_ifs <;> rfl

theorem flushProbed_into : flushProbed (o.into kcp) = o.into (flushProbed kcp) := by
  unfold flushProbed probeTimer into
  dsimp only
  split_ifs <;> rfl

theorem flushWriter_into : flushWriter (o.into kcp) = flushWriter kcp := by
  unfold flushWriter
  rw [flushProbed_into]
  rfl

theorem flushCongestion_into (change : Nat) (lost : Bool) (cwnd resent : UInt32) :
    flushCongestion (o.into kcp) change lost cwnd resent =
      o.into (flushCongestion kcp change lost cwnd resent) := by
  unfold flushCongestion into
  dsimp only
  split_ifs <;> rfl

/-- The first `k` segments of the queue, cut for themselves. -/
def front (k : ℕ) : Outbox where
  queue := o.queue.take k
  count := k
  stream := 0

/-- What is left when `k` segments have gone. -/
def back (k : ℕ) : Outbox where
  queue := o.queue.drop k
  count := o.count - k
  stream := o.stream

theorem openWindow_into (wnd limit sndNxt : UInt32) (queue : List IKCPSEG) :
    openWindow (o.into kcp) wnd limit sndNxt queue = openWindow kcp wnd limit sndNxt queue := by
  induction queue generalizing sndNxt with
  | nil => rfl
  | cons newseg queue ih =>
      unfold openWindow
      rw [ih]
      rfl

/-- Opening the window empties a queue that ends where the window does. -/
theorem openWindow_front (wnd limit sndNxt : UInt32) (queue : List IKCPSEG) :
    ∃ k ≤ queue.length, (openWindow kcp wnd limit sndNxt queue).1.length = k ∧
      (openWindow kcp wnd limit sndNxt queue).2 = queue.drop k ∧
      openWindow kcp wnd limit sndNxt (queue.take k) =
        ((openWindow kcp wnd limit sndNxt queue).1, []) := by
  induction queue generalizing sndNxt with
  | nil => exact ⟨0, Nat.le_refl 0, rfl, rfl, rfl⟩
  | cons newseg queue ih =>
      by_cases hroom : itimediff sndNxt limit < 0
      · obtain ⟨k, hle, hlen, hdrop, hfront⟩ := ih (sndNxt + 1)
        have hopen : openWindow kcp wnd limit sndNxt (newseg :: queue) =
            (openSegment kcp wnd sndNxt newseg ::
              (openWindow kcp wnd limit (sndNxt + 1) queue).1,
              (openWindow kcp wnd limit (sndNxt + 1) queue).2) := by
          rw [openWindow, if_pos hroom]
        rw [hopen]
        refine ⟨k + 1, Nat.succ_le_succ hle, congrArg Nat.succ hlen, hdrop, ?_⟩
        rw [List.take_succ_cons, openWindow, if_pos hroom, hfront]
      · have hstop : openWindow kcp wnd limit sndNxt (newseg :: queue) = ([], newseg :: queue) := by
          rw [openWindow, if_neg hroom]
        rw [hstop]
        exact ⟨0, Nat.zero_le _, rfl, rfl, rfl⟩

/-- What the window opens of a queue it would open of the front alone. -/
theorem moveSndQueue_into (wnd cwnd : UInt32) :
    ∃ k ≤ o.queue.length,
      moveSndQueue (o.into kcp) wnd cwnd =
        (o.back k).into (moveSndQueue ((o.front k).into kcp) wnd cwnd) ∧
      moveSndQueue ((o.front k).into kcp) wnd cwnd =
        empty.into (moveSndQueue ((o.front k).into kcp) wnd cwnd) := by
  obtain ⟨k, hle, hlen, hdrop, hfront⟩ :=
    openWindow_front kcp wnd (kcp.sndUna + cwnd) kcp.sndNxt o.queue
  have hopen : openWindow (o.into kcp) wnd ((o.into kcp).sndUna + cwnd) (o.into kcp).sndNxt
      (o.into kcp).sndQueue = openWindow kcp wnd (kcp.sndUna + cwnd) kcp.sndNxt o.queue :=
    o.openWindow_into kcp wnd _ _ _
  have hopen' : openWindow ((o.front k).into kcp) wnd (((o.front k).into kcp).sndUna + cwnd)
      ((o.front k).into kcp).sndNxt ((o.front k).into kcp).sndQueue =
        ((openWindow kcp wnd (kcp.sndUna + cwnd) kcp.sndNxt o.queue).1, []) := by
    rw [← hfront]
    exact (o.front k).openWindow_into kcp wnd _ _ _
  have hcount : (o.into kcp).nsndQue = o.count := rfl
  have hcount' : ((o.front k).into kcp).nsndQue = k := rfl
  refine ⟨k, hle, ?_, ?_⟩
  · unfold moveSndQueue
    dsimp only
    rw [hopen, hopen', hdrop, hlen, hcount]
    rfl
  · unfold moveSndQueue
    dsimp only
    rw [hopen', hlen, hcount', Nat.sub_self]
    rfl

theorem ikcpFlush_into :
    ∃ k ≤ o.queue.length,
      ikcpFlush (o.into kcp) =
        ((o.back k).into (ikcpFlush ((o.front k).into kcp)).1,
          (ikcpFlush ((o.front k).into kcp)).2) ∧
      (ikcpFlush ((o.front k).into kcp)).1 =
        empty.into (ikcpFlush ((o.front k).into kcp)).1 := by
  by_cases hupdated : kcp.updated = 0
  · have hidle : ∀ o : Outbox, ikcpFlush (o.into kcp) = (o.into kcp, []) := fun _ => if_pos hupdated
    refine ⟨0, Nat.zero_le _, ?_, ?_⟩
    · rw [hidle, hidle]
      rfl
    · rw [hidle]
      rfl
  · obtain ⟨k, hle, hwhole, hempty⟩ :=
      o.moveSndQueue_into { flushProbed kcp with probe := 0 } (ikcpWndUnused kcp)
        (flushCwnd { flushProbed kcp with probe := 0 })
    have hopened : ∀ o : Outbox, flushOpened (o.into kcp) =
        moveSndQueue (o.into { flushProbed kcp with probe := 0 }) (ikcpWndUnused kcp)
          (flushCwnd { flushProbed kcp with probe := 0 }) := by
      intro o
      unfold flushOpened
      rw [flushProbed_into]
      rfl
    have hback : flushOpened (o.into kcp) =
        (o.back k).into (flushOpened ((o.front k).into kcp)) := by
      rw [hopened, hopened, hwhole]
    have hfront : flushOpened ((o.front k).into kcp) =
        empty.into (flushOpened ((o.front k).into kcp)) := by
      rw [hopened, ← hempty]
    have hloop : flushLoop (o.into kcp) = flushLoop ((o.front k).into kcp) := by
      unfold flushLoop
      rw [hback, flushWriter_into, flushWriter_into]
      rfl
    have hcwnd : flushCwnd { flushProbed (o.into kcp) with probe := 0 } =
        flushCwnd { flushProbed ((o.front k).into kcp) with probe := 0 } := by
      rw [flushProbed_into, flushProbed_into]
      rfl
    have hresent : flushResent ((o.back k).into (flushOpened ((o.front k).into kcp))) =
        flushResent (flushOpened ((o.front k).into kcp)) := rfl
    have hflush := @ikcpFlush_eq (o.into kcp) hupdated
    have hflush' := @ikcpFlush_eq ((o.front k).into kcp) hupdated
    refine ⟨k, hle, ?_, ?_⟩
    · rw [hflush, hflush', hloop, hback, hcwnd, hresent]
      dsimp only
      rw [← flushCongestion_into]
      rfl
    · rw [hflush', hfront]
      dsimp only
      rw [← flushCongestion_into]
      rfl

/-- An update with this outbox is an update with no more of it than is opened, the rest
held back. -/
theorem ikcpUpdate_into (current : UInt32) :
    ∃ k ≤ o.queue.length,
      ikcpUpdate (o.into kcp) current =
        ((o.back k).into (ikcpUpdate ((o.front k).into kcp) current).1,
          (ikcpUpdate ((o.front k).into kcp) current).2) ∧
      (ikcpUpdate ((o.front k).into kcp) current).1 =
        empty.into (ikcpUpdate ((o.front k).into kcp) current).1 := by
  have hupdate : ∀ o : Outbox, ikcpUpdate (o.into kcp) current =
      if (updateTimer kcp current).2 then ikcpFlush (o.into (updateTimer kcp current).1)
      else (o.into (updateTimer kcp current).1, []) := by
    intro o
    unfold ikcpUpdate
    rw [updateTimer_into]
  by_cases hdue : (updateTimer kcp current).2 = true
  · obtain ⟨k, hle, hwhole, hempty⟩ := o.ikcpFlush_into (updateTimer kcp current).1
    refine ⟨k, hle, ?_, ?_⟩
    · rw [hupdate, hupdate, if_pos hdue, if_pos hdue, hwhole]
    · rw [hupdate, if_pos hdue]
      exact hempty
  · generalize (updateTimer kcp current).1 = timed at hupdate
    refine ⟨0, Nat.zero_le _, ?_, ?_⟩
    · rw [hupdate, hupdate, if_neg hdue, if_neg hdue]
      rfl
    · rw [hupdate, if_neg hdue]
      rfl

end Outbox

end UdpKcp.Ikcp
