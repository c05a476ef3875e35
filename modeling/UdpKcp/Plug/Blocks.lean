import UdpKcp.Ikcp.Outgoing
import UdpKcp.Plug.KcpPlug
import UdpKcp.Library.Framing

/-! # Control blocks of the plug

Blocks built by `NewKcpPlugControlBlock` keep its settings for ever, and every
segment they queue was cut by `ikcp_send` under those settings. Both facts hold
whatever is sent, whatever the clocks say and whatever the network delivers.
-/

namespace UdpKcp.Plug

open ByteCodec (Bytes)
open Ikcp

/-- The largest payload of a segment: the plug's MTU less the header. -/
def plugMss : Nat := maxUdpMtu - ikcpOverhead

def plugWnd : Nat := 128

def plugConfig (conv : UInt32) : Config := (newKcpPlugControlBlock conv).config

/-! ## Rules for the plug's operations -/

/-- What a successful `ikcp_recv` keeps, the drain loop keeps. -/
theorem drainLoop_keeps {P : IKCPCB → Prop}
    (hrecv : ∀ kcp kcp' len bytes, 0 ≤ len → ikcpRecv kcp len = .ok (bytes, kcp') →
      P kcp → P kcp')
    (fuel : ℕ) {pcb : IKCPCB} (maxlen : Int) (hP : P pcb) :
    P (drainLoop fuel pcb maxlen).block := by
  induction fuel generalizing pcb maxlen with
  | zero => exact hP
  | succ fuel ih =>
      unfold drainLoop
      split
      · rename_i hpos
        cases hr : ikcpRecv pcb maxlen with
        | error code => exact hP
        | ok result => exact ih _ (hrecv _ _ _ _ (by omega) hr hP)
      · exact hP

theorem drain_keeps {P : IKCPCB → Prop}
    (hrecv : ∀ kcp kcp' len bytes, 0 ≤ len → ikcpRecv kcp len = .ok (bytes, kcp') →
      P kcp → P kcp')
    {pcb : IKCPCB} (maxlen : Int) (hP : P pcb) : P (drain pcb maxlen).block :=
  drainLoop_keeps hrecv _ maxlen hP

/-- What `ikcp_input` keeps, the socket loop of `KcpRecv` keeps. -/
theorem kcpRecvInput_keeps {P : IKCPCB → Prop}
    (hinput : ∀ kcp data, P kcp → P (ikcpInput kcp data).1)
    {block : IKCPCB} (input : Option Bytes) (soc : Socket) (hP : P block) :
    P (kcpRecvInput block input soc).1 := by
  have hloop : ∀ soc pcb, P pcb → P (recvLoop pcb soc).1 := by
    intro soc
    induction soc with
    | nil => exact fun pcb h => h
    | cons read soc ih =>
        intro pcb h
        cases read with
        | none => exact h
        | some d =>
            unfold recvLoop
            dsimp only
            split
            · exact ih _ (hinput _ _ h)
            · exact h
  apply hloop
  split
  · split
    · exact hinput _ _ hP
    · exact hP
  · exact hP

/-- What `ikcp_input` and a successful `ikcp_recv` keep, `KcpRecv` keeps. -/
theorem kcpRecv_keeps {P : IKCPCB → Prop}
    (hinput : ∀ kcp data, P kcp → P (ikcpInput kcp data).1)
    (hrecv : ∀ kcp kcp' len bytes, 0 ≤ len → ikcpRecv kcp len = .ok (bytes, kcp') →
      P kcp → P kcp')
    {block : IKCPCB} (input : Option Bytes) (soc : Socket) (maxlen : Int) (hP : P block) :
    P (kcpRecv block input soc maxlen).block :=
  drain_keeps hrecv maxlen (kcpRecvInput_keeps hinput input soc hP)

theorem kcpRecv_sendKept (block : IKCPCB) (input : Option Bytes) (soc : Socket) (maxlen : Int) :
    SendKept block (kcpRecv block input soc maxlen).block :=
  kcpRecv_keeps (fun kcp data hk => hk.trans (SendKept.input kcp data))
    (fun _ _ _ _ hlen hr hk => hk.trans (SendKept.recv hlen hr)) input soc maxlen
    (SendKept.refl block)

/-- The timer writes the clock, the `updated` flag and the next flush time. -/
theorem updateTimer_eq (kcp : IKCPCB) (current : UInt32) :
    (updateTimer kcp current).1 =
      { kcp with
        current := current
        updated := (updateTimer kcp current).1.updated
        tsFlush := (updateTimer kcp current).1.tsFlush } := by
  unfold updateTimer
  dsimp only
  split_ifs <;> rfl

theorem updateTimer_updated (kcp : IKCPCB) (current : UInt32) :
    (updateTimer kcp current).1.updated ≠ 0 := by
  unfold updateTimer
  dsimp only
  by_cases hfirst : kcp.updated = 0
  · have hone : (1 : UInt32) ≠ 0 := by decide
    rw [if_pos hfirst]
    split_ifs <;> exact hone
  · rw [if_neg hfirst]
    split_ifs <;> exact hfirst

theorem ikcpUpdate_due {kcp : IKCPCB} {current : UInt32}
    (h : (updateTimer kcp current).2 = true) :
    ikcpUpdate kcp current = ikcpFlush (updateTimer kcp current).1 := if_pos h

theorem ikcpUpdate_idle {kcp : IKCPCB} {current : UInt32}
    (h : (updateTimer kcp current).2 = false) :
    ikcpUpdate kcp current = ((updateTimer kcp current).1, []) := by
  unfold ikcpUpdate
  exact if_neg (by simp [h])

/-- What the timer leaves and a flush from there leaves holds after `KcpUpdate`. -/
theorem kcpUpdate_of {P : IKCPCB → Prop} {block : IKCPCB} {dlt : UInt32}
    (htimed : P (updateTimer block dlt).1) (hflush : P (ikcpFlush (updateTimer block dlt).1).1) :
    P (kcpUpdate block dlt).1 := by
  unfold kcpUpdate
  cases hdue : (updateTimer block dlt).2 with
  | false =>
      rw [ikcpUpdate_idle hdue]
      exact htimed
  | true =>
      rw [ikcpUpdate_due hdue]
      exact hflush

/-! ## Settings -/

theorem flushProbed_config (kcp : IKCPCB) : (flushProbed kcp).config = kcp.config := by
  rw [flushProbed_eq]
  rfl

theorem flushOpened_config (kcp : IKCPCB) : (flushOpened kcp).config = kcp.config :=
  flushProbed_config kcp

theorem ikcpFlush_config {kcp : IKCPCB} (h : kcp.updated ≠ 0) :
    (ikcpFlush kcp).1.config = kcp.config := by
  rw [ikcpFlush_block h]
  exact flushOpened_config kcp

theorem updateTimer_config (kcp : IKCPCB) (current : UInt32) :
    (updateTimer kcp current).1.config = kcp.config := by
  rw [updateTimer_eq]
  rfl

@[simp] theorem kcpUpdate_config (block : IKCPCB) (dlt : UInt32) :
    (kcpUpdate block dlt).1.config = block.config := by
  have htimed := updateTimer_config block dlt
  have hflush := ikcpFlush_config (updateTimer_updated block dlt)
  exact @kcpUpdate_of (fun kcp => kcp.config = block.config) _ _ htimed (hflush.trans htimed)

@[simp] theorem kcpRecv_config (block : IKCPCB) (input : Option Bytes) (soc : Socket)
    (maxlen : Int) : (kcpRecv block input soc maxlen).block.config = block.config :=
  kcpRecv_keeps (P := fun k => k.config = block.config)
    (fun kcp data h => by rw [ikcpInput_config, h])
    (fun _ _ _ _ hlen hr h => by rw [ikcpRecv_config hlen hr, h]) input soc maxlen rfl

/-- Sending writes the send queue and its count only. -/
theorem kcpSend_eq (block : IKCPCB) (data : Bytes) (len : Int) :
    (kcpSend block data len).1 =
      { block with
        sndQueue := (kcpSend block data len).1.sndQueue
        nsndQue := (kcpSend block data len).1.nsndQue } := by
  cases hsend : ikcpSend block data len with
  | error code => simp only [kcpSend, hsend]
  | ok block' =>
      simp only [kcpSend, hsend]
      unfold ikcpSend at hsend
      dsimp only at hsend
      split_ifs at hsend
      all_goals
        cases hsend
        rfl

@[simp] theorem kcpSend_config (block : IKCPCB) (data : Bytes) (len : Int) :
    (kcpSend block data len).1.config = block.config := by
  rw [kcpSend_eq]
  rfl

/-! ## The send queue and buffer -/

/-- A flush moves segments from the head of the queue to the end of the buffer. -/
theorem flushOpened_moved (kcp : IKCPCB) :
    ∃ opened, (flushOpened kcp).sndBuf = kcp.sndBuf ++ opened ∧
      (flushOpened kcp).sndQueue = kcp.sndQueue.drop opened.length ∧
      opened.length ≤ kcp.sndQueue.length := by
  obtain ⟨k, hdrop, hlen, hle⟩ := openWindow_append { flushProbed kcp with probe := 0 }
    (ikcpWndUnused kcp)
    ((flushProbed kcp).sndUna + flushCwnd { flushProbed kcp with probe := 0 })
    (flushProbed kcp).sndNxt (flushProbed kcp).sndQueue
  rw [← flushProbed_sndQueue kcp, ← flushProbed_sndBuf kcp]
  refine ⟨_, rfl, ?_, ?_⟩
  · exact hlen ▸ hdrop
  · exact hlen ▸ hle

theorem kcpUpdate_moved (block : IKCPCB) (dlt : UInt32) :
    ∃ opened, cores (kcpUpdate block dlt).1.sndBuf = cores block.sndBuf ++ cores opened ∧
      (kcpUpdate block dlt).1.sndQueue = block.sndQueue.drop opened.length ∧
      opened.length ≤ block.sndQueue.length := by
  have hqueue : (updateTimer block dlt).1.sndQueue = block.sndQueue := by
    rw [updateTimer_eq]
  have hbuf : (updateTimer block dlt).1.sndBuf = block.sndBuf := by
    rw [updateTimer_eq]
  unfold kcpUpdate
  cases hdue : (updateTimer block dlt).2 with
  | false =>
      rw [ikcpUpdate_idle hdue]
      refine ⟨[], ?_, hqueue, Nat.zero_le _⟩
      rw [hbuf]
      exact (List.append_nil _).symm
  | true =>
      obtain ⟨opened, hopened, hdrop, hle⟩ := flushOpened_moved (updateTimer block dlt).1
      rw [ikcpUpdate_due hdue, ikcpFlush_block (updateTimer_updated block dlt)]
      rw [hqueue] at hdrop hle
      rw [hbuf] at hopened
      refine ⟨opened, ?_, hdrop, hle⟩
      dsimp only
      rw [stamped_cores, hopened, cores_append]

/-- What the passing of time leaves alone: what is known of the peer, and the receive queue. -/
structure TimeKept (old new : IKCPCB) : Prop where
  sndUna : new.sndUna = old.sndUna
  rmtWnd : new.rmtWnd = old.rmtWnd
  nrcvQue : new.nrcvQue = old.nrcvQue
  rcvQueue : new.rcvQueue = old.rcvQueue

theorem TimeKept.trans {a b c : IKCPCB} (hab : TimeKept a b) (hbc : TimeKept b c) :
    TimeKept a c :=
  ⟨hbc.sndUna.trans hab.sndUna, hbc.rmtWnd.trans hab.rmtWnd, hbc.nrcvQue.trans hab.nrcvQue,
    hbc.rcvQueue.trans hab.rcvQueue⟩

theorem flushOpened_kept (kcp : IKCPCB) : TimeKept kcp (flushOpened kcp) := by
  have hprobed : TimeKept kcp (flushProbed kcp) := by
    rw [flushProbed_eq]
    exact ⟨rfl, rfl, rfl, rfl⟩
  exact hprobed.trans ⟨rfl, rfl, rfl, rfl⟩

theorem kcpUpdate_kept (block : IKCPCB) (dlt : UInt32) :
    TimeKept block (kcpUpdate block dlt).1 := by
  have htimed : TimeKept block (updateTimer block dlt).1 := by
    rw [updateTimer_eq]
    exact ⟨rfl, rfl, rfl, rfl⟩
  apply kcpUpdate_of htimed
  rw [ikcpFlush_block (updateTimer_updated block dlt)]
  exact htimed.trans ((flushOpened_kept _).trans ⟨rfl, rfl, rfl, rfl⟩)

/-! ## Sending -/

/-- A segment as a numbered piece of a message. -/
def piece (seg : IKCPSEG) : Framing.Piece UInt8 := (seg.frg.toNat, seg.data)

/-- The fragment loop cuts a message into countdown pieces. -/
theorem sendFragments_pieces {mss count : Nat} (hcount : count ≤ 2 ^ 32) (message : Bytes) :
    (sendFragments mss 0 count message).map piece = Framing.pieces mss count message := by
  induction count generalizing message with
  | zero => rfl
  | succ count ih =>
      have hfrg : (UInt32.ofNat count).toNat = count := by
        rw [UInt32.toNat_ofNat']
        omega
      have htake : message.take (if message.length > mss then mss else message.length) =
          message.take mss := by
        split
        · rfl
        · rw [List.take_of_length_le (Nat.le_refl _), List.take_of_length_le (by omega)]
      have hdrop : message.drop (if message.length > mss then mss else message.length) =
          message.drop mss := by
        split
        · rfl
        · rw [List.drop_of_length_le (Nat.le_refl _), List.drop_of_length_le (by omega)]
      rw [sendFragments, Framing.pieces, List.map_cons, hdrop, ih (by omega), htake, if_pos rfl]
      simp only [piece, hfrg]

/-- The block after a message was queued. -/
def queueMessage (block : IKCPCB) (message : Bytes) : IKCPCB :=
  { block with
    sndQueue := block.sndQueue ++ sendFragments block.mss.toNat 0
      (Framing.pieceCount block.mss.toNat message.length) message
    nsndQue := block.nsndQue + Framing.pieceCount block.mss.toNat message.length }

/-- Outside stream mode a message is accepted when it needs fewer than 128 segments. -/
theorem kcpSend_message {block : IKCPCB} (hstream : block.stream = 0)
    (hmss : 0 < block.mss.toNat) (message : Bytes) :
    kcpSend block message message.length =
      if Framing.pieceCount block.mss.toNat message.length < ikcpWndRcv.toNat then
        (queueMessage block message, 0)
      else (block, -2) := by
  have hpos := Framing.pieceCount_pos hmss message.length
  have hcount : sendCount block.mss.toNat message.length =
      Framing.pieceCount block.mss.toNat message.length := rfl
  unfold kcpSend ikcpSend
  rw [if_neg (by omega), Int.toNat_natCast, List.take_of_length_le (Nat.le_refl _)]
  simp only [hstream, ne_eq, not_true, if_false, false_and, hcount]
  by_cases hfew : Framing.pieceCount block.mss.toNat message.length < ikcpWndRcv.toNat
  · rw [if_neg (by omega), if_pos hfew, if_neg (by omega)]
    simp only [queueMessage, hstream]
  · rw [if_pos (by omega), if_neg hfew]

end UdpKcp.Plug
