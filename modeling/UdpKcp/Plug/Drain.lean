import UdpKcp.Plug.HeadMessage
import UdpKcp.Plug.Representation

/-! # The drain loop

The loop of `KcpRecv` that empties the receive queue into the caller's buffer.
Each round takes at least one segment from `rcv_queue` and `rcv_buf` together,
also when its message is empty; what it takes is handed out in order of the
sequence numbers, and what it leaves is untouched.
-/

namespace UdpKcp.Plug

open ByteCodec (Bytes)
open Serial (Window offset)
open Ikcp

/-- A call of `ikcp_recv`: the block afterwards and the value returned. -/
def recvCall (kcp : IKCPCB) (len : Int) : IKCPCB × Int :=
  match ikcpRecv kcp len with
  | .error code => (kcp, code)
  | .ok (bytes, kcp) => (kcp, bytes.length)

/-- The `while` loop itself, with the number of calls of `ikcp_recv` it makes. -/
inductive Drains : IKCPCB → Int → ℕ → Drained → Prop where
  | full {pcb : IKCPCB} {maxlen : Int} (hfull : ¬ maxlen > 0) :
      Drains pcb maxlen 0 { block := pcb, messages := [] }
  | refused {pcb : IKCPCB} {maxlen code : Int} (hroom : maxlen > 0)
      (hrecv : ikcpRecv pcb maxlen = .error code) (hneg : code < 0) :
      Drains pcb maxlen 1 { block := pcb, messages := [] }
  | taken {pcb pcb' : IKCPCB} {maxlen : Int} {bytes : Bytes} {calls : ℕ} {rest : Drained}
      (hroom : maxlen > 0) (hrecv : ikcpRecv pcb maxlen = .ok (bytes, pcb'))
      (hrest : Drains pcb' (maxlen - bytes.length) calls rest) :
      Drains pcb maxlen (calls + 1) { block := rest.block, messages := bytes :: rest.messages }

/-! ## One call -/

/-- The walk of `ikcp_peeksize` and the merge of `ikcp_recv` stop at the same segment. -/
theorem peekLength_merged (queue : List IKCPSEG) :
    peekLength queue = ((mergeFragments queue).1.flatMap (·.data)).length := by
  rw [peekLength_eq, merged_data, mergeFragments_pieces]

/-- The assertion of `ikcp_recv`: what is merged has the size that was announced. -/
theorem peeksize_merged {kcp : IKCPCB} (h : 0 ≤ ikcpPeeksize kcp) :
    ikcpPeeksize kcp = ((mergeFragments kcp.rcvQueue).1.flatMap (·.data)).length := by
  unfold ikcpPeeksize at *
  cases hqueue : kcp.rcvQueue with
  | nil => simp [hqueue] at h
  | cons seg p =>
      rw [hqueue] at h
      dsimp only at h ⊢
      by_cases hzero : seg.frg = 0
      · simp [hzero, mergeFragments]
      · rw [if_neg hzero] at h ⊢
        split
        · rename_i hfew
          rw [if_pos hfew] at h
          omega
        · exact peekLength_merged (seg :: p)

theorem ikcpRecv_length {kcp kcp' : IKCPCB} {len : Int} {bytes : Bytes}
    (h : ikcpRecv kcp len = .ok (bytes, kcp')) : (bytes.length : Int) = ikcpPeeksize kcp := by
  unfold ikcpRecv at h
  dsimp only at h
  split_ifs at h with hne hpeek hfit
  all_goals
    have hbytes : _ = bytes := (Prod.mk.inj (Except.ok.inj h)).1
    rw [peeksize_merged (by omega), ← hbytes]

/-- An error of `ikcp_recv` leaves the block as it was. -/
theorem recvCall_negative {kcp : IKCPCB} {len : Int} (h : (recvCall kcp len).2 < 0) :
    (recvCall kcp len).1 = kcp := by
  unfold recvCall at *
  cases hrecv : ikcpRecv kcp len with
  | error code => rfl
  | ok result =>
      rw [hrecv] at h
      dsimp only at h
      omega

/-- `ikcp_recv` refuses exactly when no message is complete or the first one does not fit. -/
theorem ikcpRecv_refused {kcp : IKCPCB} {maxlen code : Int} (hroom : maxlen > 0)
    (h : ikcpRecv kcp maxlen = .error code) : ikcpPeeksize kcp < 0 ∨ ikcpPeeksize kcp > maxlen := by
  rw [ikcpRecv_eq (by omega)] at h
  split_ifs at h with hne hpeek hfit
  · left
    simp [ikcpPeeksize, hne]
  · exact Or.inl hpeek
  · exact Or.inr hfit

theorem ikcpRecv_error {kcp : IKCPCB} {maxlen code : Int} (hroom : maxlen > 0)
    (h : ikcpRecv kcp maxlen = .error code) : code < 0 := by
  rw [ikcpRecv_eq (by omega)] at h
  split_ifs at h <;> simp only [Except.error.injEq] at h <;> omega

/-! ## The number of calls -/

/-- The segments that the peer has sent and nobody has read. -/
def unread (kcp : IKCPCB) : ℕ := kcp.rcvQueue.length + kcp.rcvBuf.length

theorem RecvSettled.unread_eq {kcp : IKCPCB} (h : RecvSettled kcp) :
    unread kcp = kcp.nrcvQue + kcp.nrcvBuf := by
  rw [h.queued, h.counted]
  rfl

theorem Takes.unread_eq {old new : IKCPCB} {taken : List IKCPSEG} (h : Takes old new taken) :
    unread old = taken.length + unread new := by
  have hlen := congrArg List.length h.held
  simp only [List.length_append] at hlen
  exact hlen

theorem ikcpRecv_unread {kcp kcp' : IKCPCB} (h : RecvSettled kcp) {len : Int} {bytes : Bytes}
    (hlen : 0 ≤ len) (hrecv : ikcpRecv kcp len = .ok (bytes, kcp')) : unread kcp' < unread kcp := by
  obtain ⟨hne, -⟩ := ikcpRecv_ok hlen hrecv
  have htakes := (h.ikcpRecv hlen hrecv).2
  have hpos := mergeFragments_pos hne
  have hunread := htakes.unread_eq
  omega

/-- With one unit of fuel for each segment held, the bounded loop is the loop. -/
theorem drains_loop {fuel : ℕ} {pcb : IKCPCB} (h : RecvSettled pcb) (maxlen : Int)
    (hfuel : unread pcb < fuel) :
    ∃ calls ≤ unread pcb + 1, Drains pcb maxlen calls (drainLoop fuel pcb maxlen) := by
  induction fuel generalizing pcb maxlen with
  | zero => omega
  | succ fuel ih =>
      unfold drainLoop
      by_cases hroom : maxlen > 0
      · rw [if_pos hroom]
        cases hrecv : ikcpRecv pcb maxlen with
        | error code => exact ⟨1, by omega, .refused hroom hrecv (ikcpRecv_error hroom hrecv)⟩
        | ok result =>
            obtain ⟨bytes, pcb'⟩ := result
            have hless := ikcpRecv_unread h (Int.le_of_lt hroom) hrecv
            have hnext := (h.ikcpRecv (Int.le_of_lt hroom) hrecv).1
            obtain ⟨calls, hcalls, hrest⟩ := ih hnext (maxlen - bytes.length) (by omega)
            exact ⟨calls + 1, by omega, .taken hroom hrecv hrest⟩
      · rw [if_neg hroom]
        exact ⟨0, Nat.zero_le _, .full hroom⟩

/-! ## What a run of the loop takes -/

/-- The messages are the payloads of the segments taken, and the block keeps the rest. -/
theorem Drains.takes {pcb : IKCPCB} {maxlen : Int} {calls : ℕ} {drained : Drained}
    (h : Drains pcb maxlen calls drained) (hpcb : RecvSettled pcb) :
    ∃ taken, Takes pcb drained.block taken ∧
      drained.messages.flatten = taken.flatMap (·.data) := by
  induction h with
  | full hfull => exact ⟨[], Takes.nothing _, rfl⟩
  | refused hroom hrecv hneg => exact ⟨[], Takes.nothing _, rfl⟩
  | taken hroom hrecv hrest ih =>
      obtain ⟨hnext, htakes⟩ := hpcb.ikcpRecv (Int.le_of_lt hroom) hrecv
      obtain ⟨-, -, -, rfl, -⟩ := ikcpRecv_ok (Int.le_of_lt hroom) hrecv
      obtain ⟨taken, hmore, hdata⟩ := ih hnext
      refine ⟨_, htakes.trans hmore, ?_⟩
      rw [List.flatten_cons, hdata, List.flatMap_append]

/-- The bytes handed out fit the caller's buffer. -/
theorem Drains.fits {pcb : IKCPCB} {maxlen : Int} {calls : ℕ} {drained : Drained}
    (h : Drains pcb maxlen calls drained) (hmax : 0 ≤ maxlen) :
    (drained.messages.flatten.length : Int) ≤ maxlen := by
  induction h with
  | full hfull => exact hmax
  | refused hroom hrecv hneg => exact hmax
  | taken hroom hrecv hrest ih =>
      obtain ⟨-, -, hfit, -⟩ := ikcpRecv_ok (Int.le_of_lt hroom) hrecv
      have hlen := ikcpRecv_length hrecv
      have hrest' := ih (by omega)
      rw [List.flatten_cons, List.length_append]
      omega

/-- Queue and buffer together are in order of the sequence numbers. -/
theorem RecvSettled.order_held {kcp : IKCPCB} (h : RecvSettled kcp) :
    (kcp.rcvQueue ++ kcp.rcvBuf).Pairwise fun a b => itimediff a.sn b.sn < 0 := by
  have hplug : plugWnd = 128 := rfl
  have hroom := h.room
  rw [h.queued] at hroom
  obtain ⟨first, hnum, hnxt⟩ := h.order
  have hbase : offset first kcp.rcvNxt = kcp.rcvQueue.length := by
    rw [hnxt]
    exact Serial.offset_base_add (by omega)
  have hrun : Window first (offset first first + kcp.rcvQueue.length) (numbers kcp.rcvQueue) := by
    rw [hnum]
    exact Window.run (by rw [Serial.offset_self]; omega)
  rw [Serial.offset_self] at hrun
  have hbuf : Window first (offset first kcp.rcvNxt + plugWnd) (numbers kcp.rcvBuf) :=
    h.window.behind (by omega)
  have hall : Window first (offset first kcp.rcvNxt + plugWnd)
      (numbers (kcp.rcvQueue ++ kcp.rcvBuf)) := by
    rw [numbers_append]
    apply (hrun.mono (by omega)).append hbuf
    intro x hx y hy
    have hxin := hrun.inside x hx
    have hyin := h.window.inside y hy
    have hy' : offset first y = offset first kcp.rcvNxt + offset kcp.rcvNxt y :=
      Serial.offset_trans (by omega)
    omega
  exact List.pairwise_map.mp (hall.serial (by omega))

/-! ## The whole loop -/

/-- What is wanted of the drain loop on a block. -/
structure DrainSound (pcb : IKCPCB) (maxlen : Int) (drained : Drained) : Prop where
  calls : ∃ calls ≤ pcb.nrcvQue + pcb.nrcvBuf + 1, Drains pcb maxlen calls drained
  fits : (drained.messages.flatten.length : Int) ≤ maxlen
  order : (pcb.rcvQueue ++ pcb.rcvBuf).Pairwise fun a b => itimediff a.sn b.sn < 0
  rest : ∃ taken,
    pcb.rcvQueue ++ pcb.rcvBuf = taken ++ (drained.block.rcvQueue ++ drained.block.rcvBuf) ∧
      drained.messages.flatten = taken.flatMap (·.data)

theorem RecvSettled.drain_sound {pcb : IKCPCB} (h : RecvSettled pcb) {maxlen : Int}
    (hmax : 0 < maxlen) : DrainSound pcb maxlen (Plug.drain pcb maxlen) := by
  have hfuel : unread pcb < pcb.rcvQueue.length + pcb.rcvBuf.length + 1 := Nat.lt_succ_self _
  obtain ⟨calls, hcalls, hloop⟩ := drains_loop h maxlen hfuel
  obtain ⟨taken, htakes, hdata⟩ := hloop.takes h
  rw [h.unread_eq] at hcalls
  exact ⟨⟨calls, hcalls, hloop⟩, hloop.fits (Int.le_of_lt hmax), h.order_held,
    taken, htakes.held, hdata⟩

/-- The drain loop of `KcpRecv` after any datagrams: it ends within one call for each
segment held and one more, hands out the segments that leave in order and keeps the
others. An error leaves the block alone, and the asserted length is always met. -/
theorem kcpRecv_drain {conv : UInt32} {block : IKCPCB} (h : Reachable conv block)
    (input : Option Bytes) (soc : Socket) {maxlen : Int} (hmax : 0 < maxlen) :
    DrainSound (kcpRecvInput block input soc).1 maxlen
      { block := (kcpRecv block input soc maxlen).block
        messages := (kcpRecv block input soc maxlen).messages } ∧
    (∀ kcp len, (recvCall kcp len).2 < 0 → (recvCall kcp len).1 = kcp) ∧
    ∀ kcp kcp' len bytes, ikcpRecv kcp len = .ok (bytes, kcp') →
      (bytes.length : Int) = ikcpPeeksize kcp := by
  have hread := ((ringed_of_reachable h).rcv.kcpRecvInput input soc).1
  exact ⟨hread.drain_sound hmax, fun _ _ => recvCall_negative, fun _ _ _ _ => ikcpRecv_length⟩

/-- An empty message, and a forged fragment whose last fragment never comes. -/
def forgedFragments : Bytes :=
  [7, 0, 0, 0, 81, 0, 0, 0, 0, 0, 0, 0, 0, 0, 0, 0, 0, 0, 0, 0, 0, 0, 0, 0,
   7, 0, 0, 0, 81, 9, 0, 0, 0, 0, 0, 0, 1, 0, 0, 0, 0, 0, 0, 0, 1, 0, 0, 0, 65]

theorem kcpRecv_drain_forged :
    (kcpRecv (newKcpPlugControlBlock 7) (some forgedFragments) [] 512).messages = [[]] ∧
    DrainSound (kcpRecvInput (newKcpPlugControlBlock 7) (some forgedFragments) []).1 512
      { block := (kcpRecv (newKcpPlugControlBlock 7) (some forgedFragments) [] 512).block
        messages := (kcpRecv (newKcpPlugControlBlock 7) (some forgedFragments) [] 512).messages } :=
  ⟨by decide, (kcpRecv_drain Relation.ReflTransGen.refl _ _ (by decide)).1⟩

end UdpKcp.Plug
