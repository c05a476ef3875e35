import UdpKcp.Library.Filling
import UdpKcp.Plug.Drain

/-! # The messages that wait

What a reader with enough room would take from a block, one message after the
other. The drain loop of `KcpRecv` takes of these as many as fill the buffer
it is given, and the others go on waiting.
-/

namespace UdpKcp.Plug

open ByteCodec (Bytes)
open Filling (filled Fits)
open Ikcp

/-- The message that `ikcp_recv` merges next. -/
def headMessage (kcp : IKCPCB) : Bytes := (mergeFragments kcp.rcvQueue).1.flatMap (·.data)

def waitingLoop : ℕ → IKCPCB → List Bytes
  | 0, _ => []
  | fuel + 1, kcp =>
      if ikcpPeeksize kcp < 0 then [] else headMessage kcp :: waitingLoop fuel (takeMessage kcp)

/-- The complete messages of `rcv_queue`, with those that `rcv_buf` adds to it as they are
taken. -/
def messagesWaiting (kcp : IKCPCB) : List Bytes := waitingLoop (unread kcp + 1) kcp

theorem headMessage_length {kcp : IKCPCB} (h : 0 ≤ ikcpPeeksize kcp) :
    ((headMessage kcp).length : Int) = ikcpPeeksize kcp :=
  (peeksize_merged h).symm

theorem RecvFixed.peeksize {old new : IKCPCB} (h : RecvFixed old new) :
    ikcpPeeksize new = ikcpPeeksize old := by
  unfold ikcpPeeksize
  rw [h.queue, h.queued]

/-- With a buffer of the right size the message is taken. -/
theorem ikcpRecv_head {kcp : IKCPCB} (h : 0 ≤ ikcpPeeksize kcp) :
    ikcpRecv kcp (ikcpPeeksize kcp) = .ok (headMessage kcp, takeMessage kcp) := by
  have hne : kcp.rcvQueue ≠ [] := by
    intro hnil
    simp [ikcpPeeksize, hnil] at h
  rw [ikcpRecv_eq h, if_neg hne, if_neg (by omega), if_neg (by omega)]
  rfl

theorem ikcpRecv_takes {kcp kcp' : IKCPCB} {len : Int} {bytes : Bytes} (hlen : 0 ≤ len)
    (h : ikcpRecv kcp len = .ok (bytes, kcp')) :
    bytes = headMessage kcp ∧ kcp' = takeMessage kcp := by
  rw [ikcpRecv_eq hlen] at h
  split_ifs at h
  simpa [eq_comm, headMessage] using h

theorem RecvSettled.takeMessage {kcp : IKCPCB} (h : RecvSettled kcp)
    (hpeek : 0 ≤ ikcpPeeksize kcp) :
    RecvSettled (takeMessage kcp) ∧ unread (Ikcp.takeMessage kcp) < unread kcp :=
  ⟨(h.ikcpRecv hpeek (ikcpRecv_head hpeek)).1, ikcpRecv_unread h hpeek (ikcpRecv_head hpeek)⟩

/-- More fuel than segments makes no difference. -/
theorem waitingLoop_stable {fuel fuel' : ℕ} {kcp : IKCPCB} (h : RecvSettled kcp)
    (hfuel : unread kcp < fuel) (hfuel' : unread kcp < fuel') :
    waitingLoop fuel kcp = waitingLoop fuel' kcp := by
  induction fuel generalizing kcp fuel' with
  | zero => omega
  | succ fuel ih =>
      cases fuel' with
      | zero => omega
      | succ fuel' =>
          unfold waitingLoop
          by_cases hpeek : ikcpPeeksize kcp < 0
          · simp [hpeek]
          · obtain ⟨hnext, hless⟩ := h.takeMessage (by omega)
            rw [if_neg hpeek, if_neg hpeek]
            exact congrArg _ (ih hnext (by omega) (by omega))

theorem messagesWaiting_nil {kcp : IKCPCB} : messagesWaiting kcp = [] ↔ ikcpPeeksize kcp < 0 := by
  simp [messagesWaiting, waitingLoop]

theorem messagesWaiting_cons {kcp : IKCPCB} (h : RecvSettled kcp)
    (hpeek : 0 ≤ ikcpPeeksize kcp) :
    messagesWaiting kcp = headMessage kcp :: messagesWaiting (takeMessage kcp) := by
  obtain ⟨hnext, hless⟩ := h.takeMessage hpeek
  unfold messagesWaiting
  rw [waitingLoop, if_neg (by omega), waitingLoop_stable hnext hless (Nat.lt_succ_self _)]

/-- The drain loop fills the buffer with the first of the waiting messages, and the block
keeps the others. -/
theorem Drains.filled {pcb : IKCPCB} {maxlen : Int} {calls : ℕ} {drained : Drained}
    (h : Drains pcb maxlen calls drained) (hpcb : RecvSettled pcb) :
    drained.messages = filled maxlen.toNat (messagesWaiting pcb) ∧
      messagesWaiting pcb = drained.messages ++ messagesWaiting drained.block := by
  induction h with
  | full hfull =>
      have hzero : Int.toNat _ = 0 := Int.toNat_of_nonpos (Int.not_lt.mp hfull)
      simp [hzero]
  | @refused pcb maxlen code hroom hrecv hneg =>
      refine ⟨?_, rfl⟩
      rcases Int.lt_or_le (ikcpPeeksize pcb) 0 with hpeek | hpeek
      · simp [messagesWaiting_nil.mpr hpeek]
      · have hlong := (ikcpRecv_refused hroom hrecv).resolve_left (by omega)
        have hlen := headMessage_length hpeek
        rw [messagesWaiting_cons hpcb hpeek, Filling.filled_long (by omega)]
  | @taken pcb pcb' maxlen bytes calls rest hroom hrecv hrest ih =>
      have hlen := Int.le_of_lt hroom
      obtain ⟨-, hpeek, hfit, -⟩ := ikcpRecv_ok hlen hrecv
      obtain ⟨hnext, -⟩ := hpcb.ikcpRecv hlen hrecv
      obtain ⟨rfl, rfl⟩ := ikcpRecv_takes hlen hrecv
      obtain ⟨hfilled, hleft⟩ := ih hnext
      have hhead := headMessage_length hpeek
      have hroom' : (maxlen - (headMessage pcb).length).toNat =
          maxlen.toNat - (headMessage pcb).length := by omega
      rw [messagesWaiting_cons hpcb hpeek]
      refine ⟨?_, by rw [hleft]; rfl⟩
      rw [Filling.filled_cons (by omega) (by omega), hfilled, hroom']

/-- What the drain loop takes from a settled block, and what it leaves. -/
theorem RecvSettled.drain_filled {pcb : IKCPCB} (h : RecvSettled pcb) (maxlen : Int) :
    (Plug.drain pcb maxlen).messages = filled maxlen.toNat (messagesWaiting pcb) ∧
      messagesWaiting pcb =
        (Plug.drain pcb maxlen).messages ++ messagesWaiting (Plug.drain pcb maxlen).block := by
  have hfuel : unread pcb < pcb.rcvQueue.length + pcb.rcvBuf.length + 1 := Nat.lt_succ_self _
  obtain ⟨calls, -, hloop⟩ := drains_loop h maxlen hfuel
  exact hloop.filled h

/-- Nothing complete is left exactly when the waiting messages fit the buffer together. -/
theorem RecvSettled.drain_empty_iff {pcb : IKCPCB} (h : RecvSettled pcb) (maxlen : Int) :
    ikcpPeeksize (Plug.drain pcb maxlen).block < 0 ↔ Fits maxlen.toNat (messagesWaiting pcb) := by
  obtain ⟨htaken, hleft⟩ := h.drain_filled maxlen
  rw [← messagesWaiting_nil, ← Filling.filled_eq_self_iff, ← htaken]
  constructor
  · intro hnil
    rw [hleft, hnil, List.append_nil]
  · intro hall
    rw [hall] at hleft
    simpa using hleft

end UdpKcp.Plug
