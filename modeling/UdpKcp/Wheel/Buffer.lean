import UdpKcp.Plug.Waiting
import UdpKcp.Wheel.Blocking

/-! # The buffer of the client

`Recv` drains the complete messages into the 512 bytes of `m_buff`, once, and
`OnRecvData` ends what it got with a zero byte. Messages that do not fit
together wait for the next `Recv`, and messages that fit to the last byte leave
no room for the zero.
-/

namespace UdpKcp.Wheel

open ByteCodec (Bytes)
open Filling (filled Fits)
open Ikcp Plug

/-- The messages that are complete once `ikcp_input` has had the pending datagrams. -/
def arrived (block : IKCPCB) (data : Option Bytes) (soc : Socket) : List Bytes :=
  messagesWaiting (kcpRecvInput block data soc).1

/-- No complete message is left in the block, and all were handed to `OnRecvData`. -/
structure Emptied (complete : List Bytes) (r : Received) (block : IKCPCB) : Prop where
  peek : ikcpPeeksize block < 0
  messages : r.messages = complete
  handed : r.handed = if complete.flatten = [] then none else some complete.flatten

/-! ## The stores of one call -/

/-- Indices stored to by the merge of `ikcp_recv` into `buffer`, which is at `index`. -/
def mergeStores (index : ℕ) : List IKCPSEG → List ℕ
  | [] => []
  | seg :: p =>
      List.range' index seg.data.length ++
        if seg.frg = 0 then [] else mergeStores (index + seg.data.length) p

/-- Indices stored to by the drain loop of `KcpRecv`. -/
def drainStores : ℕ → IKCPCB → ℕ → Int → List ℕ
  | 0, _, _, _ => []
  | fuel + 1, pcb, currLen, maxlen =>
      if maxlen > 0 then
        match ikcpRecv pcb maxlen with
        | .error _ => []
        | .ok (bytes, pcb') =>
            mergeStores currLen pcb.rcvQueue ++
              drainStores fuel pcb' (currLen + bytes.length) (maxlen - bytes.length)
      else []

/-- Indices of `m_buff` that a `Recv` stores to after the handshake: `KcpRecv`, then the
terminator of `OnRecvData`. -/
def UDPClient.recvStores (c : UDPClient) (data : Option Bytes) (soc : Socket) : List ℕ :=
  match c.plugUserData with
  | none => []
  | some block =>
      let pcb := (kcpRecvInput block data soc).1
      let n := (kcpRecv block data soc c.getBuffLeftLen).out.length
      drainStores (pcb.rcvQueue.length + pcb.rcvBuf.length + 1) pcb 0 c.getBuffLeftLen ++
        if n > 0 then [n] else []

/-- The merge fills the place of the message from its first byte to its last. -/
theorem mergeStores_eq (index : ℕ) (queue : List IKCPSEG) :
    mergeStores index queue =
      List.range' index ((mergeFragments queue).1.flatMap (·.data)).length := by
  induction queue generalizing index with
  | nil => rfl
  | cons seg p ih =>
      unfold mergeStores mergeFragments
      by_cases hzero : seg.frg = 0
      · simp [hzero]
      · simp [hzero, ih, List.range'_append_1]

/-- The drain loop fills the buffer from its start, without a gap. -/
theorem drainStores_eq (fuel : ℕ) (pcb : IKCPCB) (currLen : ℕ) (maxlen : Int) :
    drainStores fuel pcb currLen maxlen =
      List.range' currLen (drainLoop fuel pcb maxlen).messages.flatten.length := by
  induction fuel generalizing pcb currLen maxlen with
  | zero => rfl
  | succ fuel ih =>
      unfold drainStores drainLoop
      by_cases hroom : maxlen > 0
      · rw [if_pos hroom, if_pos hroom]
        cases hrecv : ikcpRecv pcb maxlen with
        | error code => rfl
        | ok result =>
            obtain ⟨bytes, pcb'⟩ := result
            obtain ⟨-, -, -, hbytes, -⟩ := ikcpRecv_ok (Int.le_of_lt hroom) hrecv
            dsimp only
            rw [mergeStores_eq, ih, ← hbytes, List.range'_append_1, List.flatten_cons,
              List.length_append]
      · rw [if_neg hroom, if_neg hroom]
        rfl

/-! ## One Recv -/

section Recv

variable {platform : Platform} {c : UDPClient} {block : IKCPCB}

variable (h : c.Reached platform) (hblock : c.plugUserData = some block)

include h hblock

/-- What the drain loop of `Recv` takes and leaves. -/
theorem recv_drained (data : Option Bytes) (soc : Socket) :
    (kcpRecv block data soc c.getBuffLeftLen).messages = filled 512 (arrived block data soc) ∧
      (ikcpPeeksize (kcpRecv block data soc c.getBuffLeftLen).block < 0 ↔
        Fits 512 (arrived block data soc)) := by
  have hread := ((h.plugged.settled hblock).kcpRecvInput data soc).1
  rw [UDPClient.getBuffLeftLen_full h.plugged.buffOffset]
  exact ⟨(hread.drain_filled 512).1, hread.drain_empty_iff 512⟩

/-- After any calls on a client with an id, and whatever datagrams are pending: `Recv`
leaves no complete message behind exactly when the complete ones together have at most
512 bytes, and where they have 512 the last is not empty. -/
theorem emptied_iff (hconv : c.convID ≠ 0) (data : Option Bytes) (soc : Socket) :
    ∃ r block', c.recv platform data soc = some r ∧ r.client.plugUserData = some block' ∧
      (Emptied (arrived block data soc) r block' ↔ Fits 512 (arrived block data soc)) := by
  obtain ⟨htaken, hempty⟩ := recv_drained h hblock data soc
  obtain ⟨block', hclient, hfixed⟩ := recvKcp_block hblock hconv data soc
  have hmessages := recvKcp_messages hblock data soc
  refine ⟨_, block', UDPClient.recv_plugged hconv data soc, hclient, ?_⟩
  rw [← hempty, ← hfixed.peeksize]
  constructor
  · exact Emptied.peek
  · intro hpeek
    have hfits : Fits 512 (arrived block data soc) := hempty.mp (hfixed.peeksize ▸ hpeek)
    have hall : (c.recvKcp data soc).messages = arrived block data soc := by
      rw [hmessages, htaken, Filling.filled_eq_self_iff.mpr hfits]
    exact ⟨hpeek, hall, by rw [recvKcp_handed hblock, hall]⟩

/-- The stores of a `Recv` after the handshake, to indices one after the other. -/
theorem recvStores_eq (data : Option Bytes) (soc : Socket) :
    c.recvStores data soc =
      let n := (filled 512 (arrived block data soc)).flatten.length
      List.range n ++ if n > 0 then [n] else [] := by
  obtain ⟨htaken, -⟩ := recv_drained h hblock data soc
  have hstores := drainStores_eq ((kcpRecvInput block data soc).1.rcvQueue.length +
    (kcpRecvInput block data soc).1.rcvBuf.length + 1) (kcpRecvInput block data soc).1 0
    c.getBuffLeftLen
  unfold UDPClient.recvStores
  rw [hblock]
  dsimp only
  rw [hstores, ← List.range_eq_range', ← htaken]
  rfl

/-- Whatever datagrams a client with an id reads, `Recv` stores inside `m_buff` only,
exactly when no number of the complete messages, from the first one on, adds up to 512
bytes: then the terminator is stored behind the buffer. -/
theorem stores_inBounds_iff (data : Option Bytes) (soc : Socket) :
    (∀ i ∈ c.recvStores data soc, i < maxClientBuffLen) ↔
      ¬ ∃ front, front <+: arrived block data soc ∧ front.flatten.length = 512 := by
  have hmax : maxClientBuffLen = 512 := rfl
  have hle := Filling.filled_length_le 512 (arrived block data soc)
  rw [recvStores_eq h hblock, ← Filling.filled_full_iff (by decide), hmax]
  dsimp only
  constructor
  · intro hall hfull
    have hlast := hall 512 (by simp [hfull])
    omega
  · intro hnot i hi
    rcases List.mem_append.mp hi with hi | hi
    · have hlt := List.mem_range.mp hi
      omega
    · split at hi
      · rw [List.mem_singleton] at hi
        omega
      · exact absurd hi List.not_mem_nil

end Recv

/-! ## An accept side with messages to read -/

/-- The accept side past its first `Recv`. -/
def acceptSide : UDPClient := (acceptedClient peerAddr 6).setKcpConvID (makeUniqueID peerAddr)

theorem acceptSide_reached (platform : Platform) : acceptSide.Reached platform := by
  have hrecv : (acceptedClient peerAddr 6).recv platform none [] = some _ :=
    UDPClient.recv_accept rfl rfl none []
  exact (UDPClient.Reached.fresh platform peerAddr 6 .accept).call (.recv none [])
    (congrArg (Option.map Received.client) hrecv)

/-- A datagram with a message for it. -/
def oneSegment (message : Bytes) : Bytes :=
  IKCPSEG.bytes { conv := makeUniqueID peerAddr, cmd := ikcpCmdPush, data := message }

/-- Datagrams with two messages for it. -/
def twoSegments (first second : Bytes) : Socket :=
  [some (oneSegment first), some (IKCPSEG.bytes
    { conv := makeUniqueID peerAddr, cmd := ikcpCmdPush, sn := 1, data := second })]

/-- Two messages that fill the buffer leave the block empty. -/
theorem emptied_twoMessages :
    ∃ r block', acceptSide.recv .linux none
        (twoSegments (List.replicate 502 65) (List.replicate 10 66)) = some r ∧
      r.client.plugUserData = some block' ∧
      Emptied [List.replicate 502 65, List.replicate 10 66] r block' := by
  have harrived : arrived (newKcpPlugControlBlock (makeUniqueID peerAddr)) none
      (twoSegments (List.replicate 502 65) (List.replicate 10 66)) =
      [List.replicate 502 65, List.replicate 10 66] := by decide +kernel
  obtain ⟨r, block', hr, hclient, hiff⟩ := emptied_iff (acceptSide_reached .linux) rfl
    (by decide) none (twoSegments (List.replicate 502 65) (List.replicate 10 66))
  rw [harrived] at hiff
  exact ⟨r, block', hr, hclient, hiff.mpr (by decide +kernel)⟩

/-- With one byte less the terminator is the last byte of the buffer. -/
theorem stores_inBounds_twoMessages :
    acceptSide.recvStores none (twoSegments (List.replicate 501 65) (List.replicate 10 66)) =
        List.range 512 ∧
      ∀ i ∈ acceptSide.recvStores none
        (twoSegments (List.replicate 501 65) (List.replicate 10 66)), i < maxClientBuffLen := by
  have harrived : arrived (newKcpPlugControlBlock (makeUniqueID peerAddr)) none
      (twoSegments (List.replicate 501 65) (List.replicate 10 66)) =
      [List.replicate 501 65, List.replicate 10 66] := by decide +kernel
  have hsmall : ∀ front ∈ [List.replicate 501 (65 : UInt8), List.replicate 10 66].inits,
      front.flatten.length ≠ 512 := by decide +kernel
  constructor
  · decide +kernel
  · rw [stores_inBounds_iff (acceptSide_reached .linux) rfl, harrived]
    rintro ⟨front, hfront, hfull⟩
    exact hsmall front ((List.mem_inits _ _).mpr hfront) hfull

/-- A message of 512 bytes: the terminator goes to the byte behind `m_buff`. -/
theorem stores_inBounds_full :
    acceptSide.Reached .linux ∧ acceptSide.convID ≠ 0 ∧
      maxClientBuffLen ∈ acceptSide.recvStores none [some (oneSegment (List.replicate 512 0))] ∧
      ¬ ∀ i ∈ acceptSide.recvStores none [some (oneSegment (List.replicate 512 0))],
        i < maxClientBuffLen := by
  have hstored : maxClientBuffLen ∈
      acceptSide.recvStores none [some (oneSegment (List.replicate 512 0))] := by decide +kernel
  exact ⟨acceptSide_reached .linux, by decide, hstored,
    fun hall => absurd (hall _ hstored) (by decide)⟩

/-! ## Two messages that do not fit together -/

/-- The two messages of `waiting` are on their way. -/
def loaded : Joint :=
  ((widened.act peerAddr (.connectSend (List.replicate 510 0))).act peerAddr
    (.connectSend (List.replicate 10 0))).act peerAddr (.connectUpdate 20)

theorem loaded_reachable : Joint.Reachable peerAddr peerAddr 5 loaded :=
  ((widened_reachable.tail (Joint.Step.act _ (.connectSend _) (by decide +kernel) trivial)).tail
    (Joint.Step.act _ (.connectSend _) (by decide +kernel) trivial)).tail
    (Joint.Step.act _ (.connectUpdate 20) (by decide +kernel) trivial)

/-- Both arrive, and after the `Recv` that reads them one is left behind. -/
theorem emptied_loaded :
    ∃ c block r block', Joint.Reachable peerAddr peerAddr 5 loaded ∧
      loaded.accepting peerAddr = some c ∧ c.Reached .linux ∧ c.convID ≠ 0 ∧
      c.plugUserData = some block ∧ block.rcvQueue = [] ∧
      (∀ m ∈ loaded.accepted .connect, m.length ≤ 512) ∧
      c.recv .linux none (bytesOf (loaded.toServer.map some)) = some r ∧
      r.client.plugUserData = some block' ∧ ikcpPeeksize block' = 10 ∧
      ¬ Emptied (arrived block none (bytesOf (loaded.toServer.map some))) r block' := by
  have hrecv : ∃ c ∈ loaded.accepting peerAddr, c.convID ≠ 0 ∧ ∃ block ∈ c.plugUserData,
      block.rcvQueue = [] ∧ ∃ r ∈ c.recv .linux none (bytesOf (loaded.toServer.map some)),
        ∃ block' ∈ r.client.plugUserData, ikcpPeeksize block' = 10 := by decide +kernel
  have hsmall : ∀ m ∈ loaded.accepted .connect, m.length ≤ 512 := by decide +kernel
  obtain ⟨c, hc, hconv, block, hblock, hqueue, r, hr, block', hblock', hpeek⟩ := hrecv
  have hclient : loaded.client peerAddr .accept = some c := hc
  refine ⟨c, block, r, block', loaded_reachable, hc, Joint.reached loaded_reachable hclient, hconv,
    hblock, hqueue, hsmall, hr, hblock', hpeek, ?_⟩
  intro hemptied
  have hneg := hemptied.peek
  omega

end UdpKcp.Wheel
