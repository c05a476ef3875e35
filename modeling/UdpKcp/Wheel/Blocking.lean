import UdpKcp.Wheel.Reached

/-! # Messages that do not fit the buffer

`ikcp_send` accepts up to 127 segments, and the client receives into
`MAX_CLIENT_BUFF_LEN` bytes. A message between the two is reassembled and then
stays at the head of `rcv_queue`.
-/

namespace UdpKcp.Wheel

open ByteCodec (Bytes)
open Framing (fragments)
open Ikcp Plug
open UDPClient (Kept)

def UDPClientType.other : UDPClientType → UDPClientType
  | .accept => .connect
  | .connect => .accept

/-- A `Recv` has removed `m` from the head of `queue` and handed its bytes to `OnRecvData`;
of an empty message there is nothing to hand. -/
structure Handed (m : Bytes) (queue : List IKCPSEG) (r : Received) (block : IKCPCB) : Prop where
  message : ∃ later, r.messages = m :: later
  removed : Removed m queue block
  handed : m ≠ [] → ∃ later, r.handed = some (m ++ later)

/-- The message waits at the head of the queue, and nothing was handed on. -/
structure Stuck (m : Bytes) (r : Received) (block : IKCPCB) : Prop where
  messages : r.messages = []
  handed : r.handed = none
  waiting : fragments plugMss m <+: block.rcvQueue.map piece

theorem send_block {c : UDPClient} {block : IKCPCB} (hblock : c.plugUserData = some block)
    (hconv : c.convID ≠ 0) (payload : Bytes) :
    ∃ block', (c.send payload).client.plugUserData = some block' ∧ RecvFixed block block' := by
  unfold UDPClient.send
  rw [if_neg (show ¬ c.getKcpConvID = 0 from hconv), hblock]
  exact ⟨_, rfl, RecvFixed.send block payload payload.length⟩

/-- A reply goes to the send queue, so the receiving half is as `KcpRecv` left it. -/
theorem recvKcp_block {c : UDPClient} {block : IKCPCB} (hblock : c.plugUserData = some block)
    (hconv : c.convID ≠ 0) (data : Option Bytes) (soc : Socket) :
    ∃ block', (c.recvKcp data soc).client.plugUserData = some block' ∧
      RecvFixed (kcpRecv block data soc c.getBuffLeftLen).block block' := by
  unfold UDPClient.recvKcp
  rw [hblock]
  dsimp only
  split
  · exact @send_block
      { c with plugUserData := some (kcpRecv block data soc c.getBuffLeftLen).block } _ rfl hconv _
  · exact ⟨_, rfl, rfl, rfl, rfl, rfl, rfl, rfl⟩

theorem recvKcp_messages {c : UDPClient} {block : IKCPCB} (hblock : c.plugUserData = some block)
    (data : Option Bytes) (soc : Socket) :
    (c.recvKcp data soc).messages = (kcpRecv block data soc c.getBuffLeftLen).messages := by
  unfold UDPClient.recvKcp
  rw [hblock]
  dsimp only
  split
  · rfl
  · rfl

/-- All the messages taken go to `OnRecvData` in one call. -/
theorem recvKcp_handed {c : UDPClient} {block : IKCPCB} (hblock : c.plugUserData = some block)
    (data : Option Bytes) (soc : Socket) :
    (c.recvKcp data soc).handed =
      if (c.recvKcp data soc).messages.flatten = [] then none
      else some (c.recvKcp data soc).messages.flatten := by
  rw [recvKcp_messages hblock]
  unfold UDPClient.recvKcp
  rw [hblock]
  dsimp only
  unfold RecvResult.out
  cases hout : (kcpRecv block data soc c.getBuffLeftLen).messages.flatten with
  | nil => rfl
  | cons x rest => simp

section Head

variable {c : UDPClient} {block : IKCPCB} {m : Bytes}

/-- `Recv` with the message at the head of the queue: it is handed on when it fits the
client's buffer, and otherwise blocks. -/
theorem recvKcp_head (hbuff : c.buffOffset = 0) (hconv : c.convID ≠ 0)
    (hblock : c.plugUserData = some block) (hcount : Counted block)
    (hfew : Framing.pieceCount plugMss m.length < ikcpWndRcv.toNat)
    (hhead : fragments plugMss m <+: block.rcvQueue.map piece) (data : Option Bytes)
    (soc : Socket) :
    ∃ block', (c.recvKcp data soc).client.plugUserData = some block' ∧
      (m.length ≤ 512 → Handed m block.rcvQueue (c.recvKcp data soc) block') ∧
      (512 < m.length → Stuck m (c.recvKcp data soc) block') := by
  have hleft : c.getBuffLeftLen = 512 := UDPClient.getBuffLeftLen_full hbuff
  obtain ⟨block', hclient, hfixed⟩ := recvKcp_block hblock hconv data soc
  have hqueue := hfixed.queue
  have hmessages := recvKcp_messages hblock data soc
  have hhanded := recvKcp_handed hblock data soc
  rw [hleft] at hqueue hmessages
  have hgrown := kcpRecvInput_grown hcount data soc
  have hhead' : fragments plugMss m <+:
      (kcpRecvInput block data soc).1.rcvQueue.map piece :=
    hhead.trans (hgrown.grown.map piece)
  obtain ⟨htake, hstop⟩ := drain_head hgrown.count hfew hhead' (show (0 : Int) < 512 by decide)
  refine ⟨block', hclient, ?_, ?_⟩
  · intro hfits
    obtain ⟨⟨later, hlater⟩, hremoved⟩ := htake (by omega)
    have htaken : (c.recvKcp data soc).messages = m :: later := hmessages.trans hlater
    have hleaves : Removed m (kcpRecvInput block data soc).1.rcvQueue block' := by
      unfold Removed
      rw [hqueue]
      exact hremoved
    refine ⟨⟨later, htaken⟩, hleaves.grown hgrown.grown, ?_⟩
    intro hne
    refine ⟨later.flatten, ?_⟩
    rw [hhanded, htaken, List.flatten_cons, if_neg (by simp [hne])]
  · intro hlong
    have hdrained := hstop (by omega)
    have hnone : (c.recvKcp data soc).messages = [] :=
      hmessages.trans (congrArg Drained.messages hdrained)
    refine ⟨hnone, ?_, ?_⟩
    · rw [hhanded, hnone]
      rfl
    · have hleft : block'.rcvQueue = (kcpRecvInput block data soc).1.rcvQueue :=
        hqueue.trans (congrArg (fun drained => drained.block.rcvQueue) hdrained)
      rw [hleft]
      exact hhead'

end Head

/-- In every reachable joint state a message that waits complete at the head of `rcv_queue`
is handed on by the next `Recv`, whatever that finds on the socket, exactly when it has at
most 512 bytes. A longer one stays where it is. -/
theorem handed_iff {info addr : SockaddrIn} {soc : Handle} {s : Joint}
    (h : Joint.Reachable info addr soc s) {side : UDPClientType} {c : UDPClient}
    (hc : s.client addr side = some c) (hconv : c.convID ≠ 0) {block : IKCPCB}
    (hblock : c.plugUserData = some block) {m : Bytes} (hm : m ∈ s.accepted side.other)
    (hhead : fragments plugMss m <+: block.rcvQueue.map piece) (platform : Platform)
    (data : Option Bytes) (sock : Socket) :
    ∃ r block', c.recv platform data sock = some r ∧ r.client.plugUserData = some block' ∧
      (Handed m block.rcvQueue r block' ↔ m.length ≤ 512) ∧
      (512 < m.length → Stuck m r block') := by
  have hinv := Joint.inv_of_reachable h
  have hclient := hinv.clients side c hc
  obtain ⟨block', hblock', hshort, hlong⟩ := recvKcp_head hclient.buffOffset hconv hblock
    (hclient.healthy block hblock).2 (hinv.small side.other m hm) hhead data sock
  refine ⟨_, block', UDPClient.recv_plugged hconv data sock, hblock', ⟨?_, hshort⟩, hlong⟩
  intro hhanded
  by_contra hbig
  obtain ⟨later, hlater⟩ := hhanded.message
  rw [(hlong (by omega)).messages] at hlater
  cases hlater

/-! ## Later states -/

/-- The message waits complete at the head of this client's queue. -/
def Waits (m : Bytes) (c : UDPClient) : Prop :=
  c.convID ≠ 0 ∧ ∃ block, c.plugUserData = some block ∧
    fragments plugMss m <+: block.rcvQueue.map piece

/-- What can have been called on a client with an id. -/
inductive Called (c : UDPClient) : UDPClient → Prop where
  | nothing : Called c c
  | send (payload : Bytes) : Called c (c.send payload).client
  | update (dlt : UInt32) : Called c (c.update dlt).1
  | recvKcp (data : Option Bytes) (soc : Socket) : Called c (c.recvKcp data soc).client

section Later

variable {m : Bytes}

/-- Neither sending nor the clock moves `rcv_queue`, and a `Recv` stops at the message. -/
theorem Waits.called {side : UDPClientType} {c c' : UDPClient} (h : Waits m c)
    (hc : ClientInv side c) (hfew : Framing.pieceCount plugMss m.length < ikcpWndRcv.toNat)
    (hlong : 512 < m.length) (hcalled : Called c c') : Waits m c' := by
  obtain ⟨hconv, block, hblock, hhead⟩ := h
  cases hcalled with
  | nothing => exact ⟨hconv, block, hblock, hhead⟩
  | send payload =>
      have hsame := (Kept.send c payload).convID
      obtain ⟨sent, hsent, hfixed⟩ := send_block hblock hconv payload
      exact ⟨by rwa [hsame], sent, hsent, by rwa [hfixed.queue]⟩
  | update dlt =>
      have hupdate : (c.update dlt).1.plugUserData = some (kcpUpdate block dlt).1 := by
        unfold UDPClient.update
        rw [hblock]
      have hsame := (Kept.update c dlt).convID
      have hqueue := (kcpUpdate_kept block dlt).rcvQueue
      exact ⟨by rwa [hsame], _, hupdate, by rwa [hqueue]⟩
  | recvKcp data soc =>
      have hsame := (Kept.recvKcp c data soc).convID
      obtain ⟨block', hblock', -, hstuck⟩ := recvKcp_head hc.buffOffset hconv hblock
        (hc.healthy block hblock).2 hfew hhead data soc
      exact ⟨by rwa [hsame], block', hblock', (hstuck hlong).waiting⟩

variable {s : Joint} {addr : SockaddrIn}

theorem CallResult.called {c c' : UDPClient} {sent : List Datagram} {messages : List Bytes}
    {copies : List Copy} (h : CallResult c c' sent messages copies) (hconv : c.convID ≠ 0) :
    Called c c' := by
  cases h with
  | send payload => exact .send payload
  | update dlt => exact .update dlt
  | recv hr =>
      rw [UDPClient.recv_plugged hconv] at hr
      cases hr
      exact .recvKcp _ _

/-- An action, as a side sees it once it has an id. -/
theorem act_called (h : s.Inv addr) {a : Action} (ha : s.Allowed a) {side : UDPClientType}
    {c : UDPClient} (hc : s.client addr side = some c) (hconv : c.convID ≠ 0) :
    ∃ c', (s.act addr a).client addr side = some c' ∧ Called c c' := by
  have hacts := h.act_acts ha
  generalize s.act addr a = s' at hacts
  cases hacts with
  | connect hside hcall hcopies =>
      cases side with
      | connect =>
          cases hc
          exact ⟨_, rfl, hcall.called hconv⟩
      | accept => exact ⟨c, hc, .nothing⟩
  | @accept old c' server sent messages copies hside hold hcall hentry htable hcopies =>
      cases side with
      | connect => exact ⟨c, hc, .nothing⟩
      | accept =>
          have hget : s.accepting addr = some c := hc
          rcases hold with hold | ⟨hnone, -⟩
          · rw [hold] at hget
            cases hget
            exact ⟨c', (htable (makeUniqueID addr)).trans (if_pos rfl), hcall.called hconv⟩
          · rw [hnone] at hget
            cases hget
  | undefined hside hcopies hout =>
      cases side with
      | connect => exact ⟨c, hc, .nothing⟩
      | accept => exact ⟨c, hc, .nothing⟩
  | nothing hside hnone => exact ⟨c, hc, .nothing⟩

theorem act_waits (h : s.Inv addr) {a : Action} (ha : s.Allowed a) {side : UDPClientType}
    (hfew : Framing.pieceCount plugMss m.length < ikcpWndRcv.toNat) (hlong : 512 < m.length)
    (hwaits : ∃ c, s.client addr side = some c ∧ Waits m c) :
    ∃ c, (s.act addr a).client addr side = some c ∧ Waits m c := by
  obtain ⟨c, hc, hwait⟩ := hwaits
  obtain ⟨c', hc', hcalled⟩ := act_called h ha hc hwait.1
  exact ⟨c', hc', hwait.called (h.clients side c hc) hfew hlong hcalled⟩

/-- A complete message of more than 512 bytes blocks its direction for ever: in every later
state it is still at the head of the queue, and no `Recv` hands anything on. -/
theorem waits_forever {info : SockaddrIn} {soc : Handle} (h : Joint.Reachable info addr soc s)
    {side : UDPClientType} (hwaits : ∃ c, s.client addr side = some c ∧ Waits m c)
    (hm : m ∈ s.accepted side.other) (hlong : 512 < m.length) {s' : Joint}
    (hrun : Relation.ReflTransGen (Joint.Step addr) s s') :
    ∃ c, s'.client addr side = some c ∧ Waits m c ∧
      ∀ data sock, (c.recvKcp data sock).messages = [] ∧ (c.recvKcp data sock).handed = none := by
  have hfew := (Joint.inv_of_reachable h).small side.other m hm
  have hlater : ∃ c, s'.client addr side = some c ∧ Waits m c := by
    induction hrun with
    | refl => exact hwaits
    | tail hbefore hstep ih =>
        cases hstep with
        | act a hsane ha =>
            exact act_waits (Joint.inv_of_reachable (h.trans hbefore)) ha hfew hlong ih
  obtain ⟨c, hc, hwait⟩ := hlater
  have hclient := (Joint.inv_of_reachable (h.trans hrun)).clients side c hc
  obtain ⟨hconv, block, hblock, hhead⟩ := hwait
  refine ⟨c, hc, ⟨hconv, block, hblock, hhead⟩, ?_⟩
  intro data sock
  obtain ⟨block', -, -, hstuck⟩ := recvKcp_head hclient.buffOffset hconv hblock
    (hclient.healthy block hblock).2 hfew hhead data sock
  exact ⟨(hstuck hlong).messages, (hstuck hlong).handed⟩

end Later

/-! ## Two connected clients -/

/-- The connect side sends messages and flushes at time `t`, and the accept side reads
everything that is there. -/
def sendAll (addr : SockaddrIn) (s : Joint) (messages : List Bytes) (t : UInt32) : Joint :=
  let queued := messages.foldl (fun s m => s.act addr (.connectSend m)) s
  let flushed := queued.act addr (.connectUpdate t)
  flushed.act addr (.acceptRecv (flushed.toServer.map some))

theorem of_mem_reads {l : List Datagram} {d : Datagram} (hd : some d ∈ l.map some) : d ∈ l := by
  obtain ⟨d', hmem, heq⟩ := List.mem_map.mp hd
  rw [← Option.some.inj heq]
  exact hmem

theorem acceptAll_step {addr : SockaddrIn} {s : Joint} (hsane : s.sane = true) :
    Joint.Step addr s (s.act addr (.acceptRecv (s.toServer.map some))) :=
  Joint.Step.act s _ hsane fun _ hd => of_mem_reads hd

theorem connectAll_step {addr : SockaddrIn} {s : Joint} (hsane : s.sane = true) :
    Joint.Step addr s (s.act addr (.connectRecv (s.toClient.map some))) :=
  Joint.Step.act s _ hsane fun _ hd => of_mem_reads hd

theorem sendAll_reachable {info addr : SockaddrIn} {soc : Handle} {s : Joint}
    (h : Joint.Reachable info addr soc s) (hsane : s.sane = true) (messages : List Bytes)
    (t : UInt32) : Joint.Reachable info addr soc (sendAll addr s messages t) := by
  have hqueue : ∀ (messages : List Bytes) (s : Joint), Joint.Reachable info addr soc s →
      s.sane = true →
      Joint.Reachable info addr soc
          (messages.foldl (fun s m => s.act addr (.connectSend m)) s) ∧
        (messages.foldl (fun s m => s.act addr (.connectSend m)) s).sane = true := by
    intro messages
    induction messages with
    | nil => exact fun s hs hsane => ⟨hs, hsane⟩
    | cons m messages ih =>
        intro s hs hsane
        exact ih _ (hs.tail (Joint.Step.act s (.connectSend m) hsane trivial)) hsane
  obtain ⟨hqueued, hstill⟩ := hqueue messages s h hsane
  exact (hqueued.tail (Joint.Step.act _ (.connectUpdate t) hstill trivial)).tail
    (acceptAll_step hstill)

/-- Both clients have the id. -/
def linked : Joint :=
  (answered.act peerAddr (.connectRecv [some answer])).act peerAddr (.connectUpdate 0)

theorem linked_reachable : Joint.Reachable peerAddr peerAddr 5 linked := by
  have hmem : answer ∈ answered.toClient := by decide
  have hread : answered.Allowed (.connectRecv [some answer]) := by
    intro d hd
    cases List.mem_singleton.mp hd
    exact hmem
  exact (answered_reachable.tail (Joint.Step.act answered _ rfl hread)).tail
    (Joint.Step.act _ (.connectUpdate 0) (by decide) trivial)

/-- A first message has been acknowledged, so the window is two segments wide. -/
def widened : Joint :=
  let s := (sendAll peerAddr linked [[1]] 10).act peerAddr (.acceptUpdate 0)
  s.act peerAddr (.connectRecv (s.toClient.map some))

theorem widened_reachable : Joint.Reachable peerAddr peerAddr 5 widened :=
  ((sendAll_reachable linked_reachable (by decide +kernel) [[1]] 10).tail
    (Joint.Step.act _ (.acceptUpdate 0) (by decide +kernel) trivial)).tail
    (connectAll_step (by decide +kernel))

/-- Two messages that do not fit the buffer together: the second waits. -/
def waiting : Joint :=
  sendAll peerAddr widened [List.replicate 510 0, List.replicate 10 0] 20

/-- The message is handed on by the next `Recv`. -/
theorem handed_waiting :
    ∃ c block r block', waiting.accepting peerAddr = some c ∧ c.plugUserData = some block ∧
      fragments plugMss (List.replicate 10 0) <+: block.rcvQueue.map piece ∧
      c.recv .linux none [] = some r ∧ Handed (List.replicate 10 0) block.rcvQueue r block' := by
  have hwaits : ∃ c ∈ waiting.accepting peerAddr, c.convID ≠ 0 ∧ ∃ block ∈ c.plugUserData,
      fragments plugMss (List.replicate 10 0) <+: block.rcvQueue.map piece := by decide +kernel
  have haccepted : List.replicate 10 0 ∈ waiting.accepted .connect := by decide +kernel
  have hreach : Joint.Reachable peerAddr peerAddr 5 waiting :=
    sendAll_reachable widened_reachable (by decide +kernel) _ 20
  obtain ⟨c, hc, hconv, block, hblock, hhead⟩ := hwaits
  have hclient : waiting.client peerAddr .accept = some c := hc
  obtain ⟨r, block', hr, -, hiff, -⟩ :=
    handed_iff hreach hclient hconv hblock haccepted hhead .linux none []
  exact ⟨c, block, r, block', hc, hblock, hhead, hr, hiff.mpr (by decide)⟩

/-- A message one byte too long for the buffer. -/
def longMessage : Bytes := List.replicate 513 0

/-- It is accepted, arrives and is complete, and then stays at the head of the queue. -/
theorem handed_longMessage :
    ∃ s c block, Joint.Reachable peerAddr peerAddr 5 s ∧ s.client peerAddr .accept = some c ∧
      c.convID ≠ 0 ∧ c.plugUserData = some block ∧ longMessage ∈ s.accepted .connect ∧
      fragments plugMss longMessage <+: block.rcvQueue.map piece ∧
      ∃ r block', c.recv .linux none [] = some r ∧ r.client.plugUserData = some block' ∧
        Stuck longMessage r block' ∧ ¬ Handed longMessage block.rcvQueue r block' := by
  have hwaits : ∃ c ∈ (sendAll peerAddr linked [longMessage] 10).accepting peerAddr,
      c.convID ≠ 0 ∧ ∃ block ∈ c.plugUserData,
        fragments plugMss longMessage <+: block.rcvQueue.map piece := by decide +kernel
  have haccepted : longMessage ∈ (sendAll peerAddr linked [longMessage] 10).accepted .connect := by
    decide +kernel
  have hreach : Joint.Reachable peerAddr peerAddr 5 (sendAll peerAddr linked [longMessage] 10) :=
    sendAll_reachable linked_reachable (by decide +kernel) _ 10
  obtain ⟨c, hc, hconv, block, hblock, hhead⟩ := hwaits
  have hinv := Joint.inv_of_reachable hreach
  have hclient := hinv.clients .accept c hc
  obtain ⟨block', hblock', -, hstuck⟩ := recvKcp_head hclient.buffOffset hconv hblock
    (hclient.healthy block hblock).2 (hinv.small .connect longMessage haccepted) hhead none []
  have hlong : 512 < longMessage.length := by
    rw [longMessage, List.length_replicate]
    decide
  refine ⟨_, c, block, hreach, hc, hconv, hblock, haccepted, hhead, _, block',
    UDPClient.recv_plugged hconv none [], hblock', hstuck hlong, ?_⟩
  intro hhanded
  obtain ⟨later, hlater⟩ := hhanded.message
  rw [(hstuck hlong).messages] at hlater
  cases hlater

end UdpKcp.Wheel
