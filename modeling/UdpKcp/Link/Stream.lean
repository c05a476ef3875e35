import UdpKcp.Ikcp.Outbox
import UdpKcp.Link.Delivery
import UdpKcp.Memory.Queues
import UdpKcp.Plug.SendRing

/-! # Stream mode

With `kcp->stream` set, `ikcp_send` fills up the last queued segment and numbers no
fragments. What leaves is then what a block outside stream mode would send, given the
segments as messages at the moment the window opens for them.
-/

namespace UdpKcp.Link.Stream

open ByteCodec (Bytes)
open SelectiveRepeat (Side)
open Ikcp Plug
open Memory (sendOutcome cutRest)

/-! ## Two ends in stream mode or not -/

/-- The bytes of `buffer` that `ikcp_send` queues. When it fails in stream mode, what
went into the last queued segment stays there. -/
def sendTaken (kcp : IKCPCB) (buffer : Bytes) : Bytes :=
  if (sendOutcome kcp buffer buffer.length).2 = 0 then buffer
  else if kcp.stream = 0 then []
  else buffer.take (buffer.length - (extendLast kcp buffer).2.length)

/-- A block with the bytes that `ikcp_send` has taken, the payloads that have left
`snd_queue` and what `ikcp_recv` has returned inside `KcpRecv`. -/
structure End where
  kcp : IKCPCB
  taken : Bytes
  opened : List Bytes
  returned : List Bytes

/-- A new block of the plug whose application sets `kcp->stream`. -/
def End.start (conv : UInt32) (mode : Int) : End where
  kcp := { newKcpPlugControlBlock conv with stream := mode }
  taken := []
  opened := []
  returned := []

def End.send (e : End) (payload : Bytes) : End :=
  { e with
    kcp := (sendOutcome e.kcp payload payload.length).1
    taken := e.taken ++ sendTaken e.kcp payload }

def End.update (e : End) (dlt : UInt32) : End :=
  let kcp := (kcpUpdate e.kcp dlt).1
  let gone := e.kcp.sndQueue.take (e.kcp.sndQueue.length - kcp.sndQueue.length)
  { e with kcp := kcp, opened := e.opened ++ gone.map (·.data) }

/-- `KcpRecv` with an input datagram or none, and datagrams waiting on the socket. -/
def End.recv (e : End) (input : Option Bytes) (pending : List Bytes) (maxlen : Int) : End :=
  { e with
    kcp := (kcpRecv e.kcp input (pending.map some) maxlen).block
    returned := e.returned ++ (kcpRecv e.kcp input (pending.map some) maxlen).messages }

instance : PlugEnd End where
  send := End.send
  update := End.update
  emitted := fun e dlt => (kcpUpdate e.kcp dlt).2
  recv := End.recv

abbrev State := Network End

def State.start (conv : UInt32) (mode : Side → Int) : State where
  ep := fun side => End.start conv (mode side)
  net := fun _ => []

def Reachable (conv : UInt32) (mode : Side → Int) : State → Prop :=
  Relation.ReflTransGen Step (State.start conv mode)

/-! ## Cutting a stream -/

/-- What `ikcp_send` queues in stream mode. -/
structure Chunk (mss : ℕ) (seg : IKCPSEG) : Prop where
  plain : seg = { frg := 0, data := seg.data }
  pos : 0 < seg.data.length
  fits : seg.data.length ≤ mss

/-- The bytes of a queue, in order. -/
def bytesOf (segs : List IKCPSEG) : Bytes := segs.flatMap (·.data)

theorem bytesOf_append (xs ys : List IKCPSEG) : bytesOf (xs ++ ys) = bytesOf xs ++ bytesOf ys :=
  List.flatMap_append

theorem sendFragments_chunks {mss : ℕ} {stream : Int} (hstream : stream ≠ 0) {count : ℕ}
    {buffer : Bytes} (hcovers : buffer.length ≤ count * mss)
    (htight : count * mss < buffer.length + mss) :
    (∀ seg ∈ sendFragments mss stream count buffer, Chunk mss seg) ∧
      bytesOf (sendFragments mss stream count buffer) = buffer := by
  induction count generalizing buffer with
  | zero =>
      have hnil : buffer = [] := List.eq_nil_of_length_eq_zero (by omega)
      rw [hnil]
      exact ⟨List.forall_mem_nil _, rfl⟩
  | succ count ih =>
      rw [Nat.succ_mul] at hcovers htight
      let size := if buffer.length > mss then mss else buffer.length
      have hsize : 0 < size ∧ size ≤ mss ∧ size ≤ buffer.length ∧
          buffer.length - size ≤ count * mss ∧ count * mss < buffer.length - size + mss := by
        dsimp only [size]
        split <;> omega
      obtain ⟨hpos, hfits, hlen, hcovers', htight'⟩ := hsize
      rw [← List.length_drop] at hcovers' htight'
      obtain ⟨hchunks, hbytes⟩ := ih hcovers' htight'
      have hcons : sendFragments mss stream (count + 1) buffer =
          { frg := 0, data := buffer.take size } ::
            sendFragments mss stream count (buffer.drop size) := by
        rw [sendFragments, if_neg hstream]
      have htake : (buffer.take size).length = size := List.length_take_of_le hlen
      rw [hcons]
      constructor
      · have hhead : Chunk mss { frg := 0, data := buffer.take size } := by
          constructor
          · rfl
          · rwa [htake]
          · rwa [htake]
        exact List.forall_mem_cons.mpr ⟨hhead, hchunks⟩
      · show buffer.take size ++ bytesOf _ = buffer
        rw [hbytes, List.take_append_drop]

section Cutting

variable {kcp : IKCPCB} (hcut : ∀ seg ∈ kcp.sndQueue, Chunk kcp.mss.toNat seg)

include hcut

/-- Filling up the last segment moves the front of the buffer to the queue. -/
theorem extendLast_chunks (buffer : Bytes) :
    (∀ seg ∈ (extendLast kcp buffer).1, Chunk kcp.mss.toNat seg) ∧
      ∃ taken, bytesOf (extendLast kcp buffer).1 = bytesOf kcp.sndQueue ++ taken ∧
        taken ++ (extendLast kcp buffer).2 = buffer := by
  cases hlast : kcp.sndQueue.getLast? with
  | none =>
      have hext : extendLast kcp buffer = (kcp.sndQueue, buffer) := by
        unfold extendLast
        rw [hlast]
      rw [hext]
      exact ⟨hcut, [], (List.append_nil _).symm, rfl⟩
  | some old =>
      obtain ⟨front, hqueue⟩ := List.getLast?_eq_some_iff.mp hlast
      by_cases hroom : old.data.length < kcp.mss.toNat
      · let extend :=
          if buffer.length < kcp.mss.toNat - old.data.length then buffer.length
          else kcp.mss.toNat - old.data.length
        have hext : extendLast kcp buffer =
            (front ++ [{ frg := 0, data := old.data ++ buffer.take extend }],
              buffer.drop extend) := by
          unfold extendLast
          rw [hlast]
          dsimp only
          rw [if_pos hroom, hqueue, List.dropLast_concat]
        have hold : Chunk kcp.mss.toNat old := hcut old (by simp [hqueue])
        have hfits : (old.data ++ buffer.take extend).length ≤ kcp.mss.toNat := by
          rw [List.length_append, List.length_take]
          dsimp only [extend]
          split <;> omega
        have hpos : 0 < (old.data ++ buffer.take extend).length := by
          have hsome := hold.pos
          rw [List.length_append]
          omega
        rw [hext]
        refine ⟨?_, buffer.take extend, ?_, List.take_append_drop _ _⟩
        · intro seg hseg
          rcases List.mem_append.mp hseg with hfront | hnew
          · exact hcut seg (by simp [hqueue, hfront])
          · rw [List.mem_singleton.mp hnew]
            exact ⟨rfl, hpos, hfits⟩
        · rw [hqueue, bytesOf_append, bytesOf_append]
          simp [bytesOf]
      · have hext : extendLast kcp buffer = (kcp.sndQueue, buffer) := by
          unfold extendLast
          rw [hlast]
          dsimp only
          rw [if_neg hroom]
        rw [hext]
        exact ⟨hcut, [], (List.append_nil _).symm, rfl⟩

/-- `ikcp_send` in stream mode puts the bytes it takes at the end of the queue. -/
theorem sendOutcome_chunks (hstream : kcp.stream ≠ 0) (hmss : 0 < kcp.mss.toNat)
    (buffer : Bytes) :
    ∃ o : Outbox, (sendOutcome kcp buffer buffer.length).1 = o.into kcp ∧
      o.stream = kcp.stream ∧ (∀ seg ∈ o.queue, Chunk kcp.mss.toNat seg) ∧
      bytesOf o.queue = bytesOf kcp.sndQueue ++ sendTaken kcp buffer := by
  obtain ⟨hchunks, taken, hkept, hbuffer⟩ := extendLast_chunks hcut buffer
  have houtcome : sendOutcome kcp buffer buffer.length =
      cutRest { kcp with sndQueue := (extendLast kcp buffer).1 } (extendLast kcp buffer).2 := by
    unfold sendOutcome
    rw [if_neg (by omega), if_pos hstream, Int.toNat_natCast, List.take_length]
  have htake : buffer.take (buffer.length - (extendLast kcp buffer).2.length) = taken := by
    have hlen := congrArg List.length hbuffer
    rw [List.length_append] at hlen
    have hsub : buffer.length - (extendLast kcp buffer).2.length = taken.length := by omega
    rw [hsub]
    exact (List.prefix_iff_eq_take.mp ⟨_, hbuffer⟩).symm
  have hfail : (-2 : Int) ≠ 0 := by decide
  unfold sendTaken
  rw [houtcome, htake]
  unfold cutRest
  dsimp only
  by_cases hdone : (extendLast kcp buffer).2.length = 0
  · rw [List.eq_nil_of_length_eq_zero hdone, List.append_nil] at hbuffer
    rw [if_pos ⟨hstream, hdone⟩, if_pos rfl, ← hbuffer]
    exact ⟨⟨_, kcp.nsndQue, kcp.stream⟩, rfl, rfl, hbuffer ▸ hchunks, hbuffer ▸ hkept⟩
  · have hpos : 0 < (extendLast kcp buffer).2.length := Nat.pos_of_ne_zero hdone
    rw [if_neg fun h => hdone h.2]
    by_cases hmany : sendCount kcp.mss.toNat (extendLast kcp buffer).2.length ≥ ikcpWndRcv.toNat
    · rw [if_pos hmany, if_neg hfail, if_neg hstream]
      exact ⟨⟨_, kcp.nsndQue, kcp.stream⟩, rfl, rfl, hchunks, hkept⟩
    · have hcount : 0 < sendCount kcp.mss.toNat (extendLast kcp buffer).2.length :=
        Framing.pieceCount_pos hmss _
      obtain ⟨hrest, hbytes⟩ := sendFragments_chunks hstream
        (Framing.pieceCount_covers hmss (extendLast kcp buffer).2.length)
        (Framing.pieceCount_tight hpos)
      rw [if_neg hmany, if_pos rfl, if_neg (Nat.ne_of_gt hcount)]
      refine ⟨⟨_, kcp.nsndQue + sendCount kcp.mss.toNat (extendLast kcp buffer).2.length,
        kcp.stream⟩, rfl, rfl, List.forall_mem_append.mpr ⟨hchunks, hrest⟩, ?_⟩
      dsimp only
      rw [bytesOf_append, hkept, List.append_assoc]
      conv_rhs => rw [← hbuffer]
      exact congrArg (fun rest => bytesOf kcp.sndQueue ++ (taken ++ rest)) hbytes

end Cutting

/-! ## The plug under another outbox -/

section Outbox

variable (o : Outbox)

theorem recvLoop_into (kcp : IKCPCB) (soc : Socket) :
    recvLoop (o.into kcp) soc = (o.into (recvLoop kcp soc).1, (recvLoop kcp soc).2) := by
  induction soc generalizing kcp with
  | nil => rfl
  | cons read soc ih =>
      cases read with
      | none => rfl
      | some d =>
          unfold recvLoop
          dsimp only
          rw [o.ikcpInput_into, ih]
          split <;> rfl

theorem kcpRecvInput_into (kcp : IKCPCB) (input : Option Bytes) (soc : Socket) :
    kcpRecvInput (o.into kcp) input soc =
      (o.into (kcpRecvInput kcp input soc).1, (kcpRecvInput kcp input soc).2) := by
  unfold kcpRecvInput
  cases input with
  | none => exact recvLoop_into o kcp soc
  | some data =>
      dsimp only
      rw [o.ikcpInput_into]
      split <;> exact recvLoop_into o _ soc

theorem drainLoop_into (fuel : ℕ) (kcp : IKCPCB) (maxlen : Int) :
    drainLoop fuel (o.into kcp) maxlen =
      { block := o.into (drainLoop fuel kcp maxlen).block
        messages := (drainLoop fuel kcp maxlen).messages } := by
  induction fuel generalizing kcp maxlen with
  | zero => rfl
  | succ fuel ih =>
      unfold drainLoop
      by_cases hlen : maxlen > 0
      · rw [if_pos hlen, if_pos hlen, o.ikcpRecv_into kcp (Int.le_of_lt hlen)]
        cases hrecv : ikcpRecv kcp maxlen with
        | error code => rfl
        | ok res =>
            dsimp only [Except.map]
            rw [ih]
      · rw [if_neg hlen, if_neg hlen]

theorem kcpRecv_into (kcp : IKCPCB) (input : Option Bytes) (soc : Socket) (maxlen : Int) :
    kcpRecv (o.into kcp) input soc maxlen =
      { kcpRecv kcp input soc maxlen with
        block := o.into (kcpRecv kcp input soc maxlen).block } := by
  unfold kcpRecv drain
  dsimp only
  rw [kcpRecvInput_into]
  dsimp only
  rw [drainLoop_into]
  rfl

/-- `KcpRecv` leaves the outbox alone. -/
theorem kcpRecv_own (kcp : IKCPCB) (input : Option Bytes) (soc : Socket) (maxlen : Int) :
    Outbox.own (kcpRecv kcp input soc maxlen).block = Outbox.own kcp :=
  congrArg (fun r => Outbox.own r.block) (kcpRecv_into (Outbox.own kcp) kcp input soc maxlen)

end Outbox

/-! ## The end outside stream mode that an end stands for -/

/-- An end outside stream mode stands for itself. -/
structure Plain (e : End) (m : Endpoint) : Prop where
  stream : e.kcp.stream = 0
  block : m.kcp = e.kcp
  taken : e.taken = m.accepted.flatten
  returned : e.returned = m.returned
  count : m.stream.length = e.opened.length + e.kcp.sndQueue.length

/-- In stream mode a segment counts as a message once it has left `snd_queue`. -/
structure Chunked (e : End) (m : Endpoint) : Prop where
  stream : e.kcp.stream ≠ 0
  block : m.kcp = Outbox.empty.into e.kcp
  held : ∀ seg ∈ e.kcp.sndQueue, Chunk plugMss seg
  taken : e.taken = m.accepted.flatten ++ bytesOf e.kcp.sndQueue
  opened : e.opened = m.accepted
  chunks : ∀ bytes ∈ m.accepted, 0 < bytes.length ∧ bytes.length ≤ plugMss
  returned : e.returned = m.returned

def Stands (e : End) (m : Endpoint) : Prop := Plain e m ∨ Chunked e m

/-- Outside stream mode `KcpSend` is the call of `ikcp_send`. -/
theorem kcpSend_outcome {kcp : IKCPCB} (hstream : kcp.stream = 0) (buffer : Bytes) (len : Int) :
    kcpSend kcp buffer len = sendOutcome kcp buffer len := by
  unfold kcpSend
  rw [Memory.sendOutcome_ikcpSend]
  by_cases hok : (sendOutcome kcp buffer len).2 = 0
  · rw [if_pos hok]
    exact Prod.ext rfl hok.symm
  · rw [if_neg hok]
    exact Prod.ext (Memory.sendOutcome_failed hstream hok).symm rfl

theorem newBlock_into (conv : UInt32) :
    newKcpPlugControlBlock conv = Outbox.empty.into (newKcpPlugControlBlock conv) := by
  have hown : Outbox.own (newKcpPlugControlBlock conv) = Outbox.empty := rfl
  rw [← hown, Outbox.own_into]

theorem stands_start (conv : UInt32) (mode : Int) :
    Stands (End.start conv mode) (Endpoint.start conv) := by
  unfold End.start Endpoint.start
  rw [newBlock_into]
  generalize newKcpPlugControlBlock conv = kcp
  by_cases hmode : mode = 0
  · subst hmode
    exact Or.inl ⟨rfl, rfl, rfl, rfl, rfl⟩
  · exact Or.inr ⟨hmode, rfl, List.forall_mem_nil _, rfl, rfl, List.forall_mem_nil _, rfl⟩

/-! ## Steps -/

section Ends

variable {conv : UInt32} {e : End} {m : Endpoint}

theorem Plain.send (h : Plain e m) (hsound : Sound conv m.kcp) (payload : Bytes) :
    Plain (e.send payload) (m.send payload) := by
  have hmss := hsound.mss_toNat
  have hcall := kcpSend_message hsound.stream_eq (by rw [hmss]; decide) payload
  have hcall' : kcpSend m.kcp payload payload.length =
      sendOutcome e.kcp payload payload.length := by
    rw [h.block, kcpSend_outcome h.stream]
  have hfail : (-2 : Int) ≠ 0 := by decide
  rw [hcall'] at hcall
  unfold End.send Endpoint.send sendTaken
  rw [hcall']
  by_cases hfew : Framing.pieceCount m.kcp.mss.toNat payload.length < ikcpWndRcv.toNat
  · rw [if_pos hfew] at hcall
    rw [hcall]
    dsimp only
    rw [if_pos rfl, if_pos rfl]
    refine ⟨?_, rfl, ?_, h.returned, ?_⟩
    · exact hsound.stream_eq
    · rw [h.taken, List.flatten_append]
      simp
    · have hcount := h.count
      unfold Endpoint.stream at hcount ⊢
      have hlen : (framed [payload]).length =
          Framing.pieceCount m.kcp.mss.toNat payload.length := by
        rw [hmss]
        simp [framed, Framing.fragments]
      unfold queueMessage
      dsimp only
      rw [framed_append, List.length_append, List.length_append, hcount, hlen,
        sendFragments_length, h.block, Nat.add_assoc]
  · rw [if_neg hfew] at hcall
    rw [hcall]
    dsimp only
    rw [if_neg hfail, if_neg hfail, if_pos h.stream, List.append_nil, h.block]
    exact ⟨h.stream, rfl, h.taken, h.returned, h.count⟩

theorem Plain.update (h : Plain e m) (dlt : UInt32) : Plain (e.update dlt) (m.update dlt) := by
  obtain ⟨k, hle, hwhole, -⟩ := (Outbox.own e.kcp).ikcpUpdate_into e.kcp dlt
  have hown := congrArg (fun r => Outbox.own r.1) hwhole
  have hstream : (kcpUpdate e.kcp dlt).1.stream = e.kcp.stream := congrArg Outbox.stream hown
  have hqueue : (kcpUpdate e.kcp dlt).1.sndQueue = e.kcp.sndQueue.drop k :=
    congrArg Outbox.queue hown
  refine ⟨hstream.trans h.stream, ?_, h.taken, h.returned, ?_⟩
  · show (kcpUpdate m.kcp dlt).1 = _
    rw [h.block]
    rfl
  · show m.stream.length = (e.opened ++ _).length + (kcpUpdate e.kcp dlt).1.sndQueue.length
    have hk : k ≤ e.kcp.sndQueue.length := hle
    rw [h.count, hqueue, List.length_append, List.length_map, List.length_take, List.length_drop]
    omega

theorem Plain.recv (h : Plain e m) (input : Option Bytes) (pending : List Bytes) (maxlen : Int) :
    Plain (e.recv input pending maxlen) (m.recv input pending maxlen) := by
  have hown := kcpRecv_own e.kcp input (pending.map some) maxlen
  have hstream : (e.recv input pending maxlen).kcp.stream = e.kcp.stream :=
    congrArg Outbox.stream hown
  have hqueue : (e.recv input pending maxlen).kcp.sndQueue = e.kcp.sndQueue :=
    congrArg Outbox.queue hown
  have hblock : kcpRecv m.kcp input (pending.map some) maxlen =
      kcpRecv e.kcp input (pending.map some) maxlen := by
    rw [h.block]
  constructor
  · rw [hstream, h.stream]
  · exact congrArg RecvResult.block hblock
  · exact h.taken
  · show e.returned ++ _ = m.returned ++ _
    rw [h.returned, hblock]
  · rw [hqueue]
    exact h.count

/-- Data that joins the queue has not been sent yet. -/
theorem Chunked.send (h : Chunked e m) (hsound : Sound conv m.kcp) (payload : Bytes) :
    Chunked (e.send payload) m := by
  have hmss : e.kcp.mss.toNat = plugMss := by
    have hmss := hsound.mss_toNat
    rwa [h.block] at hmss
  have hpos : 0 < e.kcp.mss.toNat := by
    rw [hmss]
    decide
  have hheld := h.held
  rw [← hmss] at hheld
  obtain ⟨o, hkcp, hstream, hchunks, hbytes⟩ :=
    sendOutcome_chunks hheld h.stream hpos payload
  have hsent : (e.send payload).kcp = o.into e.kcp := hkcp
  have hqueue : (e.send payload).kcp.sndQueue = o.queue := by
    rw [hsent]
    rfl
  constructor
  · rw [hsent]
    exact hstream.trans_ne h.stream
  · rw [hsent, h.block]
    rfl
  · rw [hqueue, ← hmss]
    exact hchunks
  · rw [hqueue, hbytes, ← List.append_assoc, ← h.taken]
    rfl
  · exact h.opened
  · exact h.chunks
  · exact h.returned

/-- Chunks given as messages are queued as they are. -/
theorem send_chunks {kcp : IKCPCB} (hmss : kcp.mss.toNat = plugMss) {segs : List IKCPSEG}
    (hcut : ∀ seg ∈ segs, Chunk plugMss seg) (queue : List IKCPSEG) (count : ℕ)
    (accepted returned : List Bytes) :
    (segs.map (·.data)).foldl Endpoint.send
        { kcp := Outbox.into ⟨queue, count, 0⟩ kcp, accepted := accepted, returned := returned } =
      { kcp := Outbox.into ⟨queue ++ segs, count + segs.length, 0⟩ kcp
        accepted := accepted ++ segs.map (·.data)
        returned := returned } := by
  induction segs generalizing queue count accepted with
  | nil => simp
  | cons seg segs ih =>
      have hseg : Chunk plugMss seg := hcut seg List.mem_cons_self
      have hone : Framing.pieceCount plugMss seg.data.length = 1 := if_pos hseg.fits
      have hfragment : sendFragments plugMss 0 1 seg.data = [seg] := by
        have hsize : ¬ seg.data.length > plugMss := Nat.not_lt.mpr hseg.fits
        rw [sendFragments, sendFragments, if_neg hsize, List.take_length]
        exact congrArg (fun s => [s]) hseg.plain.symm
      have hpos : 0 < (Outbox.into ⟨queue, count, 0⟩ kcp).mss.toNat := by
        show 0 < kcp.mss.toNat
        rw [hmss]
        decide
      have hqueued : queueMessage (Outbox.into ⟨queue, count, 0⟩ kcp) seg.data =
          Outbox.into ⟨queue ++ [seg], count + 1, 0⟩ kcp := by
        have hmss' : (Outbox.into ⟨queue, count, 0⟩ kcp).mss.toNat = plugMss := hmss
        unfold queueMessage
        rw [hmss', hone, hfragment]
        rfl
      have hsend : kcpSend (Outbox.into ⟨queue, count, 0⟩ kcp) seg.data seg.data.length =
          (Outbox.into ⟨queue ++ [seg], count + 1, 0⟩ kcp, 0) := by
        have hfew : Framing.pieceCount (Outbox.into ⟨queue, count, 0⟩ kcp).mss.toNat
            seg.data.length < ikcpWndRcv.toNat := by
          show Framing.pieceCount kcp.mss.toNat _ < _
          rw [hmss, hone]
          decide
        rw [kcpSend_message rfl hpos, if_pos hfew, hqueued]
      have hstep : Endpoint.send
          { kcp := Outbox.into ⟨queue, count, 0⟩ kcp, accepted := accepted, returned := returned }
          seg.data =
          { kcp := Outbox.into ⟨queue ++ [seg], count + 1, 0⟩ kcp
            accepted := accepted ++ [seg.data]
            returned := returned } := by
        unfold Endpoint.send
        rw [hsend]
        rfl
      rw [List.map_cons, List.foldl_cons, hstep,
        ih (fun s hs => hcut s (List.mem_cons_of_mem _ hs)), List.append_assoc,
        List.append_assoc, Nat.add_assoc, Nat.add_comm 1]
      rfl

/-- The chunks that an update opens, given as messages just before it. -/
theorem Chunked.update (h : Chunked e m) (hsound : Sound conv m.kcp) (dlt : UInt32) :
    ∃ chunks : List Bytes,
      Chunked (e.update dlt) ((chunks.foldl Endpoint.send m).update dlt) ∧
      (kcpUpdate (chunks.foldl Endpoint.send m).kcp dlt).2 = (kcpUpdate e.kcp dlt).2 := by
  have hmss : e.kcp.mss.toNat = plugMss := by
    have hmss := hsound.mss_toNat
    rwa [h.block] at hmss
  obtain ⟨k, hle, hwhole, hempty⟩ := (Outbox.own e.kcp).ikcpUpdate_into e.kcp dlt
  rw [Outbox.own_into] at hwhole
  have hk : k ≤ e.kcp.sndQueue.length := hle
  have hblock : (ikcpUpdate (((Outbox.own e.kcp).front k).into e.kcp) dlt).1 =
      Outbox.empty.into (ikcpUpdate e.kcp dlt).1 := by
    rw [hwhole, Outbox.into_into]
    exact hempty
  have hfront : ∀ seg ∈ e.kcp.sndQueue.take k, Chunk plugMss seg :=
    fun seg hseg => h.held seg (List.mem_of_mem_take hseg)
  have hqueue : (kcpUpdate e.kcp dlt).1.sndQueue = e.kcp.sndQueue.drop k :=
    congrArg (fun r => r.1.sndQueue) hwhole
  have hstream : (kcpUpdate e.kcp dlt).1.stream = e.kcp.stream :=
    congrArg (fun r => r.1.stream) hwhole
  have hgone : e.kcp.sndQueue.take
      (e.kcp.sndQueue.length - (kcpUpdate e.kcp dlt).1.sndQueue.length) =
      e.kcp.sndQueue.take k := by
    rw [hqueue, List.length_drop, Nat.sub_sub_self hk]
  have hgiven : ((e.kcp.sndQueue.take k).map (·.data)).foldl Endpoint.send m =
      { kcp := ((Outbox.own e.kcp).front k).into e.kcp
        accepted := m.accepted ++ (e.kcp.sndQueue.take k).map (·.data)
        returned := m.returned } := by
    have hm : m = { kcp := Outbox.into ⟨[], 0, 0⟩ e.kcp
                    accepted := m.accepted
                    returned := m.returned } := by
      rw [← show m.kcp = Outbox.into ⟨[], 0, 0⟩ e.kcp from h.block]
    have hsend := send_chunks hmss hfront [] 0 m.accepted m.returned
    rw [← hm, List.nil_append, Nat.zero_add, List.length_take_of_le hk] at hsend
    exact hsend
  refine ⟨(e.kcp.sndQueue.take k).map (·.data), ?_, ?_⟩
  · rw [hgiven]
    constructor
    · exact hstream.trans_ne h.stream
    · exact hblock
    · show ∀ seg ∈ (kcpUpdate e.kcp dlt).1.sndQueue, _
      rw [hqueue]
      exact fun seg hseg => h.held seg (List.mem_of_mem_drop hseg)
    · show e.taken = (m.accepted ++ (e.kcp.sndQueue.take k).map (·.data)).flatten ++
        bytesOf (kcpUpdate e.kcp dlt).1.sndQueue
      rw [h.taken, hqueue, List.flatten_append, List.append_assoc, ← List.flatMap_def]
      conv_lhs => rw [← List.take_append_drop k e.kcp.sndQueue, bytesOf_append]
      rfl
    · show e.opened ++ _ = m.accepted ++ _
      rw [h.opened, hgone]
    · intro bytes hbytes
      rcases List.mem_append.mp hbytes with hold | hnew
      · exact h.chunks bytes hold
      · obtain ⟨seg, hseg, rfl⟩ := List.mem_map.mp hnew
        exact ⟨(hfront seg hseg).pos, (hfront seg hseg).fits⟩
    · exact h.returned
  · rw [hgiven]
    exact (congrArg Prod.snd hwhole).symm

theorem Chunked.recv (h : Chunked e m) (input : Option Bytes) (pending : List Bytes)
    (maxlen : Int) :
    Chunked (e.recv input pending maxlen) (m.recv input pending maxlen) := by
  have hown := kcpRecv_own e.kcp input (pending.map some) maxlen
  have hstream : (e.recv input pending maxlen).kcp.stream = e.kcp.stream :=
    congrArg Outbox.stream hown
  have hqueue : (e.recv input pending maxlen).kcp.sndQueue = e.kcp.sndQueue :=
    congrArg Outbox.queue hown
  have hblock := kcpRecv_into Outbox.empty e.kcp input (pending.map some) maxlen
  rw [← h.block] at hblock
  constructor
  · rw [hstream]
    exact h.stream
  · exact congrArg RecvResult.block hblock
  · rw [hqueue]
    exact h.held
  · rw [hqueue]
    exact h.taken
  · exact h.opened
  · exact h.chunks
  · show e.returned ++ _ = m.returned ++ _
    rw [h.returned, hblock]

theorem Stands.recv (h : Stands e m) (input : Option Bytes) (pending : List Bytes)
    (maxlen : Int) : Stands (e.recv input pending maxlen) (m.recv input pending maxlen) :=
  h.imp (fun hplain => hplain.recv input pending maxlen)
    fun hchunked => hchunked.recv input pending maxlen

/-- Whether in stream mode or not, a call of `ikcp_send` is at most a message given to
the other end. -/
theorem Stands.send (h : Stands e m) (hsound : Sound conv m.kcp) (payload : Bytes) :
    ∃ messages : List Bytes,
      Stands (e.send payload) (messages.foldl Endpoint.send m) := by
  rcases h with hplain | hchunked
  · exact ⟨[payload], Or.inl (hplain.send hsound payload)⟩
  · exact ⟨[], Or.inr (hchunked.send hsound payload)⟩

theorem Stands.update (h : Stands e m) (hsound : Sound conv m.kcp) (dlt : UInt32) :
    ∃ messages : List Bytes,
      Stands (e.update dlt) ((messages.foldl Endpoint.send m).update dlt) ∧
      (kcpUpdate (messages.foldl Endpoint.send m).kcp dlt).2 = (kcpUpdate e.kcp dlt).2 := by
  rcases h with hplain | hchunked
  · exact ⟨[], Or.inl (hplain.update dlt), by rw [List.foldl_nil, hplain.block]⟩
  · obtain ⟨chunks, hstands, hsent⟩ := hchunked.update hsound dlt
    exact ⟨chunks, Or.inr hstands, hsent⟩

end Ends

/-! ## Runs -/

/-- The same datagrams are in flight, and every end stands for its counterpart. -/
structure Matches (s : State) (t : Link.State) : Prop where
  ends : ∀ side, Stands (s.ep side) (t.ep side)
  net : s.net = t.net

theorem ends_update {ep : Side → End} {ep' : Side → Endpoint} {side : Side} {e : End}
    {m : Endpoint} (h : Stands e m) (hall : ∀ other, Stands (ep other) (ep' other)) :
    ∀ other, Stands (Function.update ep side e other) (Function.update ep' side m other) := by
  intro other
  by_cases hside : other = side
  · subst hside
    rwa [Function.update_self, Function.update_self]
  · rw [Function.update_of_ne hside, Function.update_of_ne hside]
    exact hall other

/-- Messages given to one side one after the other. -/
theorem reachable_sends {conv : UInt32} {t : Link.State} (h : Link.Reachable conv t) (side : Side)
    (messages : List Bytes) :
    Link.Reachable conv
      { t with
        ep := Function.update t.ep side (messages.foldl Endpoint.send (t.ep side)) } := by
  induction messages generalizing t with
  | nil =>
      rw [List.foldl_nil, Function.update_eq_self]
      exact h
  | cons message messages ih =>
      have hrest := ih (h.tail (Step.send t side message))
      unfold Network.send at hrest
      dsimp only at hrest
      rw [Function.update_self, Function.update_idem] at hrest
      exact hrest

/-- Every step is followed by a run of two ends outside stream mode. -/
theorem step_matched {conv : UInt32} {s s' : State} (hstep : Step s s') {t : Link.State}
    (hreach : Link.Reachable conv t) (h : Matches s t) :
    ∃ t', Link.Reachable conv t' ∧ Matches s' t' := by
  have hsound := sound_of_reachable hreach
  cases hstep with
  | send side payload =>
      obtain ⟨messages, hstands⟩ := (h.ends side).send (hsound side) payload
      exact ⟨_, reachable_sends hreach side messages, ends_update hstands h.ends, h.net⟩
  | update side dlt =>
      obtain ⟨messages, hstands, hsent⟩ := (h.ends side).update (hsound side) dlt
      have hgiven := reachable_sends hreach side messages
      have hnet : (kcpUpdate (messages.foldl Endpoint.send (t.ep side)).kcp dlt).2 =
          PlugEnd.emitted (s.ep side) dlt := hsent
      refine ⟨_, hgiven.tail (Step.update _ side dlt), ?_, ?_⟩
      · unfold Network.update
        dsimp only
        rw [Function.update_self, Function.update_idem]
        exact ends_update hstands h.ends
      · unfold Network.update
        dsimp only
        rw [Function.update_self, ← hnet, h.net]
        rfl
  | recv side input pending rest maxlen hnet =>
      rw [h.net] at hnet
      refine ⟨_, hreach.tail (Step.recv t side input pending rest maxlen hnet), ?_, ?_⟩
      · exact ends_update ((h.ends side).recv input pending maxlen) h.ends
      · exact congrArg (Function.update · side.other rest) h.net
  | drop side d rest hnet =>
      rw [h.net] at hnet
      exact ⟨_, hreach.tail (Step.drop t side d rest hnet), h.ends,
        congrArg (Function.update · side rest) h.net⟩
  | duplicate side d hd =>
      rw [h.net] at hd
      refine ⟨_, hreach.tail (Step.duplicate t side d hd), h.ends, ?_⟩
      dsimp only
      rw [h.net]

theorem Reachable.matched {conv : UInt32} {mode : Side → Int} {s : State}
    (h : Reachable conv mode s) : ∃ t, Link.Reachable conv t ∧ Matches s t := by
  induction h with
  | refl =>
      exact ⟨Link.State.start conv, Relation.ReflTransGen.refl,
        fun side => stands_start conv (mode side), rfl⟩
  | tail _ hstep ih =>
      obtain ⟨t, hreach, hmatches⟩ := ih
      exact step_matched hstep hreach hmatches

/-! ## What arrives -/

/-- A segment opened is a segment sent. -/
theorem Stands.sent {e : End} {m : Endpoint} (h : Stands e m) : m.sent = e.opened.length := by
  rcases h with hplain | hchunked
  · have hcount := hplain.count
    unfold Endpoint.stream framed at hcount
    unfold Endpoint.sent
    rw [hcount, hplain.block, Nat.add_sub_cancel]
  · have hone : ∀ bytes ∈ m.accepted, (Framing.fragments plugMss bytes).length = 1 := by
      intro bytes hbytes
      rw [Framing.fragments, Framing.pieces_length]
      exact if_pos (hchunked.chunks bytes hbytes).2
    have hqueue : m.kcp.sndQueue = [] := by
      rw [hchunked.block]
      rfl
    unfold Endpoint.sent
    rw [hqueue, hchunked.opened, List.length_flatMap, List.map_congr_left hone]
    simp

theorem Stands.accepted_taken {e : End} {m : Endpoint} (h : Stands e m) :
    m.accepted.flatten <+: e.taken := by
  rcases h with hplain | hchunked
  · rw [hplain.taken]
  · rw [hchunked.taken]
    exact List.prefix_append _ _

theorem Stands.returned {e : End} {m : Endpoint} (h : Stands e m) : e.returned = m.returned :=
  h.elim Plain.returned Chunked.returned

/-- Whatever `kcp->stream` is on either side, the bytes that `ikcp_recv` returns at one end are
a prefix of the bytes that `ikcp_send` took at the other, those of a call that failed after
filling up a segment included; and the pieces that come out of a stream are those of segments. -/
theorem stream_delivers {conv : UInt32} {mode : Side → Int} {s : State}
    (h : Reachable conv mode s) (hfew : ∀ side, (s.ep side).opened.length < 2 ^ 31)
    (side : Side) :
    (s.ep side.other).returned.flatten <+: (s.ep side).taken ∧
      ((s.ep side).kcp.stream ≠ 0 → ∀ bytes ∈ (s.ep side.other).returned,
        0 < bytes.length ∧ bytes.length ≤ plugMss) := by
  obtain ⟨t, hreach, hmatches⟩ := h.matched
  have hsent : ∀ side, (t.ep side).sent < 2 ^ 31 := by
    intro side
    rw [(hmatches.ends side).sent]
    exact hfew side
  obtain ⟨said, hinv⟩ := inv_of_reachable hreach hsent
  have hreturned := hinv.delivered side.other
  rw [Side.other_other, ← (hmatches.ends side.other).returned] at hreturned
  constructor
  · obtain ⟨rest, hrest⟩ := hreturned
    refine List.IsPrefix.trans ?_ (hmatches.ends side).accepted_taken
    rw [← hrest, List.flatten_append]
    exact List.prefix_append _ _
  · intro hstream bytes hbytes
    rcases hmatches.ends side with hplain | hchunked
    · exact absurd hplain.stream hstream
    · exact hchunked.chunks bytes (hreturned.subset hbytes)

/-- The left side is in stream mode and sends twice before its first flush. -/
def twoSends : State :=
  let queued := ((State.start 7 fun side => if side = .left then 1 else 0).send .left
    [1]).send .left [2, 3]
  let sent := (queued.update .left 0).update .left 10
  sent.recv .right none (sent.net .left) [] 512

theorem twoSends_reachable :
    Reachable 7 (fun side => if side = .left then 1 else 0) twoSends := by
  have hqueued := ((Relation.ReflTransGen.single
    (Step.send (State.start 7 fun side => if side = .left then 1 else 0) .left [1])).tail
    (Step.send _ .left [2, 3]))
  have hsent := (hqueued.tail (Step.update _ .left 0)).tail (Step.update _ .left 10)
  refine hsent.tail (Step.recv _ .right none _ [] 512 ?_)
  simp [Side.other]

theorem stream_delivers_twoSends :
    (twoSends.ep .right).returned = [[1, 2, 3]] ∧
      ((twoSends.ep .right).returned.flatten <+: (twoSends.ep .left).taken ∧
        ((twoSends.ep .left).kcp.stream ≠ 0 → ∀ bytes ∈ (twoSends.ep .right).returned,
          0 < bytes.length ∧ bytes.length ≤ plugMss)) := by
  have hfew : ∀ side, (twoSends.ep side).opened.length < 2 ^ 31 := by
    intro side
    cases side <;> decide
  exact ⟨by decide, stream_delivers twoSends_reachable hfew .left⟩

end UdpKcp.Link.Stream
