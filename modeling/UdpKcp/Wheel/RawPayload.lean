import UdpKcp.Wheel.Buffer

/-! # Raw payloads at the accept side

Nothing on the wire tells a raw payload from the segments of a flush. The first
datagram makes the accept side and is not looked at. Later ones go to
`ikcp_input`, which drops what does not begin with a segment of its own
conversation: such a payload leaves the accept side as if it had never come.
-/

namespace UdpKcp.Wheel

open ByteCodec (Bytes)
open Ikcp Plug

/-- The bytes begin with a whole segment that a block with conversation id `conv` takes. -/
def BeginsSegment (conv : UInt32) (data : Bytes) : Prop :=
  ikcpOverhead ≤ data.length ∧ (decodeHeader data).1.conv = conv ∧
    ((decodeHeader data).1.len.toNat ≤ (decodeHeader data).2.length ∧
      0 ≤ asI32 (decodeHeader data).1.len) ∧
    validCmd (decodeHeader data).1.cmd

instance (conv : UInt32) (data : Bytes) : Decidable (BeginsSegment conv data) := by
  unfold BeginsSegment
  infer_instance

/-! ## Dropped payloads -/

/-- The first round of the loop in `ikcp_input` already returns. -/
theorem inputLoop_ignored {st : InputState} {data : Bytes} (hlen : ikcpOverhead ≤ data.length)
    (h : ¬ BeginsSegment st.kcp.conv data) (fuel : ℕ) :
    ∃ code, inputLoop (fuel + 1) st data = (st, some code) := by
  unfold inputLoop
  rw [if_neg (Nat.not_lt.mpr hlen)]
  dsimp only
  split_ifs with hconv hbody hcmd
  · exact ⟨-1, rfl⟩
  · exact ⟨-2, rfl⟩
  · exact absurd ⟨hlen, not_not.mp hconv, by omega, hcmd⟩ h
  · exact ⟨-3, rfl⟩

theorem ikcpInput_ignored {kcp : IKCPCB} {data : Bytes} (h : ¬ BeginsSegment kcp.conv data) :
    (ikcpInput kcp data).1 = kcp := by
  unfold ikcpInput
  by_cases hshort : data.length < ikcpOverhead
  · simp [hshort]
  · have hlen : ikcpOverhead ≤ data.length := Nat.not_lt.mp hshort
    have hpos : 0 < ikcpOverhead := by decide
    have hfuel : data.length - 1 + 1 = data.length := by omega
    obtain ⟨code, hloop⟩ : ∃ code, inputLoop (data.length - 1 + 1) { kcp := kcp } data =
        ({ kcp := kcp }, some code) := inputLoop_ignored hlen h _
    rw [hfuel] at hloop
    simp [hshort, hloop]

/-- What `KcpRecv` is given and need not look at. -/
theorem kcpRecvInput_ignored {block : IKCPCB} {data : Bytes}
    (h : ¬ BeginsSegment block.conv data) (soc : Socket) :
    kcpRecvInput block (some data) soc = kcpRecvInput block none soc := by
  simp [kcpRecvInput, ikcpInput_ignored h]

/-- A datagram that begins no segment is passed over, and an empty one ends the loop. -/
theorem recvLoop_ignored {conv : UInt32} {d : Bytes}
    (hd : ¬ BeginsSegment conv (d.take maxUdpMtu)) (before after : Socket) {pcb : IKCPCB}
    (hconv : pcb.conv = conv) :
    (recvLoop pcb (before ++ some d :: after)).1 =
      (recvLoop pcb (before ++ if d = [] then [] else after)).1 := by
  induction before generalizing pcb with
  | nil =>
      have hkept : (ikcpInput pcb (d.take maxUdpMtu)).1 = pcb :=
        ikcpInput_ignored (by rwa [hconv])
      by_cases hempty : d = []
      · simp [recvLoop, hempty]
      · have hpos : (d.take maxUdpMtu).length > 0 := by
          rw [gt_iff_lt, List.length_pos_iff, Ne, List.take_eq_nil_iff]
          simp [maxUdpMtu, hempty]
        simp only [List.nil_append, recvLoop, if_pos hpos, hkept, if_neg hempty]
  | cons read before ih =>
      cases read with
      | none => rfl
      | some b =>
          have hinput : (ikcpInput pcb (b.take maxUdpMtu)).1.conv = conv :=
            (congrArg Config.conv (ikcpInput_config pcb (b.take maxUdpMtu))).trans hconv
          have hrest := ih hinput
          simp only [List.cons_append, recvLoop]
          split
          · exact hrest
          · rfl

/-- `Recv` depends on what it reads through the block after `ikcp_input`. -/
theorem recvKcp_congr {c : UDPClient} {data data' : Option Bytes} {soc soc' : Socket}
    (h : ∀ block ∈ c.plugUserData,
      (kcpRecvInput block data soc).1 = (kcpRecvInput block data' soc').1) :
    c.recvKcp data soc = { c.recvKcp data' soc' with soc := (c.recvKcp data soc).soc } := by
  unfold UDPClient.recvKcp
  cases hblock : c.plugUserData with
  | none => rfl
  | some block =>
      have hread : kcpRecv block data soc c.getBuffLeftLen =
          { kcpRecv block data' soc' c.getBuffLeftLen with
            soc := (kcpRecvInput block data soc).2 } := by
        simp only [kcpRecv, h block hblock]
      dsimp only
      rw [hread]
      generalize kcpRecv block data' soc' c.getBuffLeftLen = r
      have hsame : RecvResult.out { r with soc := (kcpRecvInput block data soc).2 } = r.out := rfl
      by_cases hout : r.out.length > 0
      · simp only [hsame, if_pos hout]
      · simp only [hsame, if_neg hout]

theorem recvClient_congr {server : UDPServer} {key : UInt32} {c : UDPClient}
    (hentry : Entry key c) {data data' : Option Bytes} {soc soc' : Socket}
    (h : ∀ block ∈ c.plugUserData,
      (kcpRecvInput block data soc).1 = (kcpRecvInput block data' soc').1) :
    server.recvClient .linux key c data soc = server.recvClient .linux key c data' soc' := by
  unfold UDPServer.recvClient
  by_cases hconv : c.convID = 0
  · simp [UDPClient.recv_accept hentry.clientType hconv]
  · rw [UDPClient.recv_plugged hconv, UDPClient.recv_plugged hconv, recvKcp_congr h]
    rfl

/-- The copies of an accept side do not depend on what it reads. -/
theorem copies_congr {c : UDPClient} (htype : c.clientType = some .accept)
    (reads reads' : List (Option Datagram)) : c.copies reads = c.copies reads' := by
  simp [UDPClient.copies, htype]

/-! ## Raw payloads of the joint system -/

section Ignored

variable {info addr : SockaddrIn} {soc : Handle} {s : Joint}

theorem Entry.conv {key : UInt32} {c : UDPClient} (h : Entry key c) {block : IKCPCB}
    (hblock : block ∈ c.plugUserData) : block.conv = key := by
  have hconv := h.block
  rw [Option.mem_def.mp hblock] at hconv
  exact Option.some.inj hconv

/-- At the listening socket: the accept side goes on to its own socket. -/
theorem act_datagram_ignored (hinv : s.Inv addr) (hpresent : s.accepting addr ≠ none)
    {d : Datagram} (hd : ¬ BeginsSegment (makeUniqueID addr) (d.bytes.take maxClientBuffLen))
    (fd : Handle) (reads : List (Option Datagram)) :
    s.act addr (.datagram fd d reads) = s.act addr (.acceptRecv reads) := by
  obtain ⟨c, hget⟩ := Option.ne_none_iff_exists'.mp hpresent
  have hentry := hinv.entries _ c hget
  have hlookup : s.server.allClients.lookup (makeUniqueID addr) = some c := hget
  have hsame : s.server.recvClient .linux (makeUniqueID addr) c
      (some (d.bytes.take maxClientBuffLen)) (bytesOf reads) =
        s.server.recvClient .linux (makeUniqueID addr) c none (bytesOf reads) := by
    apply recvClient_congr hentry
    intro block hblock
    rw [kcpRecvInput_ignored (by rwa [hentry.conv hblock])]
  unfold Joint.act UDPServer.recv UDPServer.onRecvByAddr
  simp only [hget, hlookup, hsame, Option.getD_some]

/-- At its own socket: the accept side reads what is before and after. -/
theorem act_acceptRecv_ignored (hinv : s.Inv addr) {d : Datagram}
    (hd : ¬ BeginsSegment (makeUniqueID addr) (d.bytes.take maxUdpMtu))
    (before after : List (Option Datagram)) :
    s.act addr (.acceptRecv (before ++ some d :: after)) =
      s.act addr (.acceptRecv (before ++ if d.bytes = [] then [] else after)) := by
  cases hget : s.accepting addr with
  | none => simp [Joint.act, hget]
  | some c =>
      have hentry := hinv.entries _ c hget
      have hsame : s.server.recvClient .linux (makeUniqueID addr) c none
          (bytesOf (before ++ some d :: after)) =
            s.server.recvClient .linux (makeUniqueID addr) c none
              (bytesOf (before ++ if d.bytes = [] then [] else after)) := by
        apply recvClient_congr hentry
        intro block hblock
        have hloop := recvLoop_ignored hd (bytesOf before) (bytesOf after) (hentry.conv hblock)
        unfold bytesOf kcpRecvInput
        simp only [List.map_append, List.map_cons, Option.map_some]
        exact hloop.trans (by split <;> rfl)
      have hcopies := copies_congr hentry.clientType (before ++ some d :: after)
        (before ++ if d.bytes = [] then [] else after)
      unfold Joint.act
      simp only [hget, hsame, hcopies]

/-- Whatever has been read before it, `ikcp_input` leaves the block as it is. -/
theorem input_ignored (hinv : s.Inv addr) {c : UDPClient} (hget : s.accepting addr = some c)
    {block : IKCPCB} (hblock : c.plugUserData = some block) {d : Bytes}
    (hd : ¬ BeginsSegment (makeUniqueID addr) d) (data : Option Bytes) (before : Socket) :
    (ikcpInput (kcpRecvInput block data before).1 d).1 = (kcpRecvInput block data before).1 := by
  have hconv : (kcpRecvInput block data before).1.conv = makeUniqueID addr :=
    kcpRecvInput_keeps (P := fun kcp => kcp.conv = makeUniqueID addr)
      (fun kcp read h => (congrArg Config.conv (ikcpInput_config kcp read)).trans h) data before
      ((hinv.entries _ c hget).conv hblock)
  exact ikcpInput_ignored (by rwa [hconv])

/-- In any reachable state, for any raw payload that reaches the server: the accept side
it makes has not looked at it; and cut to the bytes that a read stores, it leaves the
block alone and the whole system as without it, at either socket, unless these bytes
begin with a segment of the accept side's conversation. -/
theorem rawPayload_ignored (h : Joint.Reachable info addr soc s) (payload : Bytes) :
    (s.accepting addr = none → ∀ fd reads, s.Allowed (.datagram fd ⟨.raw, payload⟩ reads) →
      (s.act addr (.datagram fd ⟨.raw, payload⟩ reads)).accepting addr =
        some ((acceptedClient addr fd).setKcpConvID (makeUniqueID addr))) ∧
    (∀ c ∈ s.accepting addr, ∀ block ∈ c.plugUserData, ∀ len data before,
      ¬ BeginsSegment (makeUniqueID addr) (payload.take len) →
      (ikcpInput (kcpRecvInput block data before).1 (payload.take len)).1 =
        (kcpRecvInput block data before).1) ∧
    (s.accepting addr ≠ none →
      ¬ BeginsSegment (makeUniqueID addr) (payload.take maxClientBuffLen) →
      ∀ fd reads, s.act addr (.datagram fd ⟨.raw, payload⟩ reads) =
        s.act addr (.acceptRecv reads)) ∧
    (¬ BeginsSegment (makeUniqueID addr) (payload.take maxUdpMtu) →
      ∀ before after, s.act addr (.acceptRecv (before ++ some ⟨.raw, payload⟩ :: after)) =
        s.act addr (.acceptRecv (before ++ if payload = [] then [] else after))) := by
  have hinv := Joint.inv_of_reachable h
  refine ⟨?_, ?_, ?_, ?_⟩
  · intro hget fd reads ha
    obtain ⟨server, copies, hact, hclient⟩ := act_datagram_first hget ha.1 ⟨.raw, payload⟩ reads
    rw [hact]
    exact hclient
  · intro c hget block hblock len data before hd
    exact input_ignored hinv hget hblock hd data before
  · intro hpresent hd fd reads
    exact act_datagram_ignored hinv hpresent hd fd reads
  · intro hd before after
    exact act_acceptRecv_ignored hinv hd before after

end Ignored

/-- A short payload at both sockets of an accept side. -/
theorem rawPayload_ignored_short :
    answered.act peerAddr (.datagram 7 ⟨.raw, [104]⟩ []) =
        answered.act peerAddr (.acceptRecv []) ∧
      answered.act peerAddr (.acceptRecv [some ⟨.raw, [104]⟩]) =
        answered.act peerAddr (.acceptRecv []) := by
  obtain ⟨-, -, hlistener, hown⟩ := rawPayload_ignored answered_reachable [104]
  exact ⟨hlistener (by decide) (by decide) 7 [], hown (by decide) [] []⟩

/-- The connect side, still without an id, sends the bytes of a segment: the accept side
takes them for one. -/
theorem rawPayload_segment :
    ∃ c block c' block', Joint.Reachable peerAddr peerAddr 5 answered ∧
      answered.connect.convID = 0 ∧ answered.accepting peerAddr = some c ∧
      c.plugUserData = some block ∧
      (answered.act peerAddr (.connectSend (oneSegment [65]))).Allowed
        (.acceptRecv [some ⟨.raw, oneSegment [65]⟩]) ∧
      ((answered.act peerAddr (.connectSend (oneSegment [65]))).act peerAddr
        (.acceptRecv [some ⟨.raw, oneSegment [65]⟩])).accepting peerAddr = some c' ∧
      c'.plugUserData = some block' ∧ block.rcvBuf = [] ∧ block.rcvNxt = 0 ∧
      block'.rcvNxt = 1 := by
  have hread : ∃ c ∈ answered.accepting peerAddr, ∃ block ∈ c.plugUserData,
      ∃ c' ∈ ((answered.act peerAddr (.connectSend (oneSegment [65]))).act peerAddr
        (.acceptRecv [some ⟨.raw, oneSegment [65]⟩])).accepting peerAddr,
        ∃ block' ∈ c'.plugUserData, block.rcvBuf = [] ∧ block.rcvNxt = 0 ∧
          block'.rcvNxt = 1 := by decide
  obtain ⟨c, hc, block, hblock, c', hc', block', hblock', hnext⟩ := hread
  refine ⟨c, block, c', block', answered_reachable, by decide, hc, hblock, ?_, hc', hblock', hnext⟩
  intro d hd
  cases List.mem_singleton.mp hd
  exact List.mem_append_right _ List.mem_cons_self

end UdpKcp.Wheel
