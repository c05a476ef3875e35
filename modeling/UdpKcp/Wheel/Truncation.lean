import UdpKcp.Plug.FlushWire
import UdpKcp.Wheel.Server

/-! # Datagrams and the buffers they are read into

A datagram of the peer can be picked up by three reads. Two of them have a
buffer smaller than the MTU that the control blocks are set up with.
-/

namespace UdpKcp.Wheel

open ByteCodec (Bytes)
open Ikcp Plug

/-- The reads: `recv` into `TmpBuff` in `KcpRecv`, `recvfrom` in `UDPServer::Recv`, and
`WSARecvFrom` into `NetEventInfo::buf`. -/
inductive ReadPath where
  | tmpBuff
  | serverRecv
  | eventInfo
  deriving DecidableEq, Repr

/-- `sizeof(NetEventInfo::buf)`. -/
def eventInfoBuf : Nat := 512

/-- The input and the socket of the `KcpRecv` that a datagram read this way ends up in. -/
def ReadPath.arguments (path : ReadPath) (d : Bytes) : Option Bytes × Socket :=
  match path with
  | .tmpBuff => (none, [some d])
  | .serverRecv => (some (d.take maxClientBuffLen), [])
  | .eventInfo => (some (d.take eventInfoBuf), [])

/-- The bytes of a datagram that reach `ikcp_input`. -/
def ReadPath.inputs (path : ReadPath) (d : Bytes) : List Bytes :=
  kcpRecvInputs (path.arguments d).1 (path.arguments d).2

/-- The size of the buffer read into. -/
def ReadPath.buffer : ReadPath → Nat
  | .tmpBuff => maxUdpMtu
  | .serverRecv => maxClientBuffLen
  | .eventInfo => eventInfoBuf

/-- What reaches `ikcp_input` is what fits the buffer. -/
theorem ReadPath.inputs_eq (path : ReadPath) {d : Bytes} (hd : 0 < d.length) :
    path.inputs d = [d.take path.buffer] := by
  have hpos : ∀ n, 0 < n → 0 < (d.take n).length := by
    intro n hn
    rw [List.length_take]
    omega
  cases path with
  | tmpBuff =>
      have htake := hpos maxUdpMtu (by decide)
      unfold inputs arguments kcpRecvInputs loopInputs
      dsimp only
      rw [if_pos htake]
      rfl
  | serverRecv =>
      have htake := hpos maxClientBuffLen (by decide)
      unfold inputs arguments kcpRecvInputs
      dsimp only
      rw [if_pos htake]
      rfl
  | eventInfo =>
      have htake := hpos eventInfoBuf (by decide)
      unfold inputs arguments kcpRecvInputs
      dsimp only
      rw [if_pos htake]
      rfl

theorem take_eq_self_iff {d : Bytes} {n : Nat} : d.take n = d ↔ d.length ≤ n := by
  constructor
  · intro h
    have hlen := congrArg List.length h
    rw [List.length_take] at hlen
    omega
  · exact List.take_of_length_le

/-- A datagram that a reachable block emits reaches `ikcp_input` whole, and is then never
answered with -2, exactly when it is read into `TmpBuff` or has at most 512 bytes. -/
theorem whole_iff {conv : UInt32} {block : IKCPCB} (h : Reachable conv block) {dlt : UInt32}
    {d : Bytes} (hd : d ∈ (kcpUpdate block dlt).2) (path : ReadPath) :
    (path.inputs d = [d] ∧
      ∀ bytes ∈ path.inputs d, ∀ peer : IKCPCB, peer.conv = conv → (ikcpInput peer bytes).2 ≠ -2) ↔
      (path = .tmpBuff ∨ d.length ≤ 512) := by
  obtain ⟨⟨hlow, hhigh⟩, hinput⟩ := (sound_of_reachable h).emitted hd
  have hpos : 0 < d.length := by
    unfold ikcpOverhead at hlow
    omega
  have hwhole : path.inputs d = [d] ↔ d.length ≤ path.buffer := by
    rw [path.inputs_eq hpos, List.cons.injEq, take_eq_self_iff]
    simp
  have hbuffer : d.length ≤ path.buffer ↔ (path = .tmpBuff ∨ d.length ≤ 512) := by
    cases path with
    | tmpBuff => simp [ReadPath.buffer, hhigh]
    | serverRecv => simp [ReadPath.buffer, maxClientBuffLen]
    | eventInfo => simp [ReadPath.buffer, eventInfoBuf]
  rw [← hbuffer, ← hwhole]
  constructor
  · exact fun hboth => hboth.1
  · intro hone
    refine ⟨hone, ?_⟩
    intro bytes hbytes peer hconv
    rw [hone, List.mem_singleton] at hbytes
    rw [hbytes, hinput peer hconv]
    decide

/-- A message that fills one segment. -/
def fullMessage : Bytes := List.replicate 552 0

/-- A block that has queued it, with its first flush behind it. -/
def fullBlock : IKCPCB :=
  (kcpUpdate (kcpSend (newKcpPlugControlBlock 7) fullMessage fullMessage.length).1 0).1

theorem fullBlock_reachable : Reachable 7 fullBlock :=
  (Relation.ReflTransGen.single (Plug.Call.send _ fullMessage)).tail (Plug.Call.update _ 0)

set_option maxRecDepth 10000 in
/-- Read into `TmpBuff` the full segment arrives whole. -/
theorem whole_tmpBuff :
    ∃ d ∈ (kcpUpdate fullBlock 10).2, d.length = 576 ∧ ReadPath.tmpBuff.inputs d = [d] := by
  have hsent : ∃ d ∈ (kcpUpdate fullBlock 10).2, d.length = 576 := by decide +kernel
  obtain ⟨d, hd, hlen⟩ := hsent
  exact ⟨d, hd, hlen, ((whole_iff fullBlock_reachable hd .tmpBuff).mpr (Or.inl rfl)).1⟩

set_option maxRecDepth 10000 in
/-- Read by `UDPServer::Recv` it loses 64 bytes and is refused. -/
theorem whole_serverRecv :
    ∃ d ∈ (kcpUpdate fullBlock 10).2, d.length = 576 ∧ ReadPath.serverRecv.inputs d ≠ [d] ∧
      ∃ bytes ∈ ReadPath.serverRecv.inputs d,
        (ikcpInput (newKcpPlugControlBlock 7) bytes).2 = -2 := by
  decide +kernel

end UdpKcp.Wheel
