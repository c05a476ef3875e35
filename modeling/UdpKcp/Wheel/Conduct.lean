import UdpKcp.Plug.FlushWire
import UdpKcp.Plug.HeadMessage
import UdpKcp.Wheel.Client

/-! # What a client keeps and what it sends

Whatever is sent to a client, its control block keeps the plug's settings and
counts its receive queue. Its datagrams are known by their origin: an id reply
has four bytes, the output of a flush has a KCP header. A message is accepted
only if it needs fewer than 128 segments.
-/

namespace UdpKcp.Wheel

open ByteCodec (Bytes encodeLE)
open Ikcp Plug

/-- The block of a client, if it has one, is sound and counted. -/
def Healthy (c : UDPClient) : Prop :=
  ∀ block ∈ c.plugUserData, (∃ conv, Sound conv block) ∧ Counted block

/-- What is known of the datagrams and messages of one call. -/
structure Conduct (sent : List Datagram) (accepted : List Bytes) : Prop where
  idReply : ∀ d ∈ sent, d.origin = .idReply → d.bytes.length = 4
  output : ∀ d ∈ sent, d.origin = .output → ikcpOverhead ≤ d.bytes.length
  small : ∀ m ∈ accepted, Framing.pieceCount plugMss m.length < ikcpWndRcv.toNat

theorem Conduct.silent : Conduct [] [] := by
  refine ⟨?_, ?_, ?_⟩
  · exact List.forall_mem_nil _
  · exact List.forall_mem_nil _
  · exact List.forall_mem_nil _

theorem Healthy.withBlock {c : UDPClient} {block : IKCPCB} {conv : UInt32}
    (hsound : Sound conv block) (hcount : Counted block) :
    Healthy { c with plugUserData := some block } := by
  intro b hb
  cases hb
  exact ⟨⟨conv, hsound⟩, hcount⟩

theorem Healthy.fresh (info : SockaddrIn) (soc : Handle) (tt : UDPClientType) :
    Healthy ((newUDPClient info soc).setClientType tt) :=
  fun _ hb => by cases hb

theorem Healthy.setKcpConvID {c : UDPClient} (h : Healthy c) (id : UInt32) :
    Healthy (c.setKcpConvID id) := by
  unfold UDPClient.setKcpConvID
  by_cases hconv : c.convID = 0
  · rw [if_pos hconv]
    cases hblock : c.plugUserData with
    | none => exact Healthy.withBlock (Sound.new id) rfl
    | some block =>
        dsimp only
        intro b hb
        cases hb
        exact h block hblock
  · rw [if_neg hconv]
    exact h

/-- A refused message leaves nothing behind, an accepted one is short enough. -/
theorem kcpSend_accepted {conv : UInt32} {block : IKCPCB} (h : Sound conv block) {data : Bytes}
    (hret : (kcpSend block data data.length).2 = 0) :
    Framing.pieceCount plugMss data.length < ikcpWndRcv.toNat := by
  have hmss := h.mss_toNat
  have hsend := kcpSend_message h.stream_eq (by rw [hmss]; decide) data
  rw [hmss] at hsend
  by_contra hmany
  rw [hsend, if_neg hmany] at hret
  have hcode : (-2 : Int) = 0 := hret
  exact absurd hcode (by decide)

theorem Healthy.send {c : UDPClient} (h : Healthy c) (data : Bytes) :
    Healthy (c.send data).client ∧ Conduct (c.send data).sent (c.send data).accepted := by
  unfold UDPClient.send
  by_cases hraw : c.getKcpConvID = 0
  · rw [if_pos hraw]
    refine ⟨h, ?_, ?_, Conduct.silent.small⟩
    · intro d hd horigin
      rw [List.mem_singleton.mp hd] at horigin
      cases horigin
    · intro d hd horigin
      rw [List.mem_singleton.mp hd] at horigin
      cases horigin
  · rw [if_neg hraw]
    cases hblock : c.plugUserData with
    | none => exact ⟨h, Conduct.silent⟩
    | some block =>
        obtain ⟨⟨conv, hsound⟩, hcount⟩ := h block hblock
        refine ⟨Healthy.withBlock (hsound.send data) (hcount.send data data.length),
          Conduct.silent.idReply, Conduct.silent.output, ?_⟩
        intro m hm
        dsimp only at hm
        by_cases hret : (kcpSend block data data.length).2 = 0
        · rw [if_pos hret, List.mem_singleton] at hm
          rw [hm]
          exact kcpSend_accepted hsound hret
        · rw [if_neg hret] at hm
          exact absurd hm List.not_mem_nil

theorem Healthy.update {c : UDPClient} (h : Healthy c) (dlt : UInt32) :
    Healthy (c.update dlt).1 ∧ Conduct (c.update dlt).2 [] := by
  unfold UDPClient.update
  cases hblock : c.plugUserData with
  | none => exact ⟨h, Conduct.silent⟩
  | some block =>
      obtain ⟨⟨conv, hsound⟩, hcount⟩ := h block hblock
      refine ⟨Healthy.withBlock (hsound.update dlt) (hcount.update dlt), ?_, ?_,
        Conduct.silent.small⟩
      · intro d hd horigin
        obtain ⟨bytes, -, rfl⟩ := List.mem_map.mp hd
        cases horigin
      · intro d hd _
        obtain ⟨bytes, hbytes, rfl⟩ := List.mem_map.mp hd
        exact (hsound.emitted hbytes).1.1

theorem Healthy.recvKcp {c : UDPClient} (h : Healthy c) (data : Option Bytes) (soc : Socket) :
    Healthy (c.recvKcp data soc).client ∧
      Conduct (c.recvKcp data soc).sent (c.recvKcp data soc).accepted := by
  unfold UDPClient.recvKcp
  cases hblock : c.plugUserData with
  | none => exact ⟨h, Conduct.silent⟩
  | some block =>
      obtain ⟨⟨conv, hsound⟩, hcount⟩ := h block hblock
      have hread : Healthy { c with
          plugUserData := some (kcpRecv block data soc c.getBuffLeftLen).block } :=
        Healthy.withBlock (hsound.recv data soc c.getBuffLeftLen)
          (hcount.recv data soc c.getBuffLeftLen)
      dsimp only
      split
      · exact hread.send _
      · exact ⟨hread, Conduct.silent⟩

theorem Healthy.recv {platform : Platform} {c : UDPClient} (h : Healthy c) {data : Option Bytes}
    {soc : Socket} {r : Received} (hr : c.recv platform data soc = some r) :
    Healthy r.client ∧ Conduct r.sent r.accepted := by
  cases UDPClient.recv_outcome hr with
  | own htype hconv =>
      refine ⟨h.setKcpConvID c.bigID, ?_, ?_, Conduct.silent.small⟩
      · intro d hd _
        rw [List.mem_singleton.mp hd]
        exact ByteCodec.encodeLE_length 4 c.bigID.toNat
      · intro d hd horigin
        rw [List.mem_singleton.mp hd] at horigin
        cases horigin
  | read htype hconv id hid => exact ⟨h.setKcpConvID id, Conduct.silent⟩
  | kcp hpast => exact h.recvKcp data soc

end UdpKcp.Wheel
