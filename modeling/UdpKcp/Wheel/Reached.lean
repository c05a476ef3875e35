import UdpKcp.Plug.Representation
import UdpKcp.Wheel.Handshake

/-! # Clients after any calls

What the invariants of the plug say about a client: whatever is sent to it and
called on it, its buffer is empty between calls and its control block is one
that the plug can reach.
-/

namespace UdpKcp.Wheel

open ByteCodec (Bytes)
open Ikcp Plug

/-- States of a client of either type after any calls. -/
def UDPClient.Reached (platform : Platform) (c : UDPClient) : Prop :=
  ∃ addinfo soc tt, Relation.ReflTransGen (fun c c' => ∃ call, c.call platform call = some c')
    ((newUDPClient addinfo soc).setClientType tt) c

theorem UDPClient.Reached.call {platform : Platform} {c c' : UDPClient} (h : c.Reached platform)
    (call : Call) (hcall : c.call platform call = some c') : c'.Reached platform := by
  obtain ⟨addinfo, soc, tt, hrun⟩ := h
  exact ⟨addinfo, soc, tt, hrun.tail ⟨call, hcall⟩⟩

theorem UDPClient.Reached.fresh (platform : Platform) (addinfo : SockaddrIn) (soc : Handle)
    (tt : UDPClientType) : ((newUDPClient addinfo soc).setClientType tt).Reached platform :=
  ⟨addinfo, soc, tt, Relation.ReflTransGen.refl⟩

/-! ## The block of a client -/

/-- The invariant of a reached client. -/
structure Plugged (c : UDPClient) : Prop where
  buffOffset : c.buffOffset = 0
  block : ∀ block ∈ c.plugUserData, ∃ conv, Plug.Reachable conv block

theorem Plugged.withBlock {c : UDPClient} (h : Plugged c) {block block' : IKCPCB}
    (hblock : c.plugUserData = some block) (hcall : Plug.Call block block') :
    Plugged { c with plugUserData := some block' } := by
  obtain ⟨conv, hreach⟩ := h.block block hblock
  exact ⟨h.buffOffset, fun b hb => by cases hb; exact ⟨conv, hreach.tail hcall⟩⟩

theorem Plugged.setKcpConvID {c : UDPClient} (h : Plugged c) (id : UInt32) :
    Plugged (c.setKcpConvID id) := by
  refine ⟨(UDPClient.Same.setKcpConvID c id).buffOffset.trans h.buffOffset, ?_⟩
  unfold UDPClient.setKcpConvID
  by_cases hconv : c.convID = 0
  · rw [if_pos hconv]
    cases hblock : c.plugUserData with
    | none => exact fun b hb => by cases hb; exact ⟨id, Relation.ReflTransGen.refl⟩
    | some block => exact fun b hb => by cases hb; exact h.block block hblock
  · rw [if_neg hconv]
    exact h.block

theorem Plugged.send {c : UDPClient} (h : Plugged c) (data : Bytes) :
    Plugged (c.send data).client := by
  unfold UDPClient.send
  split
  · exact h
  · split
    · exact h
    · rename_i block hblock
      exact h.withBlock hblock (Plug.Call.send block data)

theorem Plugged.update {c : UDPClient} (h : Plugged c) (dlt : UInt32) :
    Plugged (c.update dlt).1 := by
  unfold UDPClient.update
  split
  · exact h
  · rename_i block hblock
    exact h.withBlock hblock (Plug.Call.update block dlt)

theorem Plugged.recvKcp {c : UDPClient} (h : Plugged c) (data : Option Bytes) (soc : Socket) :
    Plugged (c.recvKcp data soc).client := by
  unfold UDPClient.recvKcp
  split
  · exact h
  · rename_i block hblock
    have hread := h.withBlock hblock (Plug.Call.recv block data soc c.getBuffLeftLen)
    dsimp only
    split
    · exact hread.send _
    · exact hread

theorem Plugged.recv {platform : Platform} {c : UDPClient} (h : Plugged c) {data : Option Bytes}
    {soc : Socket} {r : Received} (hr : c.recv platform data soc = some r) : Plugged r.client := by
  cases UDPClient.recv_outcome hr with
  | own htype hconv => exact h.setKcpConvID c.bigID
  | read htype hconv id hid => exact h.setKcpConvID id
  | kcp hpast => exact h.recvKcp data soc

theorem UDPClient.Reached.plugged {platform : Platform} {c : UDPClient} (h : c.Reached platform) :
    Plugged c := by
  obtain ⟨addinfo, soc, tt, hrun⟩ := h
  induction hrun with
  | refl => exact ⟨rfl, fun b hb => by cases hb⟩
  | tail _ hstep ih =>
      obtain ⟨call, hcall⟩ := hstep
      cases call with
      | send data =>
          cases hcall
          exact ih.send data
      | update dlt =>
          cases hcall
          exact ih.update dlt
      | recv data soc =>
          obtain ⟨r, hr, rfl⟩ := Option.map_eq_some_iff.mp hcall
          exact ih.recv hr

theorem Plugged.settled {c : UDPClient} (h : Plugged c) {block : IKCPCB}
    (hblock : c.plugUserData = some block) : RecvSettled block := by
  obtain ⟨conv, hreach⟩ := h.block block hblock
  exact (ringed_of_reachable hreach).rcv

/-! ## Clients of the joint system -/

section Joint

variable {s : Joint} {addr : SockaddrIn}

/-- One action calls at most one client, once. -/
theorem act_reached (hinv : s.Inv addr) {a : Action} (ha : s.Allowed a)
    (h : ∀ side c, s.client addr side = some c → c.Reached .linux) {side : UDPClientType}
    {c : UDPClient} (hc : (s.act addr a).client addr side = some c) : c.Reached .linux := by
  have hacts := hinv.act_acts ha
  generalize s.act addr a = s' at hacts hc
  cases hacts with
  | connect hside hcall hcopies =>
      obtain ⟨call, hcall⟩ := hcall.call
      cases side with
      | connect =>
          cases hc
          exact (h .connect s.connect rfl).call call hcall
      | accept => exact h .accept c hc
  | @accept old c' server sent messages copies hside hold hcall hentry htable hcopies =>
      obtain ⟨call, hcall⟩ := hcall.call
      cases side with
      | connect => exact h .connect c hc
      | accept =>
          have hget : server.allClients.lookup (makeUniqueID addr) = some c := hc
          rw [htable, if_pos rfl] at hget
          cases hget
          rcases hold with hget | ⟨-, fd, rfl⟩
          · exact (h .accept old hget).call call hcall
          · exact (UDPClient.Reached.fresh .linux addr fd .accept).call call hcall
  | undefined hside hcopies hout =>
      cases side with
      | connect => exact h .connect c hc
      | accept => exact h .accept c hc
  | nothing hside hnone => exact h side c hc

theorem Joint.reached {info : SockaddrIn} {soc : Handle} (h : Joint.Reachable info addr soc s)
    {side : UDPClientType} {c : UDPClient} (hc : s.client addr side = some c) :
    c.Reached .linux := by
  induction h generalizing side c with
  | refl =>
      cases side with
      | connect =>
          cases hc
          exact UDPClient.Reached.fresh .linux info soc .connect
      | accept => cases hc
  | tail hrun hs ih =>
      cases hs with
      | act a hsane ha =>
          exact act_reached (Joint.inv_of_reachable hrun) ha (fun _ _ hold => ih hold) hc

end Joint

end UdpKcp.Wheel
