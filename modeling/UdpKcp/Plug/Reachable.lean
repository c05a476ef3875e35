import UdpKcp.Plug.Blocks
import Mathlib.Logic.Relation

/-! # Blocks reachable through the plug

The operations of the plug in any order, with arbitrary payloads, clocks and
received bytes. Every reachable block carries the plug's settings, and its
outgoing segments fit one datagram.
-/

namespace UdpKcp.Plug

open ByteCodec (Bytes)
open Ikcp

/-- One call of the plug on a block. -/
inductive Call : IKCPCB → IKCPCB → Prop where
  | send (block : IKCPCB) (data : Bytes) : Call block (kcpSend block data data.length).1
  | update (block : IKCPCB) (dlt : UInt32) : Call block (kcpUpdate block dlt).1
  | recv (block : IKCPCB) (input : Option Bytes) (soc : Socket) (maxlen : Int) :
      Call block (kcpRecv block input soc maxlen).block

def Reachable (conv : UInt32) (block : IKCPCB) : Prop :=
  Relation.ReflTransGen Call (newKcpPlugControlBlock conv) block

/-- What `ikcp_send` leaves in a segment: few fragments, a payload that fits. -/
structure Cut (seg : IKCPSEG) : Prop where
  frg_lt : seg.frg.toNat < ikcpWndRcv.toNat
  fits : seg.data.length ≤ plugMss

/-- A segment of `snd_buf`: cut by `ikcp_send`, addressed to the peer. -/
structure Sendable (conv : UInt32) (seg : IKCPSEG) : Prop extends Cut seg where
  conv_eq : seg.conv = conv
  cmd_eq : seg.cmd = ikcpCmdPush

theorem Sendable.of_core {conv : UInt32} {seg : IKCPSEG} (h : Sendable conv seg.core) :
    Sendable conv seg :=
  ⟨⟨h.frg_lt, h.fits⟩, h.conv_eq, h.cmd_eq⟩

theorem Sendable.core {conv : UInt32} {seg : IKCPSEG} (h : Sendable conv seg) :
    Sendable conv seg.core :=
  ⟨⟨h.frg_lt, h.fits⟩, h.conv_eq, h.cmd_eq⟩

/-- The invariant of reachable blocks. -/
structure Sound (conv : UInt32) (block : IKCPCB) : Prop where
  config : block.config = plugConfig conv
  queued : ∀ seg ∈ block.sndQueue, Cut seg
  buffered : ∀ seg ∈ cores block.sndBuf, Sendable conv seg

/-! ## Settings of a sound block -/

section Settings

variable {conv : UInt32} {block : IKCPCB} (h : Sound conv block)

include h

theorem Sound.conv_eq : block.conv = conv := congrArg Config.conv h.config

theorem Sound.stream_eq : block.stream = 0 := congrArg Config.stream h.config

theorem Sound.mss_toNat : block.mss.toNat = plugMss :=
  congrArg (UInt32.toNat ∘ Config.mss) h.config

theorem Sound.mtu_toNat : block.mtu.toNat = maxUdpMtu :=
  congrArg (UInt32.toNat ∘ Config.mtu) h.config

theorem Sound.rcvWnd_toNat : block.rcvWnd.toNat = plugWnd :=
  congrArg (UInt32.toNat ∘ Config.rcvWnd) h.config

theorem Sound.sendable {seg : IKCPSEG} (hs : seg ∈ block.sndBuf) : Sendable conv seg :=
  (h.buffered _ (mem_cores hs)).of_core

end Settings

/-! ## The invariant along a run -/

theorem Sound.new (conv : UInt32) : Sound conv (newKcpPlugControlBlock conv) where
  config := rfl
  queued := List.forall_mem_nil _
  buffered := List.forall_mem_nil _

/-- Input and receiving can only take segments away from the sending half. -/
theorem Sound.kept {conv : UInt32} {block block' : IKCPCB} (h : Sound conv block)
    (hconfig : block'.config = block.config) (hk : SendKept block block') :
    Sound conv block' where
  config := hconfig.trans h.config
  queued := by
    rw [hk.queue]
    exact h.queued
  buffered := fun seg hs => h.buffered seg (hk.buf.mem hs)

theorem Cut.of_piece {message : Bytes} {seg : IKCPSEG}
    (hfew : Framing.pieceCount plugMss message.length < ikcpWndRcv.toNat)
    (hs : piece seg ∈ Framing.fragments plugMss message) : Cut seg := by
  obtain ⟨hfits, hfrg⟩ := Framing.pieces_length_le hs
  exact ⟨Nat.lt_trans hfrg hfew, hfits⟩

theorem Sound.send {conv : UInt32} {block : IKCPCB} (h : Sound conv block) (data : Bytes) :
    Sound conv (kcpSend block data data.length).1 := by
  rw [kcpSend_message h.stream_eq (by rw [h.mss_toNat]; decide)]
  split
  · rename_i hfew
    refine ⟨h.config, ?_, h.buffered⟩
    intro seg hs
    rw [h.mss_toNat] at hfew
    simp only [queueMessage, h.mss_toNat] at hs
    rcases List.mem_append.mp hs with hs | hs
    · exact h.queued seg hs
    · have hp := List.mem_map_of_mem (f := piece) hs
      have hlt : ikcpWndRcv.toNat ≤ 2 ^ 32 := by decide
      rw [sendFragments_pieces (by omega)] at hp
      exact Cut.of_piece hfew hp
  · exact h

/-- Opening the window moves cut segments and addresses them. -/
theorem Sound.opened {conv : UInt32} {block : IKCPCB} (h : Sound conv block) :
    Sound conv (flushOpened block) := by
  have hconfig : (flushProbed block).config = plugConfig conv :=
    (flushProbed_config block).trans h.config
  refine ⟨hconfig, ?_, ?_⟩
  · intro seg hs
    obtain ⟨opened, -, hdrop, -⟩ := flushOpened_moved block
    rw [hdrop] at hs
    exact h.queued seg (List.mem_of_mem_drop hs)
  · intro seg hs
    unfold flushOpened moveSndQueue at hs
    dsimp only at hs
    rw [cores_append, flushProbed_sndBuf] at hs
    rcases List.mem_append.mp hs with hs | hs
    · exact h.buffered seg hs
    · obtain ⟨opened, hopened, rfl⟩ := List.mem_map.mp hs
      obtain ⟨i, hi⟩ := List.mem_iff_getElem?.mp hopened
      obtain ⟨newseg, hget, rfl⟩ := openWindow_get hi
      rw [flushProbed_sndQueue] at hget
      have hcut := h.queued newseg (List.mem_of_getElem? hget)
      exact ⟨⟨hcut.frg_lt, hcut.fits⟩, congrArg Config.conv hconfig, rfl⟩

theorem Sound.flush {conv : UInt32} {block : IKCPCB} (h : Sound conv block)
    (hupdated : block.updated ≠ 0) : Sound conv (ikcpFlush block).1 := by
  have hopened := h.opened
  rw [ikcpFlush_block hupdated]
  refine ⟨hopened.config, hopened.queued, ?_⟩
  dsimp only
  rw [stamped_cores]
  exact hopened.buffered

theorem Sound.timed {conv : UInt32} {block : IKCPCB} (h : Sound conv block) (dlt : UInt32) :
    Sound conv (updateTimer block dlt).1 := by
  rw [updateTimer_eq]
  exact ⟨h.config, h.queued, h.buffered⟩

theorem Sound.update {conv : UInt32} {block : IKCPCB} (h : Sound conv block) (dlt : UInt32) :
    Sound conv (kcpUpdate block dlt).1 :=
  kcpUpdate_of (h.timed dlt) ((h.timed dlt).flush (updateTimer_updated block dlt))

theorem Sound.recv {conv : UInt32} {block : IKCPCB} (h : Sound conv block)
    (input : Option Bytes) (soc : Socket) (maxlen : Int) :
    Sound conv (kcpRecv block input soc maxlen).block :=
  kcpRecv_keeps (fun kcp data hk => hk.kept (ikcpInput_config kcp data) (SendKept.input kcp data))
    (fun _ _ _ _ hlen hr hk => hk.kept (ikcpRecv_config hlen hr) (SendKept.recv hlen hr))
    input soc maxlen h

theorem Sound.call {conv : UInt32} {block block' : IKCPCB} (h : Sound conv block)
    (hc : Call block block') : Sound conv block' := by
  cases hc with
  | send data => exact h.send data
  | update dlt => exact h.update dlt
  | recv input soc maxlen => exact h.recv input soc maxlen

theorem sound_of_reachable {conv : UInt32} {block : IKCPCB} (h : Reachable conv block) :
    Sound conv block := by
  induction h with
  | refl => exact Sound.new conv
  | tail _ hc ih => exact ih.call hc

end UdpKcp.Plug
