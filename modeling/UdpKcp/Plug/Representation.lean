import UdpKcp.Plug.RecvRing
import UdpKcp.Plug.SendRing

/-! # What every reachable block looks like

The two rings together, read off in the comparisons the code itself makes. The
counters, orders and bounds hold after any operations with any received bytes,
and no operation moves `snd_una`, `snd_nxt` or `rcv_nxt` backwards.
-/

namespace UdpKcp.Plug

open ByteCodec (Bytes)
open Serial (Window offset)
open Ikcp

/-- Counters, orders, windows and sizes of the four queues. -/
structure Represented (block : IKCPCB) : Prop where
  nsndQue : block.nsndQue = block.sndQueue.length
  nsndBuf : block.nsndBuf = block.sndBuf.length
  nrcvQue : block.nrcvQue = block.rcvQueue.length
  nrcvBuf : block.nrcvBuf = block.rcvBuf.length
  sndOrder : block.sndBuf.Pairwise fun a b => itimediff a.sn b.sn < 0
  sndInside : ∀ seg ∈ block.sndBuf,
    itimediff seg.sn block.sndUna ≥ 0 ∧ itimediff seg.sn block.sndNxt < 0
  sndHead : block.sndUna = (block.sndBuf.head?.map (·.sn)).getD block.sndNxt
  sndSize : (block.sndNxt - block.sndUna).toNat ≤ 128
  rcvOrder : block.rcvBuf.Pairwise fun a b => itimediff a.sn b.sn < 0
  rcvInside : ∀ seg ∈ block.rcvBuf,
    itimediff seg.sn block.rcvNxt ≥ 0 ∧ itimediff seg.sn (block.rcvNxt + 128) < 0
  rcvHead : ∀ seg ∈ block.rcvBuf.head?, seg.sn = block.rcvNxt → block.nrcvQue = 128
  rcvQueSize : block.nrcvQue ≤ 128
  rcvBufSize : block.nrcvBuf ≤ 128
  mss : block.mss = 552
  sndLen : ∀ seg ∈ block.sndQueue ++ block.sndBuf, seg.data.length ≤ block.mss.toNat

/-- No counter of the two sequence spaces is behind where it was. -/
structure Forward (old new : IKCPCB) : Prop where
  una : itimediff new.sndUna old.sndUna ≥ 0
  snd : itimediff new.sndNxt old.sndNxt ≥ 0
  rcv : itimediff new.rcvNxt old.rcvNxt ≥ 0

/-! ## From the rings -/

/-- The invariants of the two halves, and the settings. -/
structure Ringed (conv : UInt32) (block : IKCPCB) : Prop where
  sound : Sound conv block
  snd : SendRing block
  rcv : RecvSettled block

theorem pairwise_numbers {segs : List IKCPSEG} {R : UInt32 → UInt32 → Prop}
    (h : (numbers segs).Pairwise R) : segs.Pairwise fun a b => R a.sn b.sn :=
  List.pairwise_map.mp h

theorem shrink_una_head (kcp : IKCPCB) :
    (ikcpShrinkBuf kcp).sndUna = (kcp.sndBuf.head?.map (·.sn)).getD kcp.sndNxt := by
  unfold ikcpShrinkBuf
  cases kcp.sndBuf with
  | nil => rfl
  | cons seg segs => rfl

theorem Ringed.represented {conv : UInt32} {block : IKCPCB} (h : Ringed conv block) :
    Represented block := by
  obtain ⟨hsound, hsnd, hrcv⟩ := h
  have hplug : plugWnd = 128 := rfl
  have hsize := hsnd.size
  have hbuf := hrcv.window.length_le
  rw [numbers_length] at hbuf
  refine ⟨hsnd.queued, hsnd.counted, hrcv.queued, hrcv.counted, ?_, ?_, ?_, hsize, ?_, ?_,
    hrcv.ready, hrcv.room, ?_, congrArg Config.mss hsound.config, ?_⟩
  · exact pairwise_numbers (hsnd.window.serial (by omega))
  · intro seg hs
    have hmem := mem_numbers hs
    exact ⟨hsnd.window.ahead (by omega) hmem, hsnd.window.before rfl (by omega) hmem⟩
  · exact hsnd.una.trans (shrink_una_head block)
  · exact pairwise_numbers (hrcv.window.serial (by omega))
  · intro seg hs
    have hmem := mem_numbers hs
    have hlimit : offset block.rcvNxt (block.rcvNxt + 128) = plugWnd :=
      Serial.offset_add_self block.rcvNxt 128
    exact ⟨hrcv.window.ahead (by omega) hmem, hrcv.window.before hlimit (by omega) hmem⟩
  · rw [hrcv.counted]
    exact hbuf
  · intro seg hs
    rw [hsound.mss_toNat]
    rcases List.mem_append.mp hs with hs | hs
    · exact (hsound.queued seg hs).fits
    · exact (hsound.sendable hs).fits

theorem Ringed.new (conv : UInt32) : Ringed conv (newKcpPlugControlBlock conv) :=
  ⟨Sound.new conv, SendRing.new conv, RecvSettled.new conv⟩

/-! ## One call -/

/-- Adding less than half the circle does not move a counter backwards. -/
theorem forward_of_offset {old new : UInt32} (h : offset old new < 2 ^ 31) :
    itimediff new old ≥ 0 := by
  have hdiff : itimediff new old = offset old new := Serial.diff_of_offset_lt h
  omega

theorem forward_of_add {old new : UInt32} {k : ℕ} (hnew : new = old + UInt32.ofNat k)
    (hk : k < 2 ^ 31) : itimediff new old ≥ 0 := by
  apply forward_of_offset
  rw [hnew, Serial.offset_base_add (by omega)]
  exact hk

theorem forward_of_eq {old new : UInt32} (h : new = old) : itimediff new old ≥ 0 := by
  rw [h]
  exact Int.le_of_eq (Serial.diff_self old).symm

/-- The drain loop takes segments from the front, and at most those that waited in
`rcv_buf` move `rcv_nxt`. -/
theorem RecvSettled.drain {kcp : IKCPCB} (h : RecvSettled kcp) (maxlen : Int) :
    RecvSettled (drain kcp maxlen).block ∧
      ∃ taken, Takes kcp (Plug.drain kcp maxlen).block taken := by
  apply drain_keeps (P := fun k => RecvSettled k ∧ ∃ taken, Takes kcp k taken) _ maxlen
    ⟨h, [], Takes.nothing kcp⟩
  rintro k k' len bytes hlen hr ⟨hk, taken, htakes⟩
  obtain ⟨hk', hmore⟩ := hk.ikcpRecv hlen hr
  exact ⟨hk', _, htakes.trans hmore⟩

/-- One `KcpRecv` moves `rcv_nxt` by at most two windows: one of segments that the
datagrams complete, one of segments that draining lets out of `rcv_buf`. -/
theorem RecvSettled.kcpRecv_nxt {block : IKCPCB} (h : RecvSettled block) (input : Option Bytes)
    (soc : Socket) (maxlen : Int) :
    ∃ k ≤ plugWnd + plugWnd,
      (Plug.kcpRecv block input soc maxlen).block.rcvNxt = block.rcvNxt + UInt32.ofNat k := by
  obtain ⟨hread, segs, hqueue, hnxt⟩ := h.kcpRecvInput input soc
  obtain ⟨-, taken, htakes⟩ := hread.drain maxlen
  obtain ⟨k, hk, hlen⟩ := htakes.nxt
  have hbuf := hread.window.length_le
  have hroom := hread.room
  have hcount := congrArg List.length hqueue
  rw [numbers_length] at hbuf
  rw [List.length_append, ← hread.queued] at hcount
  refine ⟨segs.length + k, by omega, ?_⟩
  show (Plug.drain _ maxlen).block.rcvNxt = _
  rw [hk, hnxt, UInt32.ofNat_add, UInt32.add_assoc]

/-- Every call keeps the rings and moves the counters forward only. -/
theorem Ringed.call {conv : UInt32} {block block' : IKCPCB} (h : Ringed conv block)
    (hc : Call block block') : Ringed conv block' ∧ Forward block block' := by
  have hsound := h.sound.call hc
  have hplug : plugWnd = 128 := rfl
  cases hc with
  | send data =>
      have hrcv := h.rcv.fixed (RecvFixed.send block data data.length)
      refine ⟨⟨hsound, h.snd.send h.sound data, hrcv⟩, ?_, ?_, ?_⟩
      all_goals
        rw [kcpSend_eq]
        exact forward_of_eq rfl
  | update dlt =>
      have hfixed := RecvFixed.update block dlt
      obtain ⟨hsnd, huna, k, hk, hnxt⟩ := h.snd.update h.sound dlt
      exact ⟨⟨hsound, hsnd, h.rcv.fixed hfixed⟩, forward_of_eq huna,
        forward_of_add hnxt (by omega), forward_of_eq hfixed.nxt⟩
  | recv input soc maxlen =>
      have htrimmed := Trimmed.kcpRecv block input soc maxlen
      obtain ⟨hsnd, hmoved⟩ := h.snd.trimmed htrimmed
      obtain ⟨k, hk, hnxt⟩ := h.rcv.kcpRecv_nxt input soc maxlen
      have hsize := h.snd.size
      exact ⟨⟨hsound, hsnd, h.rcv.kcpRecv input soc maxlen⟩, forward_of_offset (by omega),
        forward_of_eq htrimmed.nxt, forward_of_add hnxt (by omega)⟩

theorem ringed_of_reachable {conv : UInt32} {block : IKCPCB} (h : Reachable conv block) :
    Ringed conv block := by
  induction h with
  | refl => exact Ringed.new conv
  | tail _ hc ih => exact (ih.call hc).1

/-- Whatever was sent, whatever the clocks said and whatever arrived: a block of the plug
is well represented after every operation, and the operation moved no counter backwards.
No window bounds `nsnd_que`: its natural number is the counter of the source as long as fewer
than `2 ^ 32` segments are queued. -/
theorem represented_of_reachable {conv : UInt32} {block : IKCPCB} (h : Reachable conv block) :
    Represented block ∧
      ∀ block', Call block block' → Represented block' ∧ Forward block block' := by
  have hringed := ringed_of_reachable h
  refine ⟨hringed.represented, ?_⟩
  intro block' hc
  obtain ⟨hringed', hforward⟩ := hringed.call hc
  exact ⟨hringed'.represented, hforward⟩

/-- A forged data segment far ahead of its predecessors stays in `rcv_buf`. -/
theorem represented_of_forged :
    (kcpRecv (newKcpPlugControlBlock 7) (some [7, 0, 0, 0, 81, 9, 0, 0, 0, 0, 0, 0,
        127, 0, 0, 0, 255, 255, 255, 255, 1, 0, 0, 0, 65]) [] 512).block.nrcvBuf = 1 ∧
    Represented (kcpRecv (newKcpPlugControlBlock 7) (some [7, 0, 0, 0, 81, 9, 0, 0, 0, 0, 0, 0,
        127, 0, 0, 0, 255, 255, 255, 255, 1, 0, 0, 0, 65]) [] 512).block :=
  ⟨by decide, (represented_of_reachable
    (Relation.ReflTransGen.single (Call.recv _ _ [] 512))).1⟩

end UdpKcp.Plug
