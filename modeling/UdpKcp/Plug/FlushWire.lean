import UdpKcp.Plug.Reachable
import Mathlib.Data.List.Forall2

/-! # What a flush puts on the wire

Every datagram of a flush is a run of whole segments within the plug's MTU.
Reading the datagrams back field by field gives the emitted segments in order,
and a peer of the same conversation takes every one of them.
-/

namespace UdpKcp.Plug

open ByteCodec (Bytes)
open Ikcp

/-! ## Reading a datagram back -/

/-- The headers and payloads of a datagram, read with the field decoding of
`ikcp_input`; `none` when its end cuts a segment. -/
def decodeSegs : Nat → Bytes → Option (List (SegHeader × Bytes))
  | 0, data => if data = [] then some [] else none
  | fuel + 1, data =>
      if data = [] then some []
      else if data.length < ikcpOverhead then none
      else
        let h := (decodeHeader data).1
        let body := (decodeHeader data).2
        if body.length < h.len.toNat then none
        else
          (decodeSegs fuel (body.drop h.len.toNat)).map ((h, body.take h.len.toNat) :: ·)

def decodeDatagram (data : Bytes) : Option (List (SegHeader × Bytes)) :=
  decodeSegs data.length data

theorem decodeSegs_cons {fuel : Nat} {seg : IKCPSEG} (h : seg.Encodable) (rest : Bytes) :
    decodeSegs (fuel + 1) (seg.bytes ++ rest) =
      (decodeSegs fuel rest).map ((seg.header, seg.data) :: ·) := by
  have hlen : seg.header.len.toNat = seg.data.length := h.len_toNat
  have hdec : decodeHeader (seg.bytes ++ rest) = (seg.header, seg.data ++ rest) := by
    rw [IKCPSEG.bytes, List.append_assoc]
    exact decodeHeader_encode seg (seg.data ++ rest)
  have hne : seg.bytes ++ rest ≠ [] := by
    simp [seg.bytes_ne_nil]
  have hroom : ¬ (seg.bytes ++ rest).length < ikcpOverhead := by
    rw [List.length_append, IKCPSEG.bytes_length]
    omega
  have hbody : ¬ (seg.data ++ rest).length < seg.header.len.toNat := by
    rw [List.length_append]
    omega
  rw [decodeSegs, if_neg hne, if_neg hroom]
  simp only [hdec]
  rw [if_neg hbody, hlen, List.take_left, List.drop_left]

theorem decodeSegs_segmentBytes {fuel : Nat} {segs : List IKCPSEG}
    (h : ∀ seg ∈ segs, seg.Encodable) (hfuel : segs.length ≤ fuel) :
    decodeSegs fuel (segmentBytes segs) =
      some (segs.map fun seg => (seg.header, seg.data)) := by
  induction segs generalizing fuel with
  | nil => cases fuel <;> rfl
  | cons seg segs ih =>
      cases fuel with
      | zero => simp at hfuel
      | succ fuel =>
          have hrest := ih (fun s hs => h s (List.mem_cons_of_mem _ hs)) (by simpa using hfuel)
          rw [segmentBytes_cons, decodeSegs_cons (h seg List.mem_cons_self), hrest]
          rfl

theorem decodeDatagram_segmentBytes {segs : List IKCPSEG} (h : ∀ seg ∈ segs, seg.Encodable) :
    decodeDatagram (segmentBytes segs) = some (segs.map fun seg => (seg.header, seg.data)) := by
  have hlen := length_le_segmentBytes segs
  unfold ikcpOverhead at hlen
  exact decodeSegs_segmentBytes h (by omega)

/-! ## The emitted segments fit their fields -/

theorem wndUnused_le (kcp : IKCPCB) : (ikcpWndUnused kcp).toNat ≤ kcp.rcvWnd.toNat := by
  unfold ikcpWndUnused
  split
  · rename_i hlt
    have hwnd := kcp.rcvWnd.toNat_lt
    have hque : (UInt32.ofNat kcp.nrcvQue).toNat = kcp.nrcvQue := by
      rw [UInt32.toNat_ofNat']
      omega
    rw [UInt32.toNat_sub_of_le _ _ (UInt32.le_iff_toNat_le.mpr (by omega))]
    omega
  · exact Nat.zero_le _

theorem stampSegment_wnd {kcp : IKCPCB} {wnd : UInt32} {seg : IKCPSEG}
    (h : sendReason kcp seg ≠ .idle) : (stampSegment kcp wnd seg).wnd = wnd := by
  unfold stampSegment
  dsimp only
  split
  · contradiction
  · rfl
  · rfl
  · rfl

/-- A segment without payload: an acknowledgement or a probe. -/
theorem control_acceptable {conv : UInt32} {seg : IKCPSEG} (hconv : seg.conv = conv)
    (hcmd : seg.cmd = ikcpCmdAck ∨ seg.cmd = ikcpCmdWask ∨ seg.cmd = ikcpCmdWins)
    (hfrg : seg.frg = 0) (hwnd : seg.wnd.toNat ≤ plugWnd) (hdata : seg.data = []) :
    Acceptable conv seg where
  cmd_lt := by rcases hcmd with h | h | h <;> rw [h] <;> decide
  frg_lt := by rw [hfrg]; decide
  wnd_lt := Nat.lt_of_le_of_lt hwnd (by decide)
  len_lt := by rw [hdata]; decide
  conv_eq := hconv
  cmd_valid := by rcases hcmd with h | h | h <;> rw [h] <;> decide

theorem Sendable.acceptable {conv : UInt32} {seg : IKCPSEG} (h : Sendable conv seg)
    (hwnd : seg.wnd.toNat ≤ plugWnd) : Acceptable conv seg where
  cmd_lt := by rw [h.cmd_eq]; decide
  frg_lt := Nat.lt_of_lt_of_le h.frg_lt (by decide)
  wnd_lt := Nat.lt_of_le_of_lt hwnd (by decide)
  len_lt := Nat.lt_of_le_of_lt h.fits (by decide)
  conv_eq := h.conv_eq
  cmd_valid := by rw [h.cmd_eq]; decide

/-- The template keeps its conversation, fragment number, window and empty payload. -/
theorem lastAck_template (seg : IKCPSEG) (acks : List (UInt32 × UInt32)) :
    ∃ sn ts, lastAck seg acks = { seg with sn := sn, ts := ts } := by
  induction acks generalizing seg with
  | nil => exact ⟨seg.sn, seg.ts, rfl⟩
  | cons ack acks ih =>
      obtain ⟨sn, ts, h⟩ := ih { seg with sn := ack.1, ts := ack.2 }
      exact ⟨sn, ts, h⟩

theorem mem_probeSegments {probe bit cmd : UInt32} {seg s : IKCPSEG}
    (h : s ∈ probeSegments probe bit cmd seg) : s = { seg with cmd := cmd } := by
  unfold probeSegments at h
  split at h
  · exact List.mem_singleton.mp h
  · exact absurd h List.not_mem_nil

/-- Every emitted segment is accepted by a peer of the conversation and fits the MTU. -/
theorem Sound.flushSegments {conv : UInt32} {block : IKCPCB} (h : Sound conv block)
    {seg : IKCPSEG} (hs : seg ∈ flushSegments block) :
    Acceptable conv seg ∧ seg.data.length ≤ plugMss := by
  have hwnd : (ikcpWndUnused block).toNat ≤ plugWnd := by
    rw [← h.rcvWnd_toNat]
    exact wndUnused_le block
  obtain ⟨sn, ts, hlast⟩ := lastAck_template (flushSeg block) block.acklist
  unfold Ikcp.flushSegments at hs
  rcases List.mem_append.mp hs with hs | hs
  · rcases List.mem_append.mp hs with hs | hs
    · obtain ⟨ack, -, rfl⟩ := List.mem_map.mp hs
      exact ⟨control_acceptable h.conv_eq (Or.inl rfl) rfl hwnd rfl, Nat.zero_le _⟩
    · rcases List.mem_append.mp hs with hs | hs
      · rw [mem_probeSegments hs, hlast]
        exact ⟨control_acceptable h.conv_eq (Or.inr (Or.inl rfl)) rfl hwnd rfl, Nat.zero_le _⟩
      · rw [mem_probeSegments hs, hlast]
        exact ⟨control_acceptable h.conv_eq (Or.inr (Or.inr rfl)) rfl hwnd rfl, Nat.zero_le _⟩
  · obtain ⟨s, hmem, hreason, rfl⟩ := mem_dueSegments hs
    have hsend : Sendable conv (stampSegment (flushOpened block) (ikcpWndUnused block) s) := by
      apply Sendable.of_core
      rw [stampSegment_core]
      exact (h.opened.sendable hmem).core
    exact ⟨hsend.acceptable (by rw [stampSegment_wnd hreason]; exact hwnd), hsend.fits⟩

/-! ## The datagrams -/

/-- The segments that an update emits: those of its flush, if it makes one. -/
def updateSegments (block : IKCPCB) (dlt : UInt32) : List IKCPSEG :=
  if (updateTimer block dlt).2 then Ikcp.flushSegments (updateTimer block dlt).1 else []

/-- The datagrams of an update: the emitted segments in non-empty groups within the MTU. -/
theorem Sound.update_groups {conv : UInt32} {block : IKCPCB} (h : Sound conv block)
    (dlt : UInt32) :
    ∃ groups : List (List IKCPSEG), groups.flatten = updateSegments block dlt ∧
      (kcpUpdate block dlt).2 = groups.map segmentBytes ∧
      (∀ g ∈ groups, g ≠ []) ∧ ∀ g ∈ groups, (segmentBytes g).length ≤ maxUdpMtu := by
  unfold kcpUpdate updateSegments
  cases hdue : (updateTimer block dlt).2 with
  | false =>
      rw [ikcpUpdate_idle hdue]
      exact ⟨[], rfl, rfl, by simp, by simp⟩
  | true =>
      have ht := h.timed dlt
      rw [ikcpUpdate_due hdue, ikcpFlush_sent (updateTimer_updated block dlt), ht.mtu_toNat]
      apply Packing.pack_map_groups (fun seg _ => seg.bytes_ne_nil)
      intro seg hs
      have hfit := (ht.flushSegments hs).2
      rw [IKCPSEG.bytes_length]
      unfold plugMss maxUdpMtu ikcpOverhead at *
      omega

theorem Sound.updateSegments {conv : UInt32} {block : IKCPCB} (h : Sound conv block)
    {dlt : UInt32} {seg : IKCPSEG} (hs : seg ∈ updateSegments block dlt) :
    Acceptable conv seg := by
  unfold Plug.updateSegments at hs
  split at hs
  · exact ((h.timed dlt).flushSegments hs).1
  · exact absurd hs List.not_mem_nil

theorem forall₂_carries {segs : List IKCPSEG} (h : ∀ seg ∈ segs, seg.Encodable) :
    List.Forall₂ Carries (segs.map fun seg => (seg.header, seg.data)) segs := by
  rw [List.forall₂_map_left_iff, List.forall₂_same]
  exact fun seg hs => (h seg hs).carries

/-- An emitted datagram has 24 to 576 bytes and is taken without error. -/
theorem Sound.emitted {conv : UInt32} {block : IKCPCB} (h : Sound conv block) {dlt : UInt32}
    {d : Bytes} (hd : d ∈ (kcpUpdate block dlt).2) :
    (ikcpOverhead ≤ d.length ∧ d.length ≤ maxUdpMtu) ∧
      ∀ peer : IKCPCB, peer.conv = conv → (ikcpInput peer d).2 = 0 := by
  obtain ⟨groups, hflat, hsent, hne, hfit⟩ := h.update_groups dlt
  rw [hsent] at hd
  obtain ⟨g, hg, rfl⟩ := List.mem_map.mp hd
  have hpos := List.length_pos_iff.mpr (hne g hg)
  have hlen := length_le_segmentBytes g
  have hacc : ∀ seg ∈ g, Acceptable conv seg := by
    intro seg hs
    have hmem : seg ∈ Plug.updateSegments block dlt := by
      rw [← hflat]
      exact List.mem_flatten_of_mem hg hs
    exact h.updateSegments hmem
  constructor
  · refine ⟨?_, hfit g hg⟩
    unfold ikcpOverhead at *
    omega
  · intro peer hconv
    rw [ikcpInput_segments (hne g hg) fun seg hs => (hacc seg hs).cast hconv]

/-- Every flush of a reachable block: whole segments in datagrams of 24 to 576 bytes,
which decode to exactly the acknowledgements, pending probes and due data of the
block in that order, and which a peer of the conversation takes without error. -/
theorem kcpUpdate_wire {conv : UInt32} {block : IKCPCB} (h : Reachable conv block)
    {dlt : UInt32} (hdue : (updateTimer block dlt).2 = true) :
    (∀ d ∈ (kcpUpdate block dlt).2, ikcpOverhead ≤ d.length ∧ d.length ≤ maxUdpMtu) ∧
    (∃ decoded : List (List (SegHeader × Bytes)),
      (kcpUpdate block dlt).2.map decodeDatagram = decoded.map some ∧
      List.Forall₂ Carries decoded.flatten (flushSegments (updateTimer block dlt).1)) ∧
    ∀ peer : IKCPCB, peer.conv = conv → ∀ d ∈ (kcpUpdate block dlt).2,
      (ikcpInput peer d).2 = 0 := by
  have hsound := sound_of_reachable h
  obtain ⟨groups, hflat, hsent, hne, hfit⟩ := hsound.update_groups dlt
  have hall : updateSegments block dlt = flushSegments (updateTimer block dlt).1 := if_pos hdue
  refine ⟨fun d hd => (hsound.emitted hd).1,
    ⟨groups.map fun g => g.map fun seg => (seg.header, seg.data), ?_, ?_⟩,
    fun peer hconv d hd => (hsound.emitted hd).2 peer hconv⟩
  · rw [hsent, List.map_map, List.map_map]
    apply List.map_congr_left
    intro g hg
    apply decodeDatagram_segmentBytes
    intro seg hs
    have hmem : seg ∈ Plug.updateSegments block dlt := by
      rw [← hflat]
      exact List.mem_flatten_of_mem hg hs
    exact (hsound.updateSegments hmem).toEncodable
  · rw [← List.map_flatten, hflat, ← hall]
    exact forall₂_carries fun seg hs => (hsound.updateSegments hs).toEncodable

/-- A block with a queued message that has flushed once. -/
def flushedOnce : IKCPCB := (kcpUpdate (kcpSend (newKcpPlugControlBlock 7) [1, 2] 2).1 0).1

/-- Its second flush sends the message. -/
theorem kcpUpdate_wire_second :
    (flushSegments (updateTimer flushedOnce 10).1).map IKCPSEG.data = [[1, 2]] ∧
    (∀ d ∈ (kcpUpdate flushedOnce 10).2, ikcpOverhead ≤ d.length ∧ d.length ≤ maxUdpMtu) ∧
    (∃ decoded : List (List (SegHeader × Bytes)),
      (kcpUpdate flushedOnce 10).2.map decodeDatagram = decoded.map some ∧
      List.Forall₂ Carries decoded.flatten (flushSegments (updateTimer flushedOnce 10).1)) ∧
    ∀ peer : IKCPCB, peer.conv = 7 → ∀ d ∈ (kcpUpdate flushedOnce 10).2,
      (ikcpInput peer d).2 = 0 := by
  have hreach : Reachable 7 flushedOnce :=
    (Relation.ReflTransGen.single (Call.send _ [1, 2])).tail (Call.update _ 0)
  exact ⟨by decide, kcpUpdate_wire hreach (by decide)⟩

end UdpKcp.Plug
