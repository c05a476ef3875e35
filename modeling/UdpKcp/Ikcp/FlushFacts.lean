import UdpKcp.Ikcp.Flush
import UdpKcp.Ikcp.InputFacts

/-! # Facts about flushing

The writing pointer of `ikcp_flush` never looks at the control block, so a flush
splits into the list of segments it emits, packed greedily under the MTU, and
the block it leaves. Both are stated here in closed form and used in place of
the loops from then on.
-/

namespace UdpKcp.Ikcp

open ByteCodec (Bytes)
open Packing (Packer pack)

/-! ## The emitted segments -/

/-- One acknowledgement per entry of the ack list, in order. -/
def ackSegments (seg : IKCPSEG) (acks : List (UInt32 × UInt32)) : List IKCPSEG :=
  acks.map fun ack => { seg with sn := ack.1, ts := ack.2 }

/-- The template after the acknowledgement loop. -/
def lastAck (seg : IKCPSEG) (acks : List (UInt32 × UInt32)) : IKCPSEG :=
  acks.foldl (fun seg ack => { seg with sn := ack.1, ts := ack.2 }) seg

/-- The probe command, if its bit is pending. -/
def probeSegments (probe bit cmd : UInt32) (seg : IKCPSEG) : List IKCPSEG :=
  if probe &&& bit ≠ 0 then [{ seg with cmd := cmd }] else []

/-- The segments of a send buffer that the data loop transmits, as transmitted. -/
def dueSegments (kcp : IKCPCB) (wnd : UInt32) (buf : List IKCPSEG) : List IKCPSEG :=
  (buf.filter fun segment => sendReason kcp segment ≠ .idle).map (stampSegment kcp wnd)

/-- The block when the probe bits are read. -/
def flushProbed (kcp : IKCPCB) : IKCPCB := probeTimer { kcp with acklist := [] }

/-- The block when the data loop starts. -/
def flushOpened (kcp : IKCPCB) : IKCPCB :=
  moveSndQueue { flushProbed kcp with probe := 0 } (ikcpWndUnused kcp)
    (flushCwnd { flushProbed kcp with probe := 0 })

/-- Everything a flush emits, in order: acknowledgements, a window probe, a window
announcement, due data. -/
def flushSegments (kcp : IKCPCB) : List IKCPSEG :=
  ackSegments (flushSeg kcp) kcp.acklist ++
    (probeSegments (flushProbed kcp).probe ikcpAskSend ikcpCmdWask
        (lastAck (flushSeg kcp) kcp.acklist) ++
      probeSegments (flushProbed kcp).probe ikcpAskTell ikcpCmdWins
        (lastAck (flushSeg kcp) kcp.acklist)) ++
    dueSegments (flushOpened kcp) (ikcpWndUnused kcp) (flushOpened kcp).sndBuf

/-- Template and writing pointer when the data loop starts. -/
def flushWriter (kcp : IKCPCB) : IKCPSEG × Packer UInt8 :=
  flushProbe (flushProbed kcp).mtu (flushProbed kcp).probe ikcpAskTell ikcpCmdWins
    (flushProbe (flushProbed kcp).mtu (flushProbed kcp).probe ikcpAskSend ikcpCmdWask
      (flushAcks kcp.mtu (flushSeg kcp, {}) kcp.acklist))

/-- The data loop of a flush, run to its end. -/
def flushLoop (kcp : IKCPCB) : DataLoop :=
  (flushOpened kcp).sndBuf.foldl (flushSegment (flushOpened kcp) (ikcpWndUnused kcp))
    { out := (flushWriter kcp).2, xmit := (flushOpened kcp).xmit, state := (flushOpened kcp).state }

/-! ## The loops in closed form -/

theorem flushAcks_eq (mtu : UInt32) (seg : IKCPSEG) (out : Packer UInt8)
    (acks : List (UInt32 × UInt32)) :
    flushAcks mtu (seg, out) acks =
      (lastAck seg acks,
        out.putAll mtu.toNat ((ackSegments seg acks).map IKCPSEG.bytes)) := by
  induction acks generalizing seg out with
  | nil => rfl
  | cons ack acks ih =>
      rw [flushAcks, ih]
      rfl

theorem lastAck_wnd (seg : IKCPSEG) (acks : List (UInt32 × UInt32)) :
    (lastAck seg acks).wnd = seg.wnd := by
  induction acks generalizing seg with
  | nil => rfl
  | cons ack acks ih => exact ih { seg with sn := ack.1, ts := ack.2 }

theorem flushProbe_out (mtu probe bit cmd : UInt32) (acc : IKCPSEG × Packer UInt8) :
    (flushProbe mtu probe bit cmd acc).2 =
      acc.2.putAll mtu.toNat ((probeSegments probe bit cmd acc.1).map IKCPSEG.bytes) := by
  unfold flushProbe probeSegments
  split <;> rfl

/-- A probe changes nothing of the template but its command. -/
theorem flushProbe_template (mtu probe bit cmd : UInt32) (acc : IKCPSEG × Packer UInt8) :
    ∃ c, (flushProbe mtu probe bit cmd acc).1 = { acc.1 with cmd := c } := by
  unfold flushProbe
  split
  · exact ⟨cmd, rfl⟩
  · exact ⟨acc.1.cmd, rfl⟩

theorem flushProbe_wnd (mtu probe bit cmd : UInt32) (acc : IKCPSEG × Packer UInt8) :
    (flushProbe mtu probe bit cmd acc).1.wnd = acc.1.wnd := by
  unfold flushProbe
  split <;> rfl

theorem flushSegment_done (kcp : IKCPCB) (wnd : UInt32) (st : DataLoop) (segment : IKCPSEG) :
    (flushSegment kcp wnd st segment).done = st.done ++ [stampSegment kcp wnd segment] := by
  unfold flushSegment
  dsimp only
  split <;> rfl

theorem flushSegment_out (kcp : IKCPCB) (wnd : UInt32) (st : DataLoop) (segment : IKCPSEG) :
    (flushSegment kcp wnd st segment).out =
      st.out.putAll kcp.mtu.toNat ((dueSegments kcp wnd [segment]).map IKCPSEG.bytes) := by
  unfold flushSegment dueSegments
  by_cases hidle : sendReason kcp segment = .idle
  · simp [hidle]
  · simp [hidle, writeSeg]

theorem dueSegments_cons (kcp : IKCPCB) (wnd : UInt32) (segment : IKCPSEG)
    (buf : List IKCPSEG) :
    dueSegments kcp wnd (segment :: buf) =
      dueSegments kcp wnd [segment] ++ dueSegments kcp wnd buf := by
  unfold dueSegments
  rw [← List.map_append, ← List.filter_append, List.singleton_append]

theorem mem_dueSegments {kcp : IKCPCB} {wnd : UInt32} {buf : List IKCPSEG} {seg : IKCPSEG}
    (h : seg ∈ dueSegments kcp wnd buf) :
    ∃ s ∈ buf, sendReason kcp s ≠ .idle ∧ seg = stampSegment kcp wnd s := by
  obtain ⟨s, hs, rfl⟩ := List.mem_map.mp h
  obtain ⟨hmem, hreason⟩ := List.mem_filter.mp hs
  exact ⟨s, hmem, by simpa using hreason, rfl⟩

/-- The data loop stamps every segment and packs the due ones. -/
theorem flushData_eq (kcp : IKCPCB) (wnd : UInt32) (st : DataLoop) (buf : List IKCPSEG) :
    (buf.foldl (flushSegment kcp wnd) st).done = st.done ++ buf.map (stampSegment kcp wnd) ∧
    (buf.foldl (flushSegment kcp wnd) st).out =
      st.out.putAll kcp.mtu.toNat ((dueSegments kcp wnd buf).map IKCPSEG.bytes) := by
  induction buf generalizing st with
  | nil => exact ⟨(List.append_nil _).symm, rfl⟩
  | cons segment buf ih =>
      obtain ⟨hdone, hout⟩ := ih (flushSegment kcp wnd st segment)
      constructor
      · rw [List.foldl_cons, hdone, flushSegment_done]
        simp
      · rw [List.foldl_cons, hout, flushSegment_out, dueSegments_cons kcp wnd segment buf,
          List.map_append, Packer.putAll_append]

/-! ## The block a flush leaves -/

theorem flushCongestion_eq (kcp : IKCPCB) (change : Nat) (lost : Bool) (cwnd resent : UInt32) :
    flushCongestion kcp change lost cwnd resent =
      { kcp with
        ssthresh := (flushCongestion kcp change lost cwnd resent).ssthresh
        cwnd := (flushCongestion kcp change lost cwnd resent).cwnd
        incr := (flushCongestion kcp change lost cwnd resent).incr } := by
  unfold flushCongestion
  dsimp only
  split_ifs <;> rfl

theorem probeTimer_eq (kcp : IKCPCB) :
    probeTimer kcp =
      { kcp with
        probe := (probeTimer kcp).probe
        tsProbe := (probeTimer kcp).tsProbe
        probeWait := (probeTimer kcp).probeWait } := by
  unfold probeTimer
  dsimp only
  split_ifs <;> rfl

/-- When the probe bits are read, only the ack list and the probe fields have changed. -/
theorem flushProbed_eq (kcp : IKCPCB) :
    flushProbed kcp =
      { kcp with
        acklist := []
        probe := (flushProbed kcp).probe
        tsProbe := (flushProbed kcp).tsProbe
        probeWait := (flushProbed kcp).probeWait } :=
  probeTimer_eq { kcp with acklist := [] }

theorem flushProbed_sndQueue (kcp : IKCPCB) : (flushProbed kcp).sndQueue = kcp.sndQueue := by
  rw [flushProbed_eq]

theorem flushProbed_sndBuf (kcp : IKCPCB) : (flushProbed kcp).sndBuf = kcp.sndBuf := by
  rw [flushProbed_eq]

/-- The window is never left closed. -/
theorem flushCongestion_cwnd_pos (kcp : IKCPCB) (change : Nat) (lost : Bool)
    (cwnd resent : UInt32) : 0 < (flushCongestion kcp change lost cwnd resent).cwnd.toNat := by
  unfold flushCongestion
  dsimp only
  generalize (if lost = true then _ else _ : IKCPCB) = k
  split
  · exact Nat.one_pos
  · rename_i hge
    by_contra hzero
    have hnat : k.cwnd.toNat = 0 := by omega
    exact hge (UInt32.lt_iff_toNat_lt.mpr (by rw [hnat]; decide))

theorem flushProbed_mtu (kcp : IKCPCB) : (flushProbed kcp).mtu = kcp.mtu := by
  rw [flushProbed_eq]

theorem flushOpened_mtu (kcp : IKCPCB) : (flushOpened kcp).mtu = kcp.mtu := flushProbed_mtu kcp

theorem flushCwnd_le (kcp : IKCPCB) : (flushCwnd kcp).toNat ≤ kcp.sndWnd.toNat := by
  unfold flushCwnd
  dsimp only
  split
  · rw [imin_toNat, imin_toNat]
    exact Nat.le_trans (Nat.min_le_right _ _) (Nat.min_le_left _ _)
  · rw [imin_toNat]
    exact Nat.min_le_left _ _

/-! ## A flush in closed form -/

theorem flushWriter_wnd (kcp : IKCPCB) : (flushWriter kcp).1.wnd = ikcpWndUnused kcp := by
  unfold flushWriter
  rw [flushProbe_wnd, flushProbe_wnd, flushAcks_eq, lastAck_wnd]
  rfl

theorem flushWriter_out (kcp : IKCPCB) :
    (flushWriter kcp).2 = ({} : Packer UInt8).putAll kcp.mtu.toNat
      ((ackSegments (flushSeg kcp) kcp.acklist ++
        (probeSegments (flushProbed kcp).probe ikcpAskSend ikcpCmdWask
            (lastAck (flushSeg kcp) kcp.acklist) ++
          probeSegments (flushProbed kcp).probe ikcpAskTell ikcpCmdWins
            (lastAck (flushSeg kcp) kcp.acklist))).map IKCPSEG.bytes) := by
  unfold flushWriter
  rw [flushAcks_eq, flushProbe_out, flushProbe_out, flushProbed_mtu]
  obtain ⟨c, hc⟩ := flushProbe_template kcp.mtu (flushProbed kcp).probe ikcpAskSend ikcpCmdWask
    (lastAck (flushSeg kcp) kcp.acklist, ({} : Packer UInt8).putAll kcp.mtu.toNat
      ((ackSegments (flushSeg kcp) kcp.acklist).map IKCPSEG.bytes))
  rw [hc]
  simp only [List.map_append, Packer.putAll_append]
  rfl

theorem ikcpFlush_eq {kcp : IKCPCB} (h : kcp.updated ≠ 0) :
    ikcpFlush kcp =
      (flushCongestion
        { flushOpened kcp with
          sndBuf := (flushLoop kcp).done
          xmit := (flushLoop kcp).xmit
          state := (flushLoop kcp).state }
        (flushLoop kcp).change (flushLoop kcp).lost
        (flushCwnd { flushProbed kcp with probe := 0 }) (flushResent (flushOpened kcp)),
      (flushLoop kcp).out.output) := by
  unfold ikcpFlush
  rw [if_neg h]
  unfold flushLoop flushOpened
  rw [← flushWriter_wnd kcp]
  rfl

theorem flushLoop_done (kcp : IKCPCB) :
    (flushLoop kcp).done =
      (flushOpened kcp).sndBuf.map (stampSegment (flushOpened kcp) (ikcpWndUnused kcp)) :=
  (flushData_eq _ _ _ _).1

theorem flushLoop_out (kcp : IKCPCB) :
    (flushLoop kcp).out =
      ({} : Packer UInt8).putAll kcp.mtu.toNat ((flushSegments kcp).map IKCPSEG.bytes) := by
  unfold flushLoop flushSegments
  rw [(flushData_eq _ _ _ _).2, flushOpened_mtu, flushWriter_out, ← Packer.putAll_append,
    ← List.map_append]

/-- The emitted datagrams are the emitted segments, packed under the MTU. -/
theorem ikcpFlush_sent {kcp : IKCPCB} (h : kcp.updated ≠ 0) :
    (ikcpFlush kcp).2 = pack kcp.mtu.toNat ((flushSegments kcp).map IKCPSEG.bytes) := by
  rw [ikcpFlush_eq h]
  exact congrArg Packer.output (flushLoop_out kcp)

/-- What a flush does to the block, its three congestion fields and the two counters apart. -/
theorem ikcpFlush_block {kcp : IKCPCB} (h : kcp.updated ≠ 0) :
    (ikcpFlush kcp).1 =
      { flushOpened kcp with
        sndBuf :=
          (flushOpened kcp).sndBuf.map (stampSegment (flushOpened kcp) (ikcpWndUnused kcp))
        xmit := (ikcpFlush kcp).1.xmit
        state := (ikcpFlush kcp).1.state
        ssthresh := (ikcpFlush kcp).1.ssthresh
        cwnd := (ikcpFlush kcp).1.cwnd
        incr := (ikcpFlush kcp).1.incr } := by
  rw [ikcpFlush_eq h]
  dsimp only
  rw [flushCongestion_eq, flushLoop_done]

theorem ikcpFlush_cwnd_pos {kcp : IKCPCB} (h : kcp.updated ≠ 0) :
    0 < (ikcpFlush kcp).1.cwnd.toNat := by
  rw [ikcpFlush_eq h]
  exact flushCongestion_cwnd_pos _ _ _ _ _

end UdpKcp.Ikcp
