import UdpKcp.Ikcp.Check
import UdpKcp.Plug.FlushWire

/-! # Making a flush happen

Which clocks make `ikcp_update` flush, and what a flush is sure to emit: due
segments, an acknowledgement for every entry of the ack list, a probe once the
remote window has been zero for long enough, an announcement once asked for.
-/

namespace UdpKcp.Plug

open ByteCodec (Bytes)
open Ikcp

/-! ## The flush timer -/

/-- Some clock at or after a given time makes a flush due. -/
theorem exists_clock (kcp : IKCPCB) (target : UInt32) :
    ∃ current, (updateTimer kcp current).2 = true ∧ itimediff current target ≥ 0 := by
  have hself : ∀ x, itimediff x x = 0 := Serial.diff_self
  by_cases hwait : Waiting kcp target
  · obtain ⟨-, hlow, hlate⟩ := hwait
    have hflip : itimediff kcp.tsFlush target = -itimediff target kcp.tsFlush :=
      Serial.diff_flip (show -(2 ^ 31) < itimediff target kcp.tsFlush by omega)
    have hnow : ¬ Waiting kcp kcp.tsFlush := by
      rintro ⟨-, -, hbefore⟩
      rw [hself] at hbefore
      exact absurd hbefore (Int.lt_irrefl 0)
    refine ⟨kcp.tsFlush, updateTimer_due hnow, ?_⟩
    omega
  · exact ⟨target, updateTimer_due hwait, Int.le_of_eq (hself target).symm⟩

theorem updateTimer_current (kcp : IKCPCB) (current : UInt32) :
    (updateTimer kcp current).1.current = current := by
  rw [updateTimer_eq]

/-! ## What a flush emits -/

theorem or_and_ne_zero {a b m : UInt32} (h : a &&& m ≠ 0) : (a ||| b) &&& m ≠ 0 := by
  have hdist : (a ||| b) &&& m = (a &&& m) ||| (b &&& m) :=
    UInt32.toBitVec_inj.mp BitVec.and_or_distrib_right
  rw [hdist]
  exact fun hzero => h (UInt32.or_eq_zero_iff.mp hzero).1

/-- The probe timer can only ask for a probe. -/
theorem probeTimer_probe (kcp : IKCPCB) :
    (probeTimer kcp).probe = kcp.probe ∨ (probeTimer kcp).probe = kcp.probe ||| ikcpAskSend := by
  unfold probeTimer
  by_cases hclosed : kcp.rmtWnd = 0
  · by_cases hwait : kcp.probeWait = 0
    · simp [hclosed, hwait]
    · by_cases hdue : itimediff kcp.current kcp.tsProbe ≥ 0
      · simp [hclosed, hwait, hdue]
      · simp [hclosed, hwait, hdue]
  · simp [hclosed]

theorem flushOpened_current (kcp : IKCPCB) : (flushOpened kcp).current = kcp.current := by
  have hprobed : (flushProbed kcp).current = kcp.current := by rw [flushProbed_eq]
  exact hprobed

/-- A buffered segment whose time has come is transmitted. -/
theorem due_emitted {kcp : IKCPCB} {seg : IKCPSEG} (hseg : seg ∈ kcp.sndBuf)
    (hdue : itimediff kcp.current seg.resendts ≥ 0) :
    stampSegment (flushOpened kcp) (ikcpWndUnused kcp) seg ∈ flushSegments kcp := by
  have hmem : seg ∈ (flushOpened kcp).sndBuf := by
    obtain ⟨opened, hopened, -, -⟩ := flushOpened_moved kcp
    rw [hopened]
    exact List.mem_append_left _ hseg
  have hreason : sendReason (flushOpened kcp) seg ≠ .idle := by
    unfold sendReason
    rw [flushOpened_current]
    by_cases hfirst : seg.xmit = 0
    · simp [hfirst]
    · simp [hfirst, hdue]
  apply List.mem_append_right
  exact List.mem_map_of_mem (List.mem_filter.mpr ⟨hmem, by simpa using hreason⟩)

theorem ack_emitted {kcp : IKCPCB} {ack : UInt32 × UInt32} (h : ack ∈ kcp.acklist) :
    { flushSeg kcp with sn := ack.1, ts := ack.2 } ∈ flushSegments kcp := by
  apply List.mem_append_left
  apply List.mem_append_left
  exact List.mem_map_of_mem h

/-- With the remote window closed and the probe timer run out, a window probe. -/
theorem wask_emitted {kcp : IKCPCB} (hclosed : kcp.rmtWnd = 0) (hwait : kcp.probeWait ≠ 0)
    (hdue : itimediff kcp.current kcp.tsProbe ≥ 0) :
    ∃ seg ∈ flushSegments kcp, seg.cmd = ikcpCmdWask := by
  have hprobe : (flushProbed kcp).probe &&& ikcpAskSend ≠ 0 := by
    unfold flushProbed probeTimer
    simp only [hclosed, hwait, hdue, if_true, if_false]
    rw [UInt32.or_comm]
    exact or_and_ne_zero (by decide)
  refine ⟨_, List.mem_append_left _ (List.mem_append_right _ (List.mem_append_left _
    (show { lastAck (flushSeg kcp) kcp.acklist with cmd := ikcpCmdWask } ∈ _ from ?_))), rfl⟩
  unfold probeSegments
  rw [if_pos hprobe]
  exact List.mem_singleton.mpr rfl

theorem wins_emitted {kcp : IKCPCB} (hask : kcp.probe &&& ikcpAskTell ≠ 0) :
    ∃ seg, seg ∈ flushSegments kcp := by
  have hprobe : (flushProbed kcp).probe &&& ikcpAskTell ≠ 0 := by
    unfold flushProbed
    rcases probeTimer_probe { kcp with acklist := [] } with heq | heq
    · rw [heq]
      exact hask
    · rw [heq]
      exact or_and_ne_zero hask
  refine ⟨_, List.mem_append_left _ (List.mem_append_right _ (List.mem_append_right _
    (show { lastAck (flushSeg kcp) kcp.acklist with cmd := ikcpCmdWins } ∈ _ from ?_)))⟩
  unfold probeSegments
  rw [if_pos hprobe]
  exact List.mem_singleton.mpr rfl

/-- Every emitted segment announces the free part of the receive queue. -/
theorem flushSegments_wnd {kcp : IKCPCB} {seg : IKCPSEG} (h : seg ∈ flushSegments kcp) :
    seg.wnd = ikcpWndUnused kcp := by
  obtain ⟨sn, ts, hlast⟩ := lastAck_template (flushSeg kcp) kcp.acklist
  unfold flushSegments at h
  rcases List.mem_append.mp h with h | h
  · rcases List.mem_append.mp h with h | h
    · obtain ⟨ack, -, rfl⟩ := List.mem_map.mp h
      rfl
    · rcases List.mem_append.mp h with h | h
      · rw [mem_probeSegments h, hlast]
        rfl
      · rw [mem_probeSegments h, hlast]
        rfl
  · obtain ⟨s, -, hreason, rfl⟩ := mem_dueSegments h
    exact stampSegment_wnd hreason

end UdpKcp.Plug
