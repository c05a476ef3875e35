import UdpKcp.Library.Descent
import UdpKcp.Link.Delivery
import UdpKcp.Link.Schedule

/-! # No stuck state

From every reachable state a schedule of updates, deliveries and receives, with
no new message sent, empties one side's send queue and buffer and hands the
other side everything that was accepted. The measure is the number of segments
the sender still holds: a closed window is probed open, and one round of
draining, flushing, delivering, answering and delivering back makes it smaller.
-/

namespace UdpKcp.Link

open ByteCodec (Bytes)
open Framing (Piece fragments)
open SelectiveRepeat (Fact Peer Move Moves Half Side)
open Ikcp Plug

/-! ## The next expected piece -/

/-- A piece that could move to an empty queue has moved. -/
theorem RecvShape.next_missing {taken : List (Piece UInt8)} {kcp : IKCPCB}
    (h : RecvShape taken kcp) (hempty : kcp.rcvQueue = []) :
    kcp.rcvNxt.toNat ∉ sns kcp.rcvBuf := by
  have hcount : kcp.nrcvQue = 0 := by
    rw [h.count, hempty]
    rfl
  have hready := h.ready
  have hasc := h.ascending
  have hahead := h.ahead
  intro hmem
  cases hbuf : kcp.rcvBuf with
  | nil =>
      rw [hbuf] at hmem
      exact absurd hmem List.not_mem_nil
  | cons seg rest =>
      rw [hbuf] at hmem hready hasc hahead
      obtain ⟨hhead, -⟩ := ascending_cons.mp hasc
      have hlow := (hahead seg.sn.toNat List.mem_cons_self).1
      have hle : seg.sn.toNat ≤ kcp.rcvNxt.toNat := by
        rcases List.mem_cons.mp hmem with heq | hin
        · exact Nat.le_of_eq heq.symm
        · exact Nat.le_of_lt (hhead _ hin)
      have hfull := hready seg rfl (UInt32.toNat_inj.mp (Nat.le_antisymm hle hlow))
      unfold plugWnd at hfull
      omega

section Invariant

variable {conv : UInt32} {s : State} {said : Side → Set (Fact (Piece UInt8))}
  (h : Inv (InFlight conv) conv s said) (a : Side)

include h

/-- With the receiver drained, what it expects next is in the send buffer, unless it
has everything that was opened. -/
theorem Inv.next_pending (hempty : (s.ep a.other).kcp.rcvQueue = []) :
    (s.ep a.other).kcp.rcvNxt.toNat ∈ sns (s.ep a).kcp.sndBuf ∨
      (s.ep a).kcp.sndNxt.toNat ≤ (s.ep a.other).kcp.rcvNxt.toNat := by
  have hrecv := (h.tracked a.other).recv
  have hhalf : Half ((s.ep a).peer (said a)) ((s.ep a.other).peer (said a.other)) := h.peers a
  by_cases hlt : (s.ep a.other).kcp.rcvNxt.toNat < (s.ep a).kcp.sndNxt.toNat
  · rcases hhalf.covered _ hlt with hpending | haccepted
    · exact Or.inl hpending
    · rcases (view_accepted hrecv.toRecvLoose).mp haccepted with hbelow | hearly
      · exact absurd hbelow (Nat.lt_irrefl _)
      · exact absurd hearly (hrecv.next_missing hempty)
  · exact Or.inr (Nat.le_of_not_lt hlt)

theorem Inv.head_le_next (hempty : (s.ep a.other).kcp.rcvQueue = []) {seg : IKCPSEG}
    {rest : List IKCPSEG} (hbuf : (s.ep a).kcp.sndBuf = seg :: rest) :
    seg.sn.toNat ≤ (s.ep a.other).kcp.rcvNxt.toNat := by
  have hsend := (h.tracked a).send
  have hmem : seg.sn.toNat ∈ sns (s.ep a).kcp.sndBuf := by
    rw [hbuf]
    exact List.mem_cons_self
  rcases h.next_pending a hempty with hpending | hall
  · have hasc := hsend.ascending
    rw [hbuf] at hasc hpending
    rcases List.mem_cons.mp hpending with heq | hin
    · exact Nat.le_of_eq heq.symm
    · exact Nat.le_of_lt ((ascending_cons.mp hasc).1 _ hin)
  · have hbelow := hsend.below _ hmem
    omega

/-- A drained receiver whose sender holds nothing has returned everything. -/
theorem Inv.returned_all (hempty : (s.ep a.other).kcp.rcvQueue = [])
    (hqueue : (s.ep a).kcp.sndQueue = []) (hbuf : (s.ep a).kcp.sndBuf = []) :
    (s.ep a.other).returned = (s.ep a).accepted := by
  have hsend := (h.tracked a).send
  have hnxt := (h.tracked a.other).recv.nxt
  have hhalf : Half ((s.ep a).peer (said a)) ((s.ep a.other).peer (said a.other)) := h.peers a
  have hopened : (s.ep a).stream.length ≤ (s.ep a).kcp.sndNxt.toNat := by
    have hdrop := hsend.queue
    rw [hqueue] at hdrop
    exact List.drop_eq_nil_iff.mp hdrop.symm
  have hlast : (s.ep a).kcp.sndNxt.toNat ≤ (s.ep a.other).taken.length := by
    rw [hempty] at hnxt
    rcases h.next_pending a hempty with hpending | hall
    · rw [hbuf] at hpending
      exact absurd hpending List.not_mem_nil
    · exact Nat.le_trans hall (Nat.le_of_eq hnxt)
  have hreceived : (s.ep a.other).taken <+: (s.ep a).stream := by
    have hbegins : (s.ep a.other).taken ++ (s.ep a.other).kcp.rcvQueue.map piece <+:
        (s.ep a).stream := hhalf.received_stream
    rwa [hempty, List.map_nil, List.append_nil] at hbegins
  have hstream : (s.ep a.other).taken = (s.ep a).stream :=
    hreceived.eq_of_length_le (Nat.le_trans hopened hlast)
  have hfrom := h.delivered a.other
  rw [Side.other_other] at hfrom
  have hto : (s.ep a).accepted <+: (s.ep a.other).returned := by
    apply Framing.prefix_of_flatMap_prefix plugMss_pos
    show (s.ep a).stream <+: (s.ep a.other).taken
    rw [hstream]
  exact hfrom.eq_of_length_le hto.length_le

end Invariant

/-! ## What a flush carries -/

theorem updateSegments_due {block : IKCPCB} {c : UInt32} (h : (updateTimer block c).2 = true) :
    updateSegments block c = flushSegments (updateTimer block c).1 := if_pos h

/-- A buffered segment is sent again by some update. -/
theorem exists_data_update {kcp : IKCPCB} {seg : IKCPSEG} (hseg : seg ∈ kcp.sndBuf) :
    ∃ c, ∃ sent ∈ updateSegments kcp c, sent.core = seg.core := by
  obtain ⟨c, hfires, hdue⟩ := exists_clock kcp seg.resendts
  have hmem : seg ∈ (updateTimer kcp c).1.sndBuf := by
    rw [updateTimer_eq]
    exact hseg
  rw [← updateTimer_current kcp c] at hdue
  have hsent := due_emitted hmem hdue
  rw [← updateSegments_due hfires] at hsent
  exact ⟨c, _, hsent, stampSegment_core _ _ seg⟩

/-- A recorded acknowledgement is sent by some update. -/
theorem exists_ack_update {kcp : IKCPCB} {ack : UInt32 × UInt32} (hack : ack ∈ kcp.acklist) :
    ∃ c, ∃ sent ∈ updateSegments kcp c, sent.sn = ack.1 ∧ sent.cmd = ikcpCmdAck := by
  obtain ⟨c, hfires, -⟩ := exists_clock kcp 0
  have hmem : ack ∈ (updateTimer kcp c).1.acklist := by
    rw [updateTimer_eq]
    exact hack
  have hsent := ack_emitted hmem
  rw [← updateSegments_due hfires] at hsent
  exact ⟨c, _, hsent, rfl, rfl⟩

/-- A window probe is sent once the remote window is closed and the probe timer runs. -/
theorem exists_wask_update {kcp : IKCPCB} (hclosed : kcp.rmtWnd = 0) (hwait : kcp.probeWait ≠ 0) :
    ∃ c, ∃ sent ∈ updateSegments kcp c, sent.cmd = ikcpCmdWask := by
  obtain ⟨c, hfires, hdue⟩ := exists_clock kcp kcp.tsProbe
  have hsent : ∃ seg ∈ flushSegments (updateTimer kcp c).1, seg.cmd = ikcpCmdWask := by
    apply wask_emitted
    · rw [updateTimer_eq]
      exact hclosed
    · rw [updateTimer_eq]
      exact hwait
    · rw [updateTimer_eq]
      exact hdue
  rw [← updateSegments_due hfires] at hsent
  exact ⟨c, hsent⟩

/-- An owed announcement is sent by some update. -/
theorem exists_wins_update {kcp : IKCPCB} (htells : Tells kcp) :
    ∃ c, ∃ sent, sent ∈ updateSegments kcp c := by
  obtain ⟨c, hfires, -⟩ := exists_clock kcp 0
  have hask : (updateTimer kcp c).1.probe &&& ikcpAskTell ≠ 0 := by
    rw [updateTimer_eq]
    exact htells
  have hsent := wins_emitted hask
  rw [← updateSegments_due hfires] at hsent
  exact ⟨c, hsent⟩

/-- A side with an empty receive queue announces its whole window. -/
theorem updateSegments_wnd {conv : UInt32} {kcp : IKCPCB} (h : Sound conv kcp)
    (hcount : kcp.nrcvQue = 0) {c : UInt32} {seg : IKCPSEG} (hseg : seg ∈ updateSegments kcp c) :
    seg.wnd.toNat = plugWnd := by
  have hrcvWnd := h.rcvWnd_toNat
  unfold updateSegments at hseg
  split at hseg
  · have hsame : ikcpWndUnused (updateTimer kcp c).1 = kcp.rcvWnd := by
      rw [updateTimer_eq]
      unfold ikcpWndUnused
      simp only [hcount, hrcvWnd]
      rw [if_pos (by decide)]
      exact UInt32.sub_zero _
    rw [flushSegments_wnd hseg, hsame]
    exact hrcvWnd
  · exact absurd hseg List.not_mem_nil

/-! ## One exchange -/

section Exchange

variable {conv : UInt32} {s s' : State} {a : Side} {c : UInt32} {g : List IKCPSEG}

/-- The head of the send buffer, once carried to a drained receiver, is in its ack list. -/
theorem Carried.recorded (h : Carried conv s s' a c g) (hl : Live conv s)
    (hempty : (s.ep a.other).kcp.rcvQueue = []) {seg : IKCPSEG} {rest : List IKCPSEG}
    (hbuf : (s.ep a).kcp.sndBuf = seg :: rest) {sent : IKCPSEG} (hmem : sent ∈ g)
    (hcore : sent.core = seg.core) : ∃ ts, (seg.sn, ts) ∈ (s'.ep a.other).kcp.acklist := by
  obtain ⟨said₀, hinv₀⟩ := hl.inv
  obtain ⟨said, hinv, hheard⟩ := h.heard
  have hsender : (s.update a c).ep a = (s.ep a).update c := Function.update_self _ _ _
  have hreceiver : (s.update a c).ep a.other = s.ep a.other :=
    Function.update_of_ne (Side.other_ne a) _ _
  have htracked := hinv.tracked a.other
  have hhalf : Half (((s.update a c).ep a).peer (said a))
      (((s.update a c).ep a.other).peer (said a.other)) := hinv.peers a
  have hwindow := (hinv.tracked a).send.window
  rw [hreceiver] at htracked hhalf
  rw [hsender] at hwindow
  have hsn : sent.sn = seg.sn := sn_of_core hcore
  have huna : ((s.ep a).update c).kcp.sndUna = seg.sn := by
    have hshrink := (hinv₀.tracked a).send.una
    unfold ikcpShrinkBuf at hshrink
    rw [hbuf] at hshrink
    exact (kcpUpdate_kept _ c).sndUna.trans hshrink
  have hpush : sent.cmd = ikcpCmdPush := by
    rw [cmd_of_core hcore]
    apply ((hinv₀.tracked a).sound.sendable (_ : seg ∈ _)).cmd_eq
    rw [hbuf]
    exact List.mem_cons_self
  have hcmd : sent.header.cmd.toUInt32 = ikcpCmdPush := by
    show sent.cmd.toUInt8.toUInt32 = ikcpCmdPush
    rw [hpush]
    decide
  have hlow : sent.sn.toNat ≤ (s.ep a.other).kcp.rcvNxt.toNat := by
    rw [hsn]
    exact hinv₀.head_le_next a hempty hbuf
  have hhigh : (((s.update a c).ep a).peer (said a)).opened ≤ sent.sn.toNat + plugWnd := by
    rw [huna] at hwindow
    rw [hsender, hsn]
    exact hwindow
  obtain ⟨ts, hack⟩ := @inputSegments_recorded (said a.other) (s.ep a.other).stream
    (s.ep a.other).taken (((s.update a c).ep a).peer (said a)) { kcp := (s.ep a.other).kcp }
    (hinv.bound a) htracked.send htracked.recv hhalf g hheard sent hmem hcmd hlow hhigh
  rw [hsn] at hack
  exact ⟨ts, h.acklist hack⟩

/-- A carried acknowledgement empties its place in the send buffer. -/
theorem Carried.acked (h : Carried conv s s' a c g) {sent : IKCPSEG} (hmem : sent ∈ g)
    (hack : sent.cmd = ikcpCmdAck) : sent.sn.toNat ∉ sns (s'.ep a.other).kcp.sndBuf := by
  obtain ⟨said, hinv, hheard⟩ := h.heard
  have hreceiver : (s.update a c).ep a.other = s.ep a.other :=
    Function.update_of_ne (Side.other_ne a) _ _
  have htracked := hinv.tracked a.other
  rw [hreceiver] at htracked
  have hcmd : sent.header.cmd.toUInt32 = ikcpCmdAck := by
    show sent.cmd.toUInt8.toUInt32 = ikcpCmdAck
    rw [hack]
    decide
  apply h.gone
  exact @inputSegments_acked (said a) _ _ { kcp := (s.ep a.other).kcp } (hinv.bound a)
    htracked.send htracked.recv g hheard sent hmem hcmd

end Exchange

/-- While something is buffered, one exchange takes its head away. -/
theorem exists_acked {conv : UInt32} {s : State} (hl : Live conv s) (a : Side)
    (hshort : ∀ m ∈ (s.ep a).accepted, (m.length : Int) ≤ clientBuff)
    (hbuf : (s.ep a).kcp.sndBuf ≠ []) :
    ∃ s', Continues s s' ∧ backlog (s'.ep a).kcp < backlog (s.ep a).kcp := by
  -- the receiver makes room
  have hshort' : ∀ m ∈ (s.ep a.other.other).accepted, (m.length : Int) ≤ clientBuff := by
    rw [Side.other_other]
    exact hshort
  obtain ⟨s₁, hrun₁, ⟨hl₁, hsame, -⟩, hempty⟩ := exists_drained hl a.other hshort'
  rw [Side.other_other] at hsame
  obtain ⟨seg, rest, hhead⟩ := List.exists_cons_of_ne_nil hbuf
  rw [← hsame] at hhead
  have hseg : seg ∈ (s₁.ep a).kcp.sndBuf := by
    rw [hhead]
    exact List.mem_cons_self
  -- the head of the buffer goes across
  obtain ⟨c, sent, hsent, hcore⟩ := exists_data_update hseg
  obtain ⟨s₂, g, hcarried, hmem⟩ := exists_carried hl₁ a c hsent
  have hl₂ := hl₁.continues hcarried.continues
  obtain ⟨ts, hack⟩ := hcarried.recorded hl₁ hempty hhead hmem hcore
  -- and its acknowledgement comes back
  obtain ⟨c', sent', hsent', hsn, hcmd⟩ := exists_ack_update hack
  obtain ⟨s₃, g', hcarried', hmem'⟩ := exists_carried hl₂ a.other c' hsent'
  have hgone := hcarried'.acked hmem' hcmd
  have hkept := hcarried'.sendKept
  rw [Side.other_other] at hgone hkept
  rw [hsn] at hgone
  have hin : seg.sn.toNat ∈ sns (s₂.ep a).kcp.sndBuf := by
    obtain ⟨opened, hcores, -, -⟩ := kcpUpdate_moved (s₁.ep a).kcp c
    have hbuf₂ : cores (s₂.ep a).kcp.sndBuf = cores (s₁.ep a).kcp.sndBuf ++ cores opened := by
      rw [hcarried.sender]
      exact hcores
    rw [sns_eq_cores, hbuf₂, sns_append, ← sns_eq_cores]
    exact List.mem_append_left _ (mem_sns hseg)
  have hrun₂ := hrun₁.trans hcarried.continues
  have hle := Continues.backlog_le hrun₂ a
  have hlt := backlog_lt_of_gone hkept hin hgone
  exact ⟨s₃, hrun₂.trans hcarried'.continues, Nat.lt_of_lt_of_le hlt hle⟩

/-! ## Opening the send window -/

theorem flushOpened_probeWait (kcp : IKCPCB) :
    (flushOpened kcp).probeWait = (flushProbed kcp).probeWait := rfl

/-- The first flush with the remote window closed starts the probe timer. -/
theorem kcpUpdate_probeWait {kcp : IKCPCB} {c : UInt32} (hfires : (updateTimer kcp c).2 = true)
    (hclosed : kcp.rmtWnd = 0) (hwait : kcp.probeWait = 0) :
    (kcpUpdate kcp c).1.probeWait ≠ 0 := by
  have hprobed : (flushProbed (updateTimer kcp c).1).probeWait = ikcpProbeInit := by
    rw [updateTimer_eq]
    unfold flushProbed probeTimer
    simp only [hclosed, hwait, if_true]
  unfold kcpUpdate
  rw [ikcpUpdate_due hfires, ikcpFlush_block (updateTimer_updated kcp c)]
  dsimp only
  rw [flushOpened_probeWait, hprobed]
  decide

/-- With the remote window closed, the probe timer can be made to run. -/
theorem exists_waiting {conv : UInt32} {s : State} (hl : Live conv s) (a : Side)
    (hclosed : (s.ep a).kcp.rmtWnd = 0) :
    ∃ s', Continues s s' ∧ Live conv s' ∧ (s'.ep a).kcp.rmtWnd = 0 ∧
      (s'.ep a).kcp.probeWait ≠ 0 := by
  by_cases hwait : (s.ep a).kcp.probeWait = 0
  · obtain ⟨c, hfires, -⟩ := exists_clock (s.ep a).kcp 0
    have hq : Quiet s (s.update a c) := Quiet.update s a c
    have hsender : (s.update a c).ep a = (s.ep a).update c := Function.update_self _ _ _
    refine ⟨_, Relation.ReflTransGen.single hq, hl.quiet hq, ?_, ?_⟩
    · rw [hsender]
      exact (kcpUpdate_kept _ c).rmtWnd.trans hclosed
    · rw [hsender]
      exact kcpUpdate_probeWait hfires hclosed hwait
  · exact ⟨s, Relation.ReflTransGen.refl, hl, hclosed, hwait⟩

/-- Probe, drain and announcement: a closed remote window opens. -/
theorem exists_window {conv : UInt32} {s : State} (hl : Live conv s) (a : Side)
    (hshort : ∀ m ∈ (s.ep a).accepted, (m.length : Int) ≤ clientBuff) :
    ∃ s', Continues s s' ∧ Live conv s' ∧ (s'.ep a).kcp.rmtWnd ≠ 0 := by
  by_cases hclosed : (s.ep a).kcp.rmtWnd = 0
  · obtain ⟨s₁, hrun₁, hl₁, hclosed₁, hwait⟩ := exists_waiting hl a hclosed
    obtain ⟨c, probe, hprobe, hcmd⟩ := exists_wask_update hclosed₁ hwait
    obtain ⟨s₂, g, hcarried, hmem⟩ := exists_carried hl₁ a c hprobe
    have hwask : probe.header.cmd.toUInt32 = ikcpCmdWask := by
      show probe.cmd.toUInt8.toUInt32 = ikcpCmdWask
      rw [hcmd]
      decide
    have htells := hcarried.tells hmem hwask
    have hl₂ := hl₁.continues hcarried.continues
    have hrun₂ := hrun₁.trans hcarried.continues
    have hshort₂ : ∀ m ∈ (s₂.ep a.other.other).accepted, (m.length : Int) ≤ clientBuff := by
      rw [Side.other_other, Continues.accepted hrun₂ a]
      exact hshort
    obtain ⟨s₃, hrun₃, ⟨hl₃, -, hkeeps⟩, hempty⟩ := exists_drained hl₂ a.other hshort₂
    obtain ⟨c', told, htold⟩ := exists_wins_update (hkeeps htells)
    obtain ⟨s₄, g', hcarried', -⟩ := exists_carried hl₃ a.other c' htold
    have hwnd : ∀ seg ∈ g', seg.header.wnd.toUInt32 = UInt32.ofNat plugWnd := by
      obtain ⟨said, hinv⟩ := hl₃.inv
      have ht := hinv.tracked a.other
      have hcount : (s₃.ep a.other).kcp.nrcvQue = 0 := by
        rw [ht.recv.count, hempty]
        rfl
      intro seg hseg
      have hfull : seg.wnd = UInt32.ofNat plugWnd :=
        UInt32.toNat_inj.mp (updateSegments_wnd ht.sound hcount (hcarried'.emitted seg hseg))
      show seg.wnd.toUInt16.toUInt32 = _
      rw [hfull]
      decide
    have hopen := hcarried'.rmtWnd hwnd
    rw [Side.other_other] at hopen
    refine ⟨s₄, (hrun₂.trans hrun₃).trans hcarried'.continues,
      hl₃.continues hcarried'.continues, ?_⟩
    rw [hopen]
    decide
  · exact ⟨s, Relation.ReflTransGen.refl, hl, hclosed⟩

theorem flushCwnd_pos {kcp : IKCPCB} (hcwnd : 0 < kcp.cwnd.toNat) (hsnd : 0 < kcp.sndWnd.toNat)
    (hrmt : 0 < kcp.rmtWnd.toNat) : 0 < (flushCwnd kcp).toNat := by
  unfold flushCwnd
  dsimp only
  split
  · rw [imin_toNat, imin_toNat]
    exact Nat.lt_min.mpr ⟨hcwnd, Nat.lt_min.mpr ⟨hsnd, hrmt⟩⟩
  · rw [imin_toNat]
    exact Nat.lt_min.mpr ⟨hsnd, hrmt⟩

/-- With nothing in flight, a positive window admits the head of the queue. -/
theorem moveSndQueue_opens {kcp : IKCPCB} {wnd cwnd : UInt32} (hpos : 0 < cwnd.toNat)
    (hle : cwnd.toNat ≤ plugWnd) (huna : kcp.sndUna = kcp.sndNxt) (hqueue : kcp.sndQueue ≠ []) :
    (moveSndQueue kcp wnd cwnd).sndBuf ≠ [] := by
  obtain ⟨newseg, queue, hcons⟩ := List.exists_cons_of_ne_nil hqueue
  have hroom : itimediff kcp.sndNxt (kcp.sndNxt + cwnd) < 0 := by
    unfold plugWnd at hle
    exact Serial.diff_self_add hpos (by omega)
  unfold moveSndQueue
  dsimp only
  rw [hcons, huna, openWindow, if_pos hroom]
  simp

theorem flushOpened_opens {kcp : IKCPCB} (hsnd : kcp.sndWnd.toNat = plugWnd)
    (hwnd : kcp.rmtWnd ≠ 0) (hcwnd : 0 < kcp.cwnd.toNat) (huna : kcp.sndUna = kcp.sndNxt)
    (hqueue : kcp.sndQueue ≠ []) : (flushOpened kcp).sndBuf ≠ [] := by
  have hrmt : 0 < kcp.rmtWnd.toNat :=
    Nat.pos_of_ne_zero fun hzero => hwnd (UInt32.toNat_inj.mp hzero)
  have hpositive : 0 < kcp.sndWnd.toNat := by
    rw [hsnd]
    decide
  have hle := flushCwnd_le { flushProbed kcp with probe := 0 }
  unfold flushOpened
  rw [flushProbed_eq] at hle ⊢
  apply moveSndQueue_opens
  · exact flushCwnd_pos hcwnd hpositive hrmt
  · exact Nat.le_trans hle (Nat.le_of_eq hsnd)
  · exact huna
  · exact hqueue

/-- A flush with a window and nothing in flight opens a segment. -/
theorem kcpUpdate_opens {conv : UInt32} {kcp : IKCPCB} {c : UInt32} (h : Sound conv kcp)
    (hfires : (updateTimer kcp c).2 = true) (hwnd : kcp.rmtWnd ≠ 0) (hcwnd : 0 < kcp.cwnd.toNat)
    (huna : kcp.sndUna = kcp.sndNxt) (hqueue : kcp.sndQueue ≠ []) :
    (kcpUpdate kcp c).1.sndBuf ≠ [] := by
  have hsnd : kcp.sndWnd.toNat = plugWnd := congrArg (UInt32.toNat ∘ Config.sndWnd) h.config
  have hopened : (flushOpened (updateTimer kcp c).1).sndBuf ≠ [] := by
    rw [updateTimer_eq]
    exact flushOpened_opens hsnd hwnd hcwnd huna hqueue
  unfold kcpUpdate
  rw [ikcpUpdate_due hfires, ikcpFlush_block (updateTimer_updated kcp c)]
  dsimp only
  intro hnil
  exact hopened (List.map_eq_nil_iff.mp hnil)

/-- As long as something is held, a segment can be brought into the send buffer. -/
theorem exists_buffered {conv : UInt32} {s : State} (hl : Live conv s) (a : Side)
    (hshort : ∀ m ∈ (s.ep a).accepted, (m.length : Int) ≤ clientBuff) :
    ∃ s', Continues s s' ∧ Live conv s' ∧
      ((s'.ep a).kcp.sndBuf ≠ [] ∨ backlog (s'.ep a).kcp = 0) := by
  obtain ⟨s₁, hrun₁, hl₁, hwnd⟩ := exists_window hl a hshort
  -- a first flush leaves a congestion window of at least one segment
  obtain ⟨c, hfires, -⟩ := exists_clock (s₁.ep a).kcp 0
  have hq₁ : Quiet s₁ (s₁.update a c) := Quiet.update s₁ a c
  have hl₂ := hl₁.quiet hq₁
  have hrun₂ := hrun₁.tail hq₁
  have hself : (s₁.update a c).ep a = (s₁.ep a).update c := Function.update_self _ _ _
  have hcwnd : 0 < ((s₁.update a c).ep a).kcp.cwnd.toNat := by
    rw [hself]
    show 0 < (ikcpUpdate (s₁.ep a).kcp c).1.cwnd.toNat
    rw [ikcpUpdate_due hfires]
    exact ikcpFlush_cwnd_pos (updateTimer_updated _ c)
  have hwnd₂ : ((s₁.update a c).ep a).kcp.rmtWnd ≠ 0 := by
    rw [hself]
    exact fun hzero => hwnd ((kcpUpdate_kept _ c).rmtWnd.symm.trans hzero)
  generalize s₁.update a c = s₂ at *
  by_cases hbuf : (s₂.ep a).kcp.sndBuf = []
  · by_cases hqueue : (s₂.ep a).kcp.sndQueue = []
    · refine ⟨s₂, hrun₂, hl₂, Or.inr ?_⟩
      unfold backlog
      rw [hqueue, hbuf]
      rfl
    · -- the second one opens the head of the queue
      obtain ⟨said, hinv⟩ := hl₂.inv
      have huna := (hinv.tracked a).send.una
      unfold ikcpShrinkBuf at huna
      rw [hbuf] at huna
      obtain ⟨c', hfires', -⟩ := exists_clock (s₂.ep a).kcp 0
      have hq₂ : Quiet s₂ (s₂.update a c') := Quiet.update s₂ a c'
      have hself₂ : (s₂.update a c').ep a = (s₂.ep a).update c' := Function.update_self _ _ _
      refine ⟨_, hrun₂.tail hq₂, hl₂.quiet hq₂, Or.inl ?_⟩
      rw [hself₂]
      exact kcpUpdate_opens (hinv.tracked a).sound hfires' hwnd₂ hcwnd huna hqueue
  · exact ⟨s₂, hrun₂, hl₂, Or.inl hbuf⟩

/-! ## The result -/

/-- Everything one side holds can be delivered and acknowledged. -/
theorem exists_idle {conv : UInt32} {s : State} (hl : Live conv s) (a : Side)
    (hshort : ∀ m ∈ (s.ep a).accepted, (m.length : Int) ≤ clientBuff) :
    ∃ s', Continues s s' ∧ (Live conv s' ∧ (s'.ep a).accepted = (s.ep a).accepted) ∧
      backlog (s'.ep a).kcp = 0 := by
  apply Descent.exists_goal fun x => backlog (x.ep a).kcp
  · rintro x ⟨hlive, haccepted⟩ hne
    rw [← haccepted] at hshort
    obtain ⟨y, hrun, hlive', hcases⟩ := exists_buffered hlive a hshort
    have hle := Continues.backlog_le hrun a
    have haccepted' := (Continues.accepted hrun a).trans haccepted
    rcases hcases with hbuf | hzero
    · rw [← Continues.accepted hrun a] at hshort
      obtain ⟨z, hrest, hlt⟩ := exists_acked hlive' a hshort hbuf
      exact ⟨z, hrun.trans hrest, ⟨hlive'.continues hrest,
        (Continues.accepted hrest a).trans haccepted'⟩, Nat.lt_of_lt_of_le hlt hle⟩
    · exact ⟨y, hrun, ⟨hlive', haccepted'⟩, by omega⟩
  · exact ⟨hl, rfl⟩

/-- From every reachable state, with messages of at most 512 bytes, steps that send no
new message lead to a state where one side holds nothing and the other has returned
every message it accepted. -/
theorem no_stuck_state {conv : UInt32} {s : State} (h : Reachable conv s)
    (hfew : ∀ side, (s.ep side).stream.length < 2 ^ 31) (side : Side)
    (hshort : ∀ m ∈ (s.ep side).accepted, m.length ≤ 512) :
    ∃ s', Continues s s' ∧ (s'.ep side).kcp.sndQueue = [] ∧ (s'.ep side).kcp.sndBuf = [] ∧
      (s'.ep side.other).returned = (s.ep side).accepted := by
  have hl : Live conv s := ⟨h, hfew⟩
  have hfits : ∀ m ∈ (s.ep side).accepted, (m.length : Int) ≤ clientBuff := by
    intro m hm
    have hle := hshort m hm
    unfold clientBuff
    omega
  obtain ⟨s₁, hrun₁, ⟨hl₁, haccepted⟩, hzero⟩ := exists_idle hl side hfits
  have hfits₁ : ∀ m ∈ (s₁.ep side.other.other).accepted, (m.length : Int) ≤ clientBuff := by
    rw [Side.other_other, haccepted]
    exact hfits
  obtain ⟨s₂, hrun₂, ⟨hl₂, hsame, -⟩, hempty⟩ := exists_drained hl₁ side.other hfits₁
  rw [Side.other_other] at hsame
  obtain ⟨said, hinv⟩ := hl₂.inv
  have hqueue : (s₂.ep side).kcp.sndQueue = [] := by
    rw [hsame]
    unfold backlog at hzero
    exact List.eq_nil_of_length_eq_zero (by omega)
  have hbuf : (s₂.ep side).kcp.sndBuf = [] := by
    rw [hsame]
    unfold backlog at hzero
    exact List.eq_nil_of_length_eq_zero (by omega)
  refine ⟨s₂, hrun₁.trans hrun₂, hqueue, hbuf, ?_⟩
  rw [hinv.returned_all side hempty hqueue hbuf, hsame, haccepted]

/-- After the first message has arrived its sender still waits for the answer. -/
theorem no_stuck_state_oneMessage :
    (oneMessage.ep .left).kcp.sndBuf.length = 1 ∧
    ∃ s', Continues oneMessage s' ∧ (s'.ep .left).kcp.sndQueue = [] ∧
      (s'.ep .left).kcp.sndBuf = [] ∧ (s'.ep .right).returned = (oneMessage.ep .left).accepted := by
  have hfew : ∀ side, (oneMessage.ep side).stream.length < 2 ^ 31 := by
    intro side
    cases side <;> decide
  have hshort : ∀ m ∈ (oneMessage.ep .left).accepted, m.length ≤ 512 := by decide
  exact ⟨by decide, no_stuck_state oneMessage_reachable hfew .left hshort⟩

end UdpKcp.Link
