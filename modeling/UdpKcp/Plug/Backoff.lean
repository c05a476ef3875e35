import UdpKcp.Library.SerialWindow
import UdpKcp.Plug.RttEstimate

/-! # Retransmission timers

Every transmission sets a timer less than half the circle ahead of the clock as
long as no timeout is taken from a segment whose `rto` has reached `2 ^ 30`.
Backing off doubles that `rto` without a bound, so a segment that is never
acknowledged gets there after about two dozen timeouts; its next timer lies in
the past, and the one after that is smaller.
-/

namespace UdpKcp.Plug

open ByteCodec (Bytes)
open Serial (offset)
open Ikcp

/-! ## One transmission -/

/-- The timer of a transmission lies ahead of its clock, backing off does not shrink `rto`,
and no flush at the same clock finds the timer expired. -/
structure Transmission.Timely (t : Transmission) : Prop where
  ahead : 0 < offset t.kcp.current t.sent.resendts
  near : offset t.kcp.current t.sent.resendts < 2 ^ 31
  grows : t.reason = .timeout → t.segment.rto ≤ t.sent.rto
  once : ∀ (kcp : IKCPCB) (fastack : UInt32), kcp.current = t.kcp.current →
    sendReason kcp { t.sent with fastack := fastack } ≠ .timeout

/-- A timeout is taken from a timer that can still be doubled. -/
def Transmission.Doubles (t : Transmission) : Prop :=
  t.reason = .timeout → t.segment.rto.toNat < 2 ^ 30

/-- Why the data loop transmits, as conditions on the segment. -/
theorem sendReason_timeout {kcp : IKCPCB} {segment : IKCPSEG}
    (h : sendReason kcp segment = .timeout) : itimediff kcp.current segment.resendts ≥ 0 := by
  unfold sendReason at h
  split_ifs at h
  assumption

/-- A timer ahead of the clock has not expired. -/
theorem timely_of_ahead {t : Transmission} (hahead : 0 < offset t.kcp.current t.sent.resendts)
    (hnear : offset t.kcp.current t.sent.resendts < 2 ^ 31)
    (hgrows : t.reason = .timeout → t.segment.rto ≤ t.sent.rto) : t.Timely := by
  refine ⟨hahead, hnear, hgrows, ?_⟩
  intro kcp fastack hclock htimeout
  have hexpired := sendReason_timeout htimeout
  rw [hclock] at hexpired
  have hdiff : itimediff t.kcp.current t.sent.resendts = _ :=
    Serial.diff_eq_offset t.kcp.current (by simp) hnear
  rw [Serial.offset_self] at hdiff
  change itimediff t.kcp.current t.sent.resendts ≥ 0 at hexpired
  omega

/-- What is known of the block of a transmission. -/
structure Paced (kcp : IKCPCB) : Prop extends RtoBounded kcp where
  nodelay : kcp.nodelay = 0

theorem toU32_toNat {x : Int} (hlo : 0 ≤ x) (hhi : x < 2 ^ 32) : ((toU32 x).toNat : Int) = x := by
  unfold toU32
  rw [UInt32.toNat_ofNat']
  omega

theorem Paced.rto_bounds {kcp : IKCPCB} (h : Paced kcp) :
    100 ≤ kcp.rxRto ∧ kcp.rxRto ≤ 60000 := by
  have hlo := h.lower
  rw [h.minrto] at hlo
  exact ⟨hlo, h.upper⟩

theorem Paced.rto_toNat {kcp : IKCPCB} (h : Paced kcp) :
    100 ≤ (toU32 kcp.rxRto).toNat ∧ (toU32 kcp.rxRto).toNat ≤ 60000 := by
  obtain ⟨hlo, hhi⟩ := h.rto_bounds
  have hnat := @toU32_toNat kcp.rxRto (by omega) (by omega)
  omega

/-- The slack of a first transmission is an eighth of the timeout. -/
theorem Paced.rtomin_le {kcp : IKCPCB} (h : Paced kcp) : (flushRtomin kcp).toNat ≤ 60000 := by
  obtain ⟨hlo, hhi⟩ := h.rto_bounds
  have hshift : kcp.rxRto >>> (3 : ℕ) = kcp.rxRto / 8 := Int.shiftRight_eq_div_pow _ 3
  have hnat := @toU32_toNat (kcp.rxRto / 8) (by omega) (by omega)
  unfold flushRtomin
  rw [if_pos h.nodelay, hshift]
  omega

section OneTransmission

variable {t : Transmission} (h : Paced t.kcp)

include h

theorem first_timely (hreason : t.reason = .first) :
    t.Timely ∧ 0 < t.sent.rto.toNat ∧ t.sent.rto.toNat < 2 ^ 31 := by
  obtain ⟨hlo, hhi⟩ := h.rto_toNat
  have hrtomin := h.rtomin_le
  have hsent : t.sent.resendts = t.kcp.current + (toU32 t.kcp.rxRto + flushRtomin t.kcp) ∧
      t.sent.rto = toU32 t.kcp.rxRto := by
    unfold Transmission.sent stampSegment
    rw [show sendReason t.kcp t.segment = .first from hreason]
    exact ⟨UInt32.add_assoc _ _ _, rfl⟩
  have hsum : (toU32 t.kcp.rxRto + flushRtomin t.kcp).toNat =
      (toU32 t.kcp.rxRto).toNat + (flushRtomin t.kcp).toNat := by
    rw [UInt32.toNat_add]
    omega
  have hoffset : offset t.kcp.current t.sent.resendts = _ := hsent.1 ▸ Serial.offset_add_self _ _
  refine ⟨timely_of_ahead (by omega) (by omega) ?_, ?_, ?_⟩
  · intro htimeout
    rw [hreason] at htimeout
    cases htimeout
  · rw [hsent.2]
    omega
  · rw [hsent.2]
    omega

/-- A timeout adds the larger of `rto` and the estimate, and counts the sum from now. -/
theorem timeout_rto (hreason : t.reason = .timeout) :
    offset t.kcp.current t.sent.resendts = t.sent.rto.toNat ∧
      t.sent.rto.toNat =
        (t.segment.rto.toNat + max t.segment.rto.toNat (toU32 t.kcp.rxRto).toNat) % 2 ^ 32 := by
  have hsent : t.sent.resendts = t.kcp.current + t.sent.rto ∧
      t.sent.rto = t.segment.rto + imax t.segment.rto (toU32 t.kcp.rxRto) := by
    unfold Transmission.sent stampSegment backoff
    rw [show sendReason t.kcp t.segment = .timeout from hreason, if_pos h.nodelay]
    exact ⟨rfl, rfl⟩
  constructor
  · rw [hsent.1, Serial.offset_add_self]
  · rw [hsent.2, UInt32.toNat_add, imax_toNat]

/-- A timeout gives a timely timer exactly when the old `rto` can be doubled. -/
theorem timeout_timely_iff (hreason : t.reason = .timeout) :
    t.Timely ↔ t.segment.rto.toNat < 2 ^ 30 := by
  obtain ⟨hlo, hhi⟩ := h.rto_toNat
  obtain ⟨hoffset, hnat⟩ := timeout_rto h hreason
  have hrto := t.segment.rto.toNat_lt
  constructor
  · intro htimely
    have hnear := htimely.near
    have hgrows := UInt32.le_iff_toNat_le.mp (htimely.grows hreason)
    omega
  · intro hlt
    refine timely_of_ahead (by omega) (by omega) fun _ => UInt32.le_iff_toNat_le.mpr ?_
    omega

theorem timeout_sent (hreason : t.reason = .timeout) (hlt : t.segment.rto.toNat < 2 ^ 30) :
    0 < t.sent.rto.toNat ∧ t.sent.rto.toNat < 2 ^ 31 := by
  obtain ⟨hlo, hhi⟩ := h.rto_toNat
  obtain ⟨-, hnat⟩ := timeout_rto h hreason
  omega

omit h in
/-- A fast retransmission keeps `rto` and counts it from now. -/
theorem fast_timely (hreason : t.reason = .fast) (hpos : 0 < t.segment.rto.toNat)
    (hlt : t.segment.rto.toNat < 2 ^ 31) : t.Timely ∧ t.sent.rto = t.segment.rto := by
  have hsent : t.sent.resendts = t.kcp.current + t.segment.rto ∧
      t.sent.rto = t.segment.rto := by
    unfold Transmission.sent stampSegment
    rw [show sendReason t.kcp t.segment = .fast from hreason]
    exact ⟨rfl, rfl⟩
  have hoffset : offset t.kcp.current t.sent.resendts = _ := hsent.1 ▸ Serial.offset_add_self _ _
  refine ⟨timely_of_ahead (by omega) (by omega) ?_, hsent.2⟩
  intro htimeout
  rw [hreason] at htimeout
  cases htimeout

/-- What every transmission does whose timeouts can be doubled. -/
theorem timely_of_doubles (hreason : t.reason ≠ .idle) (hdoubles : t.Doubles)
    (hpos : 0 < t.segment.rto.toNat) (hlt : t.segment.rto.toNat < 2 ^ 31) :
    t.Timely ∧ 0 < t.sent.rto.toNat ∧ t.sent.rto.toNat < 2 ^ 31 := by
  cases hwhy : t.reason with
  | idle => exact absurd hwhy hreason
  | first => exact first_timely h hwhy
  | timeout =>
      have hsmall := hdoubles hwhy
      exact ⟨(timeout_timely_iff h hwhy).mpr hsmall, timeout_sent h hwhy hsmall⟩
  | fast =>
      obtain ⟨htimely, hrto⟩ := fast_timely hwhy hpos hlt
      rw [hrto]
      exact ⟨htimely, hpos, hlt⟩

end OneTransmission

/-! ## The timers of the send buffer -/

def rtos (segs : List IKCPSEG) : List UInt32 := segs.map (·.rto)

/-- Every timer of `snd_buf` can be added to a clock. -/
def Armed (kcp : IKCPCB) : Prop :=
  ∀ rto ∈ rtos kcp.sndBuf, 0 < rto.toNat ∧ rto.toNat < 2 ^ 31

theorem Armed.sublist {kcp kcp' : IKCPCB} (h : Armed kcp)
    (hsub : kcp'.sndBuf.Sublist kcp.sndBuf) : Armed kcp' :=
  fun rto hrto => h rto ((hsub.map _).mem hrto)

/-- Acknowledged segments leave the buffer; the others stay as they are. -/
theorem inputSegment_sndBuf (st : InputState) (h : SegHeader) (payload : Bytes) :
    (inputSegment st h payload).kcp.sndBuf.Sublist st.kcp.sndBuf := by
  have hcommon : (inputCommon st.kcp h).sndBuf.Sublist st.kcp.sndBuf :=
    (dropUnacked_suffix h.una st.kcp.sndBuf).sublist
  have hparse : ∀ kcp, (ikcpParseAck kcp h.sn).sndBuf.Sublist kcp.sndBuf := by
    intro kcp
    unfold ikcpParseAck
    split
    · exact List.Sublist.refl _
    · exact removeAcked_sublist h.sn kcp.sndBuf
  refine @inputSegment_of (fun kcp => kcp.sndBuf.Sublist st.kcp.sndBuf) _ _ _ hcommon ?_ ?_ hcommon
  · refine @inputAck_of (fun kcp => kcp.sndBuf.Sublist st.kcp.sndBuf)
      (fun kcp => kcp.sndBuf.Sublist st.kcp.sndBuf) _ h hcommon ?_ ?_
    · intro rtt
      rw [ikcpUpdateAck_eq]
      exact hcommon
    · exact fun kcp hkcp => (hparse kcp).trans hkcp
  · rw [inputPush_eq]
    exact hcommon

theorem inputTail_rtos (st : InputState) (prevUna : UInt32) :
    rtos (inputTail st prevUna).sndBuf = rtos st.kcp.sndBuf := by
  have hbuf := congrArg IKCPCB.sndBuf (inputTail_looped st prevUna)
  have hrtos := congrArg rtos hbuf
  unfold IKCPCB.looped rtos at hrtos
  dsimp only at hrtos
  rw [List.map_map, List.map_map] at hrtos
  exact hrtos

theorem Armed.input {kcp : IKCPCB} (h : Armed kcp) (data : Bytes) :
    Armed (ikcpInput kcp data).1 := by
  refine ikcpInput_keeps ?_ ?_ data h
  · exact fun st hd payload hst => hst.sublist (inputSegment_sndBuf st hd payload)
  · intro st prevUna hst
    unfold Armed
    rw [inputTail_rtos]
    exact hst

theorem Armed.recv {block : IKCPCB} (h : Armed block) (input : Option Bytes) (soc : Socket)
    (maxlen : Int) : Armed (kcpRecv block input soc maxlen).block := by
  refine kcpRecv_keeps (fun kcp data hk => hk.input data) ?_ input soc maxlen h
  intro kcp kcp' len bytes hlen hr hk
  obtain ⟨-, -, -, -, probe, rfl, -⟩ := ikcpRecv_ok hlen hr
  exact hk

/-- A segment starts with the timeout of the estimate. -/
theorem Armed.opened {kcp : IKCPCB} (h : Armed kcp) (hpaced : Paced kcp) :
    Armed (flushOpened kcp) := by
  obtain ⟨hlo, hhi⟩ := hpaced.rto_toNat
  have hrto : (flushProbed kcp).rxRto = kcp.rxRto := by rw [flushProbed_eq]
  intro rto hmem
  unfold flushOpened moveSndQueue rtos at hmem
  dsimp only at hmem
  rw [List.map_append, List.mem_append, flushProbed_sndBuf] at hmem
  rcases hmem with hold | hnew
  · exact h rto hold
  · obtain ⟨seg, hseg, rfl⟩ := List.mem_map.mp hnew
    obtain ⟨i, hi⟩ := List.mem_iff_getElem?.mp hseg
    obtain ⟨newseg, -, rfl⟩ := openWindow_get hi
    show 0 < (toU32 (flushProbed kcp).rxRto).toNat ∧ (toU32 (flushProbed kcp).rxRto).toNat < 2 ^ 31
    rw [hrto]
    omega

/-! ## Runs -/

theorem Paced.fixed {kcp kcp' : IKCPCB} (h : Paced kcp) (hf : RttFixed kcp kcp')
    (hnodelay : kcp'.nodelay = kcp.nodelay) : Paced kcp' :=
  ⟨h.toRtoBounded.fixed hf, hnodelay.trans h.nodelay⟩

theorem paced_of_reachable {conv : UInt32} {block : IKCPCB} (h : Reachable conv block) :
    Paced block :=
  ⟨rtoBounded_of_reachable h, congrArg Config.nodelay (sound_of_reachable h).config⟩

theorem Paced.timed {block : IKCPCB} (h : Paced block) (dlt : UInt32) :
    Paced (updateTimer block dlt).1 :=
  h.fixed (RttFixed.timed block dlt) (congrArg Config.nodelay (updateTimer_config block dlt))

theorem Paced.opened {kcp : IKCPCB} (h : Paced kcp) : Paced (flushOpened kcp) :=
  h.fixed (RttFixed.opened kcp) (congrArg Config.nodelay (flushOpened_config kcp))

/-- What one flush does to the timers when its timeouts can be doubled. -/
theorem Armed.flush {kcp : IKCPCB} (h : Armed kcp) (hpaced : Paced kcp)
    (hupdated : kcp.updated ≠ 0) (hdoubles : ∀ t ∈ flushTransmissions kcp, t.Doubles) :
    (∀ t ∈ flushTransmissions kcp, t.Timely) ∧ Armed (ikcpFlush kcp).1 := by
  have hopened := h.opened hpaced
  constructor
  · intro t ht
    obtain ⟨hmem, hreason, hkcp⟩ := mem_flushTransmissions ht
    obtain ⟨hpos, hlt⟩ := hopened _ (List.mem_map_of_mem hmem)
    exact (timely_of_doubles (hkcp ▸ hpaced.opened) hreason (hdoubles t ht) hpos hlt).1
  · intro rto hrto
    rw [ikcpFlush_block hupdated] at hrto
    obtain ⟨sent, hsent, rfl⟩ := List.mem_map.mp hrto
    obtain ⟨segment, hmem, rfl⟩ := List.mem_map.mp hsent
    obtain ⟨hpos, hlt⟩ := hopened _ (List.mem_map_of_mem hmem)
    by_cases hidle : sendReason (flushOpened kcp) segment = .idle
    · have hsame : stampSegment (flushOpened kcp) (ikcpWndUnused kcp) segment = segment := by
        unfold stampSegment
        rw [hidle]
      rw [hsame]
      exact ⟨hpos, hlt⟩
    · have ht : (⟨flushOpened kcp, ikcpWndUnused kcp, segment⟩ : Transmission) ∈
          flushTransmissions kcp :=
        List.mem_map_of_mem (List.mem_filter.mpr ⟨hmem, by simpa using hidle⟩)
      exact (@timely_of_doubles ⟨flushOpened kcp, ikcpWndUnused kcp, segment⟩ hpaced.opened hidle
        (hdoubles _ ht) hpos hlt).2

theorem Armed.update {block : IKCPCB} (h : Armed block) (hpaced : Paced block) (dlt : UInt32)
    (hdoubles : ∀ t ∈ kcpUpdateTransmissions block dlt, t.Doubles) :
    (∀ t ∈ kcpUpdateTransmissions block dlt, t.Timely) ∧ Armed (kcpUpdate block dlt).1 := by
  have htimed : Armed (updateTimer block dlt).1 := by
    rw [updateTimer_eq]
    exact h
  unfold kcpUpdateTransmissions at hdoubles ⊢
  unfold kcpUpdate
  dsimp only at hdoubles ⊢
  cases hdue : (updateTimer block dlt).2 with
  | false =>
      rw [ikcpUpdate_idle hdue]
      exact ⟨by simp, htimed⟩
  | true =>
      rw [hdue, if_pos rfl] at hdoubles
      rw [ikcpUpdate_due hdue, if_pos rfl]
      exact htimed.flush (hpaced.timed dlt) (updateTimer_updated block dlt) hdoubles

/-- Every transmission of a run starts from a block with the plug's pace. -/
theorem recorded_paced {conv : UInt32} {block : IKCPCB} {past : History}
    (h : Recorded conv block past) : ∀ t ∈ past.sent, Paced t.kcp := by
  induction h with
  | new => exact List.forall_mem_nil _
  | send data _ ih => exact ih
  | recv input soc maxlen _ ih => exact ih
  | @update block past dlt run ih =>
      dsimp only
      rw [List.forall_mem_append]
      refine ⟨ih, ?_⟩
      intro t ht
      unfold kcpUpdateTransmissions at ht
      dsimp only at ht
      split at ht
      · rw [(mem_flushTransmissions ht).2.2]
        exact ((paced_of_reachable run.reachable).timed dlt).opened
      · exact absurd ht List.not_mem_nil

theorem recorded_timely {conv : UInt32} {block : IKCPCB} {past : History}
    (h : Recorded conv block past) (hdoubles : ∀ t ∈ past.sent, t.Doubles) :
    (∀ t ∈ past.sent, t.Timely) ∧ Armed block := by
  induction h with
  | new => exact ⟨List.forall_mem_nil _, List.forall_mem_nil _⟩
  | send data _ ih =>
      obtain ⟨htimely, harmed⟩ := ih hdoubles
      refine ⟨htimely, ?_⟩
      rw [kcpSend_eq]
      exact harmed
  | recv input soc maxlen _ ih =>
      obtain ⟨htimely, harmed⟩ := ih hdoubles
      exact ⟨htimely, harmed.recv input soc maxlen⟩
  | update dlt run ih =>
      dsimp only at hdoubles ⊢
      rw [List.forall_mem_append] at hdoubles ⊢
      obtain ⟨htimely, harmed⟩ := ih hdoubles.1
      obtain ⟨hnew, harmed'⟩ := harmed.update (paced_of_reachable run.reachable) dlt hdoubles.2
      exact ⟨⟨htimely, hnew⟩, harmed'⟩

/-- In every run all timers lie ahead of their clocks exactly when no timeout is taken from
an `rto` of `2 ^ 30` or more. -/
theorem timely_iff {conv : UInt32} {block : IKCPCB} {past : History}
    (h : Recorded conv block past) :
    (∀ t ∈ past.sent, t.Timely) ↔
      ∀ t ∈ past.sent, t.reason = .timeout → t.segment.rto.toNat < 2 ^ 30 := by
  constructor
  · intro htimely t ht hreason
    exact (timeout_timely_iff (recorded_paced h t ht) hreason).mp (htimely t ht)
  · exact fun hdoubles => (recorded_timely h hdoubles).1

/-- One byte is queued, the first flush opens the window, the second transmits. -/
def silentStart : IKCPCB :=
  (kcpUpdate (kcpSend (newKcpPlugControlBlock 7) [65] ([65] : Bytes).length).1 0).1

/-- The expiry of the timer after `k` timeouts. -/
def silentClock (k : ℕ) : UInt32 := UInt32.ofNat (235 + 400 * (2 ^ k - 1))

/-- No acknowledgement ever comes, and the clock stops only where the timer expires. -/
def silentRun : ℕ → IKCPCB × History
  | 0 =>
      ((kcpUpdate silentStart 10).1,
        { sent := [] ++ kcpUpdateTransmissions
            (kcpSend (newKcpPlugControlBlock 7) [65] ([65] : Bytes).length).1 0 ++
          kcpUpdateTransmissions silentStart 10 })
  | k + 1 =>
      ((kcpUpdate (silentRun k).1 (silentClock k)).1,
        { (silentRun k).2 with
          sent := (silentRun k).2.sent ++ kcpUpdateTransmissions (silentRun k).1 (silentClock k) })

theorem silentRun_recorded (k : ℕ) : Recorded 7 (silentRun k).1 (silentRun k).2 := by
  induction k with
  | zero => exact Recorded.update 10 (Recorded.update 0 (Recorded.send [65] .new))
  | succ k ih => exact Recorded.update (silentClock k) ih

/-- Two timeouts double the timer twice. -/
theorem timely_silent :
    (silentRun 2).2.sent.map Transmission.reason = [.first, .timeout, .timeout] ∧
      ((∀ t ∈ (silentRun 2).2.sent, t.Timely) ↔
        ∀ t ∈ (silentRun 2).2.sent, t.reason = .timeout → t.segment.rto.toNat < 2 ^ 30) :=
  ⟨by decide +kernel, timely_iff (silentRun_recorded 2)⟩

/-- The 24th timeout, after 39 days without an acknowledgement, sets a timer in the past;
the next update takes it for expired at once and the timer shrinks. -/
theorem timely_overflow :
    Recorded 7 (silentRun 24).1 (silentRun 24).2 ∧
      (∃ t ∈ (silentRun 24).2.sent, t.reason = .timeout ∧
        2 ^ 31 ≤ offset t.kcp.current t.sent.resendts) ∧
      ∃ t ∈ kcpUpdateTransmissions (silentRun 24).1 (silentClock 23 + 10),
        t.reason = .timeout ∧ t.sent.rto < t.segment.rto :=
  ⟨silentRun_recorded 24, by decide +kernel, by decide +kernel⟩

end UdpKcp.Plug
