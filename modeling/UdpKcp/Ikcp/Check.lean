import UdpKcp.Ikcp.Flush
import UdpKcp.Library.SerialWindow

/-! # When to update next

`ikcp_check` tells a caller who neither sends nor receives how long it may leave
`ikcp_update` alone. Updates before that time only move the clock. At that time a
flush follows if the flush timer is what made it short; a segment due earlier
makes it shorter still, but `ikcp_update` does not look at segments.
-/

namespace UdpKcp.Ikcp

open ByteCodec (Bytes)
open Serial (offset)

/-! ## ikcp_check -/

/-- The loop over `snd_buf`: the least `tm_packet`, or `none` where it returns `current`
because a segment is due. -/
def checkLoop (current : UInt32) : Int → List IKCPSEG → Option Int
  | tmPacket, [] => some tmPacket
  | tmPacket, seg :: segs =>
      let diff := itimediff seg.resendts current
      if diff ≤ 0 then none
      else checkLoop current (if diff < tmPacket then diff else tmPacket) segs

/-- `ikcp_check`. -/
def ikcpCheck (kcp : IKCPCB) (current : UInt32) : UInt32 :=
  if kcp.updated = 0 then current
  else
    let far := itimediff current kcp.tsFlush ≥ 10000 ∨ itimediff current kcp.tsFlush < -10000
    let tsFlush := if far then current else kcp.tsFlush
    if itimediff current tsFlush ≥ 0 then current
    else
      let tmFlush := itimediff tsFlush current
      match checkLoop current 0x7fffffff kcp.sndBuf with
      | none => current
      | some tmPacket =>
          let minimal := toU32 (if tmPacket < tmFlush then tmPacket else tmFlush)
          let minimal := if minimal ≥ kcp.interval then kcp.interval else minimal
          current + minimal

/-- Updates at these clocks, and the datagrams they send. -/
def updates (kcp : IKCPCB) : List UInt32 → IKCPCB × List Bytes
  | [] => (kcp, [])
  | tick :: ticks =>
      let first := ikcpUpdate kcp tick
      let rest := updates first.1 ticks
      (rest.1, first.2 ++ rest.2)

/-! ## The flush timer -/

/-- At this clock the flush timer still runs. -/
def Waiting (kcp : IKCPCB) (current : UInt32) : Prop :=
  kcp.updated ≠ 0 ∧ -10000 ≤ itimediff current kcp.tsFlush ∧ itimediff current kcp.tsFlush < 0

instance (kcp : IKCPCB) (current : UInt32) : Decidable (Waiting kcp current) := by
  unfold Waiting
  infer_instance

theorem updateTimer_waiting {kcp : IKCPCB} {current : UInt32} (h : Waiting kcp current) :
    updateTimer kcp current = ({ kcp with current := current }, false) := by
  obtain ⟨hupdated, hlow, hlate⟩ := h
  unfold updateTimer
  dsimp only
  rw [if_neg hupdated]
  dsimp only
  rw [if_neg (by omega), if_neg (by omega)]

theorem updateTimer_due {kcp : IKCPCB} {current : UInt32} (h : ¬ Waiting kcp current) :
    (updateTimer kcp current).2 = true := by
  have hself : itimediff current current = 0 := Serial.diff_self current
  unfold updateTimer
  dsimp only
  by_cases hfirst : kcp.updated = 0
  · rw [if_pos hfirst]
    simp [hself]
  · rw [if_neg hfirst]
    by_cases hfar : itimediff current kcp.tsFlush ≥ 10000 ∨ itimediff current kcp.tsFlush < -10000
    · simp [hfar]
    · have hslap : itimediff current kcp.tsFlush ≥ 0 := by
        by_contra hneg
        exact h ⟨hfirst, by omega, by omega⟩
      simp [hfar, hslap]

theorem updateTimer_due_iff (kcp : IKCPCB) (current : UInt32) :
    (updateTimer kcp current).2 = true ↔ ¬ Waiting kcp current := by
  refine ⟨fun hdue hwait => ?_, updateTimer_due⟩
  rw [updateTimer_waiting hwait] at hdue
  cases hdue

/-- What is left of the timer, as a number of milliseconds. -/
theorem Waiting.left {kcp : IKCPCB} {now : UInt32} (h : Waiting kcp now) :
    itimediff kcp.tsFlush now = offset now kcp.tsFlush ∧ 0 < offset now kcp.tsFlush ∧
      offset now kcp.tsFlush ≤ 10000 := by
  obtain ⟨-, hlow, hlate⟩ := h
  have hflip : itimediff kcp.tsFlush now = -itimediff now kcp.tsFlush :=
    Serial.diff_flip (show -(2 ^ 31) < itimediff now kcp.tsFlush by omega)
  have hoffset : itimediff kcp.tsFlush now =
      Int.bmod (offset now kcp.tsFlush) (2 ^ 32) := by
    unfold itimediff Serial.diff Serial.offset
    rw [BitVec.toInt_eq_toNat_bmod]
    rfl
  have hlt := Serial.offset_lt now kcp.tsFlush
  have hvalue : itimediff kcp.tsFlush now = offset now kcp.tsFlush := by
    unfold Int.bmod at hoffset
    dsimp only at hoffset
    split at hoffset <;> omega
  refine ⟨hvalue, ?_, ?_⟩ <;> omega

/-- Until the timer has run out it runs. -/
theorem Waiting.until {kcp : IKCPCB} {now : UInt32} (h : Waiting kcp now) {t : UInt32}
    (ht : offset now t ≤ offset now kcp.tsFlush) :
    itimediff t kcp.tsFlush = (offset now t : Int) - offset now kcp.tsFlush := by
  have hleft := h.left
  exact Serial.diff_eq_offset now (by omega) (by omega)

theorem Waiting.later_iff {kcp : IKCPCB} {now : UInt32} (h : Waiting kcp now) {t : UInt32}
    (ht : offset now t ≤ offset now kcp.tsFlush) :
    Waiting kcp t ↔ offset now t < offset now kcp.tsFlush := by
  have hleft := h.left
  have hdiff := h.until ht
  constructor
  · rintro ⟨-, -, hlate⟩
    omega
  · intro hlt
    exact ⟨h.1, by omega, by omega⟩

/-! ## What ikcp_check answers -/

/-- The loop gives up at a segment that is due. -/
theorem checkLoop_none_iff {current : UInt32} {tmPacket : Int} {segs : List IKCPSEG} :
    checkLoop current tmPacket segs = none ↔ ∃ seg ∈ segs, itimediff seg.resendts current ≤ 0 := by
  induction segs generalizing tmPacket with
  | nil => simp [checkLoop]
  | cons seg segs ih =>
      unfold checkLoop
      dsimp only
      by_cases hdue : itimediff seg.resendts current ≤ 0
      · rw [if_pos hdue]
        exact iff_of_true rfl ⟨seg, List.mem_cons_self, hdue⟩
      · rw [if_neg hdue, ih]
        simp [hdue]

/-- Otherwise its answer is the least of its argument and the times left. -/
theorem le_checkLoop_iff {current : UInt32} {tmPacket tm : Int} {segs : List IKCPSEG}
    (h : checkLoop current tmPacket segs = some tm) (a : Int) :
    a ≤ tm ↔ a ≤ tmPacket ∧ ∀ seg ∈ segs, a ≤ itimediff seg.resendts current := by
  induction segs generalizing tmPacket with
  | nil =>
      cases h
      simp
  | cons seg segs ih =>
      unfold checkLoop at h
      dsimp only at h
      by_cases hdue : itimediff seg.resendts current ≤ 0
      · rw [if_pos hdue] at h
        cases h
      · rw [if_neg hdue] at h
        rw [ih h, List.forall_mem_cons]
        split
        all_goals
          constructor
          · rintro ⟨hle, hall⟩
            exact ⟨by omega, by omega, hall⟩
          · rintro ⟨hle, hseg, hall⟩
            exact ⟨by omega, hall⟩

/-- No segment of `snd_buf` is due at this clock. -/
def Quiet (kcp : IKCPCB) (current : UInt32) : Prop :=
  ∀ seg ∈ kcp.sndBuf, 0 < itimediff seg.resendts current

theorem ikcpCheck_now {kcp : IKCPCB} {now : UInt32} (h : ¬ (Waiting kcp now ∧ Quiet kcp now)) :
    ikcpCheck kcp now = now := by
  have hself : itimediff now now = 0 := Serial.diff_self now
  unfold ikcpCheck
  dsimp only
  by_cases hfirst : kcp.updated = 0
  · rw [if_pos hfirst]
  · rw [if_neg hfirst]
    by_cases hfar : itimediff now kcp.tsFlush ≥ 10000 ∨ itimediff now kcp.tsFlush < -10000
    · rw [if_pos hfar, if_pos (by omega)]
    · rw [if_neg hfar]
      by_cases hlate : itimediff now kcp.tsFlush ≥ 0
      · rw [if_pos hlate]
      · rw [if_neg hlate]
        have hdue : ∃ seg ∈ kcp.sndBuf, itimediff seg.resendts now ≤ 0 := by
          by_contra hnone
          apply h
          refine ⟨⟨hfirst, by omega, by omega⟩, ?_⟩
          intro seg hseg
          by_contra hneg
          exact hnone ⟨seg, hseg, by omega⟩
        rw [checkLoop_none_iff.mpr hdue]

/-- The answer of a check that has to wait: the least of the flush timer, the segments'
times and the interval. -/
theorem le_ikcpCheck_iff {kcp : IKCPCB} {now : UInt32} (hwait : Waiting kcp now)
    (hquiet : Quiet kcp now) (a : ℕ) :
    a ≤ offset now (ikcpCheck kcp now) ↔
      a ≤ offset now kcp.tsFlush ∧ (∀ seg ∈ kcp.sndBuf, (a : Int) ≤ itimediff seg.resendts now) ∧
        a ≤ kcp.interval.toNat := by
  obtain ⟨hleft, hpos, hshort⟩ := hwait.left
  obtain ⟨hfirst, hlow, hlate⟩ := hwait
  cases hloop : checkLoop now 0x7fffffff kcp.sndBuf with
  | none =>
      obtain ⟨seg, hseg, hdue⟩ := checkLoop_none_iff.mp hloop
      have hnot := hquiet seg hseg
      omega
  | some tm =>
      have htm := le_checkLoop_iff hloop
      have htmpos : 1 ≤ tm := by
        rw [htm]
        exact ⟨by decide, hquiet⟩
      generalize hm : (if tm < offset now kcp.tsFlush then tm else offset now kcp.tsFlush) = m
      have hmin : ∀ x : Int, x ≤ m ↔ x ≤ tm ∧ x ≤ offset now kcp.tsFlush := by
        intro x
        rw [← hm]
        split <;> omega
      have hvalue : ((toU32 m).toNat : Int) = m := by
        have hone := hmin 1
        have hself := hmin m
        unfold toU32
        rw [UInt32.toNat_ofNat']
        omega
      have hanswer : ikcpCheck kcp now =
          now + if toU32 m ≥ kcp.interval then kcp.interval else toU32 m := by
        unfold ikcpCheck
        dsimp only
        have hfar : ¬ (itimediff now kcp.tsFlush ≥ 10000 ∨ itimediff now kcp.tsFlush < -10000) := by
          omega
        rw [if_neg hfirst, if_neg hfar, if_neg (by omega), hloop, hleft]
        dsimp only
        rw [hm]
      have hcut : (if toU32 m ≥ kcp.interval then kcp.interval else toU32 m).toNat =
          min (toU32 m).toNat kcp.interval.toNat := by
        split
        · rename_i hge
          exact (Nat.min_eq_right (UInt32.le_iff_toNat_le.mp hge)).symm
        · rename_i hlt
          rw [ge_iff_le, UInt32.le_iff_toNat_le] at hlt
          exact (Nat.min_eq_left (by omega)).symm
      rw [hanswer, Serial.offset_add_self, hcut]
      have hbound := hmin a
      have hsegs := htm a
      constructor
      · intro hle
        have hboth := hbound.mp (by omega)
        exact ⟨by omega, (hsegs.mp hboth.1).2, by omega⟩
      · rintro ⟨hflush, hall, hinterval⟩
        have ha : (a : Int) ≤ tm := hsegs.mpr ⟨by omega, hall⟩
        have hboth := hbound.mpr ⟨ha, by omega⟩
        omega

/-! ## Updates before and at the time answered -/

/-- Updates while the timer runs only move the clock. -/
theorem updates_waiting {kcp : IKCPCB} {ticks : List UInt32} (h : ∀ t ∈ ticks, Waiting kcp t) :
    updates kcp ticks =
      ({ kcp with current := ticks.getLast?.getD kcp.current }, []) := by
  induction ticks generalizing kcp with
  | nil => rfl
  | cons tick ticks ih =>
      have hfirst : ikcpUpdate kcp tick = ({ kcp with current := tick }, []) := by
        unfold ikcpUpdate
        rw [updateTimer_waiting (h tick List.mem_cons_self)]
        rfl
      have hrest := @ih { kcp with current := tick } fun t ht =>
        h t (List.mem_cons_of_mem _ ht)
      unfold updates
      dsimp only
      rw [hfirst, hrest]
      cases ticks with
      | nil => rfl
      | cons t ts => simp [List.getLast?_cons]

theorem ikcpUpdate_current (kcp : IKCPCB) (current tick : UInt32) :
    ikcpUpdate { kcp with current := current } tick = ikcpUpdate kcp tick := rfl

/-- `ikcp_check` as a schedule, for any block and clock. The answer is at most an interval
ahead; updates at any clocks before it send nothing and change nothing that a later
update could see; and an update at the answer flushes exactly if the flush was already
due, or if it is due within the interval and no segment of `snd_buf` before it. -/
theorem check_schedule (kcp : IKCPCB) (now : UInt32) :
    offset now (ikcpCheck kcp now) ≤ kcp.interval.toNat ∧
    (∀ ticks : List UInt32, (∀ t ∈ ticks, offset now t < offset now (ikcpCheck kcp now)) →
      (updates kcp ticks).2 = [] ∧
        ∀ t, ikcpUpdate (updates kcp ticks).1 t = ikcpUpdate kcp t) ∧
    ((updateTimer kcp (ikcpCheck kcp now)).2 = true ↔
      ¬ Waiting kcp now ∨ (offset now kcp.tsFlush ≤ kcp.interval.toNat ∧
        ∀ seg ∈ kcp.sndBuf, (offset now kcp.tsFlush : Int) ≤ itimediff seg.resendts now)) := by
  by_cases h : Waiting kcp now ∧ Quiet kcp now
  · obtain ⟨hwait, hquiet⟩ := h
    have hle := le_ikcpCheck_iff hwait hquiet
    obtain ⟨hflush, hsegs, hinterval⟩ := (hle _).mp (Nat.le_refl _)
    refine ⟨hinterval, ?_, ?_⟩
    · intro ticks hticks
      have hall : ∀ t ∈ ticks, Waiting kcp t := by
        intro t ht
        have hbefore := hticks t ht
        exact (hwait.later_iff (by omega)).mpr (by omega)
      rw [updates_waiting hall]
      exact ⟨rfl, fun t => ikcpUpdate_current kcp _ t⟩
    · rw [updateTimer_due_iff, hwait.later_iff hflush, not_lt, hle]
      simp [hwait]
      tauto
  · have hnow := ikcpCheck_now h
    rw [hnow, Serial.offset_self]
    refine ⟨Nat.zero_le _, ?_, ?_⟩
    · intro ticks hticks
      cases ticks with
      | nil => exact ⟨rfl, fun t => rfl⟩
      | cons tick ticks => exact absurd (hticks tick List.mem_cons_self) (Nat.not_lt_zero _)
    · rw [updateTimer_due_iff]
      constructor
      · exact fun hdue => .inl hdue
      · rintro (hdue | ⟨hinterval, hsegs⟩)
        · exact hdue
        · intro hwait
          have hpos := hwait.left.2.1
          apply h
          refine ⟨hwait, ?_⟩
          intro seg hseg
          have hleft := hsegs seg hseg
          omega

end UdpKcp.Ikcp
