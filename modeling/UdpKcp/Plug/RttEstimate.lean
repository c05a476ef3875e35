import UdpKcp.Plug.History

/-! # The round-trip estimate

The peer chooses the time stamp of an acknowledgement, so a sample can be any
number below `2 ^ 31`. The retransmission timeout stays between its bounds for
all of them; the products of the estimator stay in range exactly while two sums
over the old estimate and the sample do.
-/

namespace UdpKcp.Plug

open ByteCodec (Bytes)
open Ikcp

/-! ## The computations of one sample -/

def InInt32 (x : Int) : Prop := -2 ^ 31 ≤ x ∧ x < 2 ^ 31

theorem toI32_of_inInt32 {x : Int} (h : InInt32 x) : toI32 x = x := by
  obtain ⟨hlo, hhi⟩ := h
  exact Int.bmod_eq_of_le (by omega) (by omega)

/-- The local `delta` of `ikcp_update_ack` behind its sign change. -/
def sampleDelta (kcp : IKCPCB) (rtt : Int) : Int :=
  let delta := rtt - kcp.rxSrtt
  if delta < 0 then -delta else delta

/-- The signed computations of `ikcp_update_ack` without any wrap, `long` read as 32
bits wide like `int`. -/
def ackValues (kcp : IKCPCB) (rtt : Int) : List Int :=
  if kcp.rxSrtt = 0 then [rtt.tdiv 2, 4 * rtt.tdiv 2]
  else
    let sum := 3 * kcp.rxRttval + sampleDelta kcp rtt
    [rtt - kcp.rxSrtt, sampleDelta kcp rtt, 3 * kcp.rxRttval, sum, sum.tdiv 4,
      7 * kcp.rxSrtt, 7 * kcp.rxSrtt + rtt, (7 * kcp.rxSrtt + rtt).tdiv 8, 4 * sum.tdiv 4]

/-- The timeout is between its bounds. -/
structure RtoBounded (kcp : IKCPCB) : Prop where
  minrto : kcp.rxMinrto = ikcpRtoMin
  lower : kcp.rxMinrto ≤ kcp.rxRto
  upper : kcp.rxRto ≤ ikcpRtoMax.toNat

/-- The estimate is not negative and the timeout between its bounds. -/
structure Estimated (kcp : IKCPCB) : Prop where
  srtt : 0 ≤ kcp.rxSrtt
  rttval : 0 ≤ kcp.rxRttval
  lower : kcp.rxMinrto ≤ kcp.rxRto
  upper : kcp.rxRto ≤ ikcpRtoMax.toNat

/-- Nothing leaves the range of `int`, and the estimate afterwards is sane. -/
structure Sample.Safe (s : Sample) : Prop where
  values : ∀ x ∈ ackValues s.kcp s.rtt, InInt32 x
  after : Estimated (ikcpUpdateAck s.kcp s.rtt)

/-- The old estimate and the sample are small enough. -/
def Sample.Small (s : Sample) : Prop :=
  if s.kcp.rxSrtt = 0 then s.rtt < 2 ^ 30
  else
    7 * s.kcp.rxSrtt + s.rtt < 2 ^ 31 ∧ 3 * s.kcp.rxRttval + sampleDelta s.kcp s.rtt < 2 ^ 31

/-! ## The timeout -/

/-- Whatever the sample was, the clamp gives a timeout within its bounds. -/
theorem ikcpUpdateAck_rto {kcp : IKCPCB} (hmin : kcp.rxMinrto = ikcpRtoMin) (rtt : Int) :
    RtoBounded (ikcpUpdateAck kcp rtt) := by
  have hclamp : ∀ middle : UInt32,
      100 ≤ asI32 (ibound 100 middle ikcpRtoMax) ∧
        asI32 (ibound 100 middle ikcpRtoMax) ≤ 60000 := by
    intro middle
    have hmiddle := middle.toNat_lt
    have hnat : (ibound 100 middle ikcpRtoMax).toNat = min (max 100 middle.toNat) 60000 := by
      unfold ibound
      rw [imin_toNat, imax_toNat]
      rfl
    rw [asI32_of_lt (by omega)]
    omega
  have hlower : toU32 kcp.rxMinrto = 100 := by
    rw [hmin]
    decide
  have hkeeps : (ikcpUpdateAck kcp rtt).rxMinrto = kcp.rxMinrto := by rw [ikcpUpdateAck_eq]
  have hrto : ∃ middle, (ikcpUpdateAck kcp rtt).rxRto = asI32 (ibound 100 middle ikcpRtoMax) := by
    unfold ikcpUpdateAck
    dsimp only
    split <;> exact ⟨_, by rw [hlower]⟩
  obtain ⟨middle, hmiddle⟩ := hrto
  obtain ⟨hlo, hhi⟩ := hclamp middle
  refine ⟨hkeeps.trans hmin, ?_, ?_⟩
  · rw [hkeeps, hmin, hmiddle]
    exact hlo
  · rw [hmiddle]
    exact hhi

/-! ## One sample -/

theorem ikcpUpdateAck_first {kcp : IKCPCB} (hzero : kcp.rxSrtt = 0) (rtt : Int) :
    (ikcpUpdateAck kcp rtt).rxSrtt = rtt ∧ (ikcpUpdateAck kcp rtt).rxRttval = rtt.tdiv 2 := by
  unfold ikcpUpdateAck
  dsimp only
  rw [if_pos hzero]
  exact ⟨rfl, rfl⟩

theorem ikcpUpdateAck_next {kcp : IKCPCB} (hzero : kcp.rxSrtt ≠ 0) (rtt : Int) :
    (ikcpUpdateAck kcp rtt).rxSrtt =
        (if (toI32 (toI32 (7 * kcp.rxSrtt) + rtt)).tdiv 8 < 1 then 1
          else (toI32 (toI32 (7 * kcp.rxSrtt) + rtt)).tdiv 8) ∧
      (ikcpUpdateAck kcp rtt).rxRttval =
        toI32 ((toI32 (3 * kcp.rxRttval) +
          (if toI32 (rtt - kcp.rxSrtt) < 0 then -toI32 (rtt - kcp.rxSrtt)
            else toI32 (rtt - kcp.rxSrtt))).tdiv 4) := by
  unfold ikcpUpdateAck
  dsimp only
  rw [if_neg hzero]
  exact ⟨rfl, rfl⟩

/-- What is known of a block before a sample. -/
structure RttSane (kcp : IKCPCB) : Prop extends RtoBounded kcp where
  srtt : 0 ≤ kcp.rxSrtt
  srtt_lt : kcp.rxSrtt < 2 ^ 31
  rttval : 0 ≤ kcp.rxRttval
  rttval_lt : kcp.rxRttval < 2 ^ 31

theorem RttSane.estimated {kcp : IKCPCB} (h : RttSane kcp) : Estimated kcp :=
  ⟨h.srtt, h.rttval, h.lower, h.upper⟩

section OneSample

variable {kcp : IKCPCB} {rtt : Int} (h : RttSane kcp) (hlo : 0 ≤ rtt) (hhi : rtt < 2 ^ 31)

include h hlo hhi

theorem sampleDelta_bounds : 0 ≤ sampleDelta kcp rtt ∧ sampleDelta kcp rtt < 2 ^ 31 := by
  have hsrtt := h.srtt
  have hlt := h.srtt_lt
  unfold sampleDelta
  dsimp only
  split <;> omega

/-- The two sums bound everything else that is computed. -/
theorem small_of_values (hvalues : ∀ x ∈ ackValues kcp rtt, InInt32 x) :
    Sample.Small ⟨kcp, rtt⟩ := by
  obtain ⟨hdelta, -⟩ := sampleDelta_bounds h hlo hhi
  have hrttval := h.rttval
  unfold Sample.Small
  unfold ackValues at hvalues
  split_ifs with hzero
  · rw [if_pos hzero] at hvalues
    obtain ⟨-, hproduct⟩ := hvalues (4 * rtt.tdiv 2) (by simp)
    rw [Int.tdiv_eq_ediv_of_nonneg hlo] at hproduct
    dsimp only
    omega
  · rw [if_neg hzero] at hvalues
    obtain ⟨-, hsrtt⟩ := hvalues (7 * kcp.rxSrtt + rtt) (by simp)
    obtain ⟨-, hsum⟩ := hvalues (3 * kcp.rxRttval + sampleDelta kcp rtt) (by simp)
    exact ⟨hsrtt, hsum⟩

theorem values_of_small (hsmall : Sample.Small ⟨kcp, rtt⟩) :
    ∀ x ∈ ackValues kcp rtt, InInt32 x := by
  obtain ⟨hdelta, hdelta'⟩ := sampleDelta_bounds h hlo hhi
  have hrttval := h.rttval
  have hsrtt := h.srtt
  unfold Sample.Small at hsmall
  unfold ackValues
  unfold InInt32
  split_ifs at hsmall ⊢ with hzero
  · have hhalf := Int.tdiv_eq_ediv_of_nonneg hlo (b := 2)
    dsimp only at hsmall
    simp only [List.forall_mem_cons, hhalf]
    refine ⟨?_, ?_, List.forall_mem_nil _⟩ <;> omega
  · dsimp only at hsmall
    have hsum := Int.tdiv_eq_ediv_of_nonneg
      (show 0 ≤ 3 * kcp.rxRttval + sampleDelta kcp rtt by omega) (b := 4)
    have hmean := Int.tdiv_eq_ediv_of_nonneg (show 0 ≤ 7 * kcp.rxSrtt + rtt by omega) (b := 8)
    simp only [List.forall_mem_cons, hsum, hmean]
    refine ⟨?_, ?_, ?_, ?_, ?_, ?_, ?_, ?_, ?_, List.forall_mem_nil _⟩ <;> omega

/-- A small sample moves the estimate as the formulas say, without any wrap. -/
theorem ikcpUpdateAck_exact (hsmall : Sample.Small ⟨kcp, rtt⟩) :
    (ikcpUpdateAck kcp rtt).rxSrtt =
        (if kcp.rxSrtt = 0 then rtt else max 1 ((7 * kcp.rxSrtt + rtt) / 8)) ∧
      (ikcpUpdateAck kcp rtt).rxRttval =
        (if kcp.rxSrtt = 0 then rtt / 2 else (3 * kcp.rxRttval + sampleDelta kcp rtt) / 4) := by
  obtain ⟨hdelta, hdelta'⟩ := sampleDelta_bounds h hlo hhi
  have hrttval := h.rttval
  have hsrtt := h.srtt
  have hsrtt' := h.srtt_lt
  unfold Sample.Small at hsmall
  dsimp only at hsmall
  by_cases hzero : kcp.rxSrtt = 0
  · obtain ⟨hfirst, hfirst'⟩ := ikcpUpdateAck_first hzero rtt
    rw [hfirst, hfirst', if_pos hzero, if_pos hzero]
    exact ⟨rfl, Int.tdiv_eq_ediv_of_nonneg hlo⟩
  · obtain ⟨hnext, hnext'⟩ := ikcpUpdateAck_next hzero rtt
    rw [if_neg hzero] at hsmall
    have hdiff : toI32 (rtt - kcp.rxSrtt) = rtt - kcp.rxSrtt :=
      toI32_of_inInt32 ⟨by omega, by omega⟩
    have hdelta'' : (if rtt - kcp.rxSrtt < 0 then -(rtt - kcp.rxSrtt) else rtt - kcp.rxSrtt) =
        sampleDelta kcp rtt := rfl
    have hseven : toI32 (7 * kcp.rxSrtt) = 7 * kcp.rxSrtt :=
      toI32_of_inInt32 ⟨by omega, by omega⟩
    have hmean : toI32 (7 * kcp.rxSrtt + rtt) = 7 * kcp.rxSrtt + rtt :=
      toI32_of_inInt32 ⟨by omega, by omega⟩
    have hmean' : (7 * kcp.rxSrtt + rtt).tdiv 8 = (7 * kcp.rxSrtt + rtt) / 8 :=
      Int.tdiv_eq_ediv_of_nonneg (by omega)
    have hthree : toI32 (3 * kcp.rxRttval) = 3 * kcp.rxRttval :=
      toI32_of_inInt32 ⟨by omega, by omega⟩
    have hsum : (3 * kcp.rxRttval + sampleDelta kcp rtt).tdiv 4 =
        (3 * kcp.rxRttval + sampleDelta kcp rtt) / 4 :=
      Int.tdiv_eq_ediv_of_nonneg (by omega)
    have hsum' : toI32 ((3 * kcp.rxRttval + sampleDelta kcp rtt) / 4) =
        (3 * kcp.rxRttval + sampleDelta kcp rtt) / 4 :=
      toI32_of_inInt32 ⟨by omega, by omega⟩
    rw [hnext, hnext', hdiff, hdelta'', hseven, hmean, hmean', hthree, hsum, hsum',
      if_neg hzero, if_neg hzero]
    refine ⟨?_, rfl⟩
    split <;> omega

theorem RttSane.sample (hsmall : Sample.Small ⟨kcp, rtt⟩) : RttSane (ikcpUpdateAck kcp rtt) := by
  obtain ⟨hdelta, hdelta'⟩ := sampleDelta_bounds h hlo hhi
  obtain ⟨hsrtt', hrttval'⟩ := ikcpUpdateAck_exact h hlo hhi hsmall
  have hrttval := h.rttval
  have hsrtt := h.srtt
  unfold Sample.Small at hsmall
  dsimp only at hsmall
  refine ⟨ikcpUpdateAck_rto h.minrto rtt, ?_, ?_, ?_, ?_⟩
  · rw [hsrtt']
    split_ifs <;> omega
  · rw [hsrtt']
    split_ifs at hsmall ⊢ <;> omega
  · rw [hrttval']
    split_ifs <;> omega
  · rw [hrttval']
    split_ifs at hsmall ⊢ <;> omega

theorem safe_iff_small : Sample.Safe ⟨kcp, rtt⟩ ↔ Sample.Small ⟨kcp, rtt⟩ := by
  constructor
  · exact fun hsafe => small_of_values h hlo hhi hsafe.values
  · exact fun hsmall => ⟨values_of_small h hlo hhi hsmall, (h.sample hlo hhi hsmall).estimated⟩

end OneSample

/-! ## Everything else leaves the estimate alone -/

/-- A step that leaves the estimate alone. -/
structure RttFixed (old new : IKCPCB) : Prop where
  minrto : new.rxMinrto = old.rxMinrto
  srtt : new.rxSrtt = old.rxSrtt
  rttval : new.rxRttval = old.rxRttval
  rto : new.rxRto = old.rxRto

theorem RttFixed.trans {a b c : IKCPCB} (hab : RttFixed a b) (hbc : RttFixed b c) :
    RttFixed a c :=
  ⟨hbc.minrto.trans hab.minrto, hbc.srtt.trans hab.srtt, hbc.rttval.trans hab.rttval,
    hbc.rto.trans hab.rto⟩

theorem RtoBounded.fixed {kcp kcp' : IKCPCB} (h : RtoBounded kcp) (hf : RttFixed kcp kcp') :
    RtoBounded kcp' := by
  obtain ⟨hminrto, -, -, hrto⟩ := hf
  refine ⟨?_, ?_, ?_⟩
  · rw [hminrto]; exact h.minrto
  · rw [hminrto, hrto]; exact h.lower
  · rw [hrto]; exact h.upper

theorem RttSane.fixed {kcp kcp' : IKCPCB} (h : RttSane kcp) (hf : RttFixed kcp kcp') :
    RttSane kcp' := by
  refine ⟨h.toRtoBounded.fixed hf, ?_, ?_, ?_, ?_⟩
  · rw [hf.srtt]; exact h.srtt
  · rw [hf.srtt]; exact h.srtt_lt
  · rw [hf.rttval]; exact h.rttval
  · rw [hf.rttval]; exact h.rttval_lt

/-- A segment moves the estimate by its sample, if it makes one. -/
theorem inputSegment_rtt (st : InputState) (h : SegHeader) (payload : Bytes) :
    (segmentSamples st.kcp h = [] ∧ RttFixed st.kcp (inputSegment st h payload).kcp) ∨
      ∃ kcp rtt, segmentSamples st.kcp h = [⟨kcp, rtt⟩] ∧ RttFixed st.kcp kcp ∧
        0 ≤ rtt ∧ rtt < 2 ^ 31 ∧
        RttFixed (ikcpUpdateAck kcp rtt) (inputSegment st h payload).kcp := by
  have hcommon : RttFixed st.kcp (inputCommon st.kcp h) := ⟨rfl, rfl, rfl, rfl⟩
  have hnone : h.cmd.toUInt32 ≠ ikcpCmdAck → segmentSamples st.kcp h = [] := by
    intro hcmd
    exact if_neg fun hboth => hcmd hboth.1
  rcases inputSegment_cases st h payload with
    ⟨hack, heq⟩ | ⟨hpush, heq⟩ | ⟨hwask, heq⟩ | ⟨hack, -, -, heq⟩
  · have hparse : ∀ kcp, RttFixed kcp (ikcpShrinkBuf (ikcpParseAck kcp h.sn)) := by
      intro kcp
      unfold ikcpParseAck
      split <;> exact ⟨rfl, rfl, rfl, rfl⟩
    rw [heq, inputAck_kcp]
    unfold segmentSamples ackBlock
    dsimp only
    have hclock : (inputCommon st.kcp h).current = st.kcp.current := rfl
    by_cases hrtt : itimediff (inputCommon st.kcp h).current h.ts ≥ 0
    · have hbounds : itimediff (inputCommon st.kcp h).current h.ts < 2 ^ 31 :=
        (Serial.diff_bounds _ _).2
      rw [if_pos ⟨hack, hrtt⟩, if_pos hrtt]
      exact Or.inr ⟨_, _, rfl, hcommon, hrtt, hbounds, hparse _⟩
    · rw [if_neg fun hboth => hrtt hboth.2, if_neg hrtt]
      exact Or.inl ⟨rfl, hcommon.trans (hparse _)⟩
  · rw [heq, inputPush_eq]
    exact Or.inl ⟨hnone (by rw [hpush]; decide), hcommon.trans ⟨rfl, rfl, rfl, rfl⟩⟩
  · rw [heq]
    exact Or.inl ⟨hnone (by rw [hwask]; decide), hcommon.trans ⟨rfl, rfl, rfl, rfl⟩⟩
  · rw [heq]
    exact Or.inl ⟨hnone hack, hcommon⟩

theorem RttFixed.inputTail (st : InputState) (prevUna : UInt32) :
    RttFixed st.kcp (inputTail st prevUna) := by
  rw [inputTail_eq]
  exact ⟨rfl, rfl, rfl, rfl⟩

theorem RttFixed.recv {kcp kcp' : IKCPCB} {len : Int} {bytes : Bytes} (hlen : 0 ≤ len)
    (h : ikcpRecv kcp len = .ok (bytes, kcp')) : RttFixed kcp kcp' := by
  obtain ⟨-, -, -, -, probe, rfl, -⟩ := ikcpRecv_ok hlen h
  exact ⟨rfl, rfl, rfl, rfl⟩

theorem RttFixed.opened (kcp : IKCPCB) : RttFixed kcp (flushOpened kcp) := by
  have hprobed : RttFixed kcp (flushProbed kcp) := by
    rw [flushProbed_eq]
    exact ⟨rfl, rfl, rfl, rfl⟩
  exact hprobed.trans ⟨rfl, rfl, rfl, rfl⟩

theorem RttFixed.timed (kcp : IKCPCB) (current : UInt32) :
    RttFixed kcp (updateTimer kcp current).1 := by
  rw [updateTimer_eq]
  exact ⟨rfl, rfl, rfl, rfl⟩

theorem RttFixed.update (block : IKCPCB) (dlt : UInt32) :
    RttFixed block (kcpUpdate block dlt).1 := by
  have htimed := RttFixed.timed block dlt
  apply kcpUpdate_of htimed
  rw [ikcpFlush_block (updateTimer_updated block dlt)]
  exact htimed.trans ((RttFixed.opened _).trans ⟨rfl, rfl, rfl, rfl⟩)

theorem RttFixed.send (block : IKCPCB) (data : Bytes) (len : Int) :
    RttFixed block (kcpSend block data len).1 := by
  rw [kcpSend_eq]
  exact ⟨rfl, rfl, rfl, rfl⟩

/-! ## Runs -/

/-- What one sample keeps and makes of itself, a run keeps and makes of all of them. -/
theorem recorded_samples {I : IKCPCB → Prop} {A B : Sample → Prop}
    (hnew : ∀ conv, I (newKcpPlugControlBlock conv))
    (hfixed : ∀ {kcp kcp'}, I kcp → RttFixed kcp kcp' → I kcp')
    (hsample : ∀ {kcp rtt}, I kcp → 0 ≤ rtt → rtt < 2 ^ 31 → A ⟨kcp, rtt⟩ →
      B ⟨kcp, rtt⟩ ∧ I (ikcpUpdateAck kcp rtt))
    {conv : UInt32} {block : IKCPCB} {past : History} (h : Recorded conv block past)
    (hA : ∀ s ∈ past.samples, A s) : (∀ s ∈ past.samples, B s) ∧ I block := by
  have hseg : ∀ st h payload, I st.kcp → (∀ s ∈ segmentSamples st.kcp h, A s) →
      (∀ s ∈ segmentSamples st.kcp h, B s) ∧ I (inputSegment st h payload).kcp := by
    intro st h payload hI hA
    rcases inputSegment_rtt st h payload with
      ⟨hnone, hkeep⟩ | ⟨kcp, rtt, hone, hbefore, hlo, hhi, hafter⟩
    · rw [hnone]
      exact ⟨List.forall_mem_nil _, hfixed hI hkeep⟩
    · rw [hone, List.forall_mem_singleton] at hA ⊢
      obtain ⟨hB, hI'⟩ := hsample (hfixed hI hbefore) hlo hhi hA
      exact ⟨hB, hfixed hI' hafter⟩
  induction h with
  | new => exact ⟨List.forall_mem_nil _, hnew conv⟩
  | send data _ ih =>
      obtain ⟨hB, hI⟩ := ih hA
      exact ⟨hB, hfixed hI (RttFixed.send _ _ _)⟩
  | update dlt _ ih =>
      obtain ⟨hB, hI⟩ := ih hA
      exact ⟨hB, hfixed hI (RttFixed.update _ dlt)⟩
  | recv input soc maxlen _ ih =>
      dsimp only at hA ⊢
      rw [List.forall_mem_append] at hA ⊢
      obtain ⟨hB, hI⟩ := ih hA.1
      obtain ⟨hB', hI'⟩ := inputsWalk_imp hseg
        (fun st prevUna hst => hfixed hst (RttFixed.inputTail st prevUna)) _ hI hA.2
      rw [← kcpRecvInput_eq] at hI'
      exact ⟨⟨hB, hB'⟩,
        drain_keeps (fun _ _ _ _ hlen hr hk => hfixed hk (RttFixed.recv hlen hr)) maxlen hI'⟩

theorem RttSane.new (conv : UInt32) : RttSane (newKcpPlugControlBlock conv) where
  minrto := rfl
  lower := show (100 : Int) ≤ 200 by decide
  upper := show (200 : Int) ≤ 60000 by decide
  srtt := Int.le_refl _
  srtt_lt := show (0 : Int) < 2 ^ 31 by decide
  rttval := Int.le_refl _
  rttval_lt := show (0 : Int) < 2 ^ 31 by decide

/-- The timeout keeps its bounds in every run, whatever the samples. -/
theorem rtoBounded_of_reachable {conv : UInt32} {block : IKCPCB} (h : Reachable conv block) :
    RtoBounded block := by
  obtain ⟨past, hrun⟩ := exists_recorded h
  exact (recorded_samples (A := fun _ => True) (B := fun _ => True)
    (fun conv => (RttSane.new conv).toRtoBounded) (fun hI hf => hI.fixed hf)
    (fun hI _ _ _ => ⟨trivial, ikcpUpdateAck_rto hI.minrto _⟩) hrun fun _ _ => trivial).2

/-- Samples below `2 ^ 28` milliseconds, about three days, are small in every run: the
estimate never exceeds the largest of them. -/
theorem small_of_short {conv : UInt32} {block : IKCPCB} {past : History}
    (h : Recorded conv block past) (hshort : ∀ s ∈ past.samples, s.rtt < 2 ^ 28) :
    ∀ s ∈ past.samples, s.Small := by
  refine (recorded_samples (A := fun s => s.rtt < 2 ^ 28)
    (I := fun kcp => RttSane kcp ∧ kcp.rxSrtt < 2 ^ 28 ∧ kcp.rxRttval < 2 ^ 28)
    (fun conv => ⟨RttSane.new conv, show (0 : Int) < 2 ^ 28 by decide,
      show (0 : Int) < 2 ^ 28 by decide⟩) ?_ ?_ h hshort).1
  · rintro kcp kcp' ⟨hsane, hsrtt, hrttval⟩ hf
    rw [← hf.srtt] at hsrtt
    rw [← hf.rttval] at hrttval
    exact ⟨hsane.fixed hf, hsrtt, hrttval⟩
  · rintro kcp rtt ⟨hsane, hsrtt, hrttval⟩ hlo hhi hlt
    dsimp only at hlt
    have hsrtt0 := hsane.srtt
    have hrttval0 := hsane.rttval
    have hdelta : 0 ≤ sampleDelta kcp rtt ∧ sampleDelta kcp rtt < 2 ^ 28 := by
      unfold sampleDelta
      dsimp only
      split <;> omega
    have hsmall : Sample.Small ⟨kcp, rtt⟩ := by
      unfold Sample.Small
      dsimp only
      split <;> omega
    obtain ⟨hsrtt', hrttval'⟩ := ikcpUpdateAck_exact hsane hlo hhi hsmall
    refine ⟨hsmall, hsane.sample hlo hhi hsmall, ?_, ?_⟩
    · rw [hsrtt']
      split <;> omega
    · rw [hrttval']
      split <;> omega

/-- In every run the computations of `ikcp_update_ack` stay in the range of `int` and leave
a sane estimate exactly when each sample finds itself and the estimate before it small. -/
theorem rtt_safe_iff {conv : UInt32} {block : IKCPCB} {past : History}
    (h : Recorded conv block past) :
    ((∀ s ∈ past.samples, s.Safe) ∧ Estimated block) ↔ ∀ s ∈ past.samples, s.Small := by
  constructor
  · intro hsafe
    refine (recorded_samples RttSane.new (fun hI hf => hI.fixed hf) ?_ h hsafe.1).1
    intro kcp rtt hI hlo hhi hs
    have hsmall := (safe_iff_small hI hlo hhi).mp hs
    exact ⟨hsmall, hI.sample hlo hhi hsmall⟩
  · intro hsmall
    have hrun := recorded_samples (B := Sample.Safe) RttSane.new (fun hI hf => hI.fixed hf)
      (fun hI hlo hhi hs => ⟨(safe_iff_small hI hlo hhi).mpr hs, hI.sample hlo hhi hs⟩) h hsmall
    exact ⟨hrun.1, hrun.2.estimated⟩

/-- An acknowledgement with the given time stamp. -/
def ackStamped (ts : UInt32) : Bytes :=
  encodeHeader { conv := 7, cmd := 82, frg := 0, wnd := 128, ts := ts, sn := 0, una := 0, len := 0 }

/-- A block whose first update is at this clock. -/
def blockAt (clock : UInt32) : IKCPCB := (kcpUpdate (newKcpPlugControlBlock 7) clock).1

/-- The history of one `KcpRecv` on that block. -/
def pastAt (clock : UInt32) (input : Bytes) : History where
  samples := [] ++ kcpRecvSamples (blockAt clock) (some input) []
  sent := [] ++ kcpUpdateTransmissions (newKcpPlugControlBlock 7) clock

theorem pastAt_recorded (clock : UInt32) (input : Bytes) :
    Recorded 7 (kcpRecv (blockAt clock) (some input) [] 512).block (pastAt clock input) :=
  Recorded.recv (some input) [] 512 (Recorded.update clock .new)

/-- A round trip of 30 milliseconds. -/
theorem rtt_safe_ordinary :
    (pastAt 50 (ackStamped 20)).samples.map Sample.rtt = [30] ∧
      (((∀ s ∈ (pastAt 50 (ackStamped 20)).samples, s.Safe) ∧
          Estimated (kcpRecv (blockAt 50) (some (ackStamped 20)) [] 512).block) ↔
        ∀ s ∈ (pastAt 50 (ackStamped 20)).samples, s.Small) :=
  ⟨by decide, rtt_safe_iff (pastAt_recorded 50 (ackStamped 20))⟩

/-- Two acknowledgements stamped `2 ^ 31 - 1` before the clock: the first product with 4 is
out of range, and after the second one `rx_rttval` is negative. -/
theorem rtt_overflow :
    Recorded 7
        (kcpRecv (blockAt 2147483647) (some (ackStamped 0 ++ ackStamped 0)) [] 512).block
        (pastAt 2147483647 (ackStamped 0 ++ ackStamped 0)) ∧
      (∃ s ∈ (pastAt 2147483647 (ackStamped 0 ++ ackStamped 0)).samples,
        ∃ x ∈ ackValues s.kcp s.rtt, 2 ^ 31 ≤ x) ∧
      (kcpRecv (blockAt 2147483647) (some (ackStamped 0 ++ ackStamped 0)) [] 512).block.rxRttval <
        0 :=
  ⟨pastAt_recorded _ _, by decide, by decide⟩

end UdpKcp.Plug
