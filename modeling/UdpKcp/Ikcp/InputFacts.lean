import UdpKcp.Ikcp.Input

/-! # Facts about datagram input

Input never touches the settings. A datagram made of whole acceptable segments
is read segment by segment to its end and answered with zero.
-/

namespace UdpKcp.Ikcp

open ByteCodec (Bytes)

/-! ## Settings are kept -/

/-- An RTT sample writes the three RTT fields. -/
theorem ikcpUpdateAck_eq (kcp : IKCPCB) (rtt : Int) :
    ikcpUpdateAck kcp rtt =
      { kcp with
        rxRttval := (ikcpUpdateAck kcp rtt).rxRttval
        rxSrtt := (ikcpUpdateAck kcp rtt).rxSrtt
        rxRto := (ikcpUpdateAck kcp rtt).rxRto } := by
  unfold ikcpUpdateAck
  dsimp only
  split_ifs <;> rfl

@[simp] theorem ikcpUpdateAck_config (kcp : IKCPCB) (rtt : Int) :
    (ikcpUpdateAck kcp rtt).config = kcp.config := by
  rw [ikcpUpdateAck_eq]
  rfl

/-- The data branch writes the receiving fields and the ack list. -/
theorem inputPush_eq (kcp : IKCPCB) (h : SegHeader) (payload : Bytes) :
    inputPush kcp h payload =
      { kcp with
        rcvNxt := (inputPush kcp h payload).rcvNxt
        nrcvBuf := (inputPush kcp h payload).nrcvBuf
        nrcvQue := (inputPush kcp h payload).nrcvQue
        rcvQueue := (inputPush kcp h payload).rcvQueue
        rcvBuf := (inputPush kcp h payload).rcvBuf
        acklist := (inputPush kcp h payload).acklist } := by
  unfold inputPush ikcpParseData
  dsimp only
  split_ifs
  · rfl
  · cases insertFromTail (receivedSegment h payload) (ikcpAckPush kcp h.sn h.ts).rcvBuf.reverse
    · rfl
    · rfl
  · rfl
  · rfl

@[simp] theorem inputPush_config (kcp : IKCPCB) (h : SegHeader) (payload : Bytes) :
    (inputPush kcp h payload).config = kcp.config := by
  rw [inputPush_eq]
  rfl

/-- The block without what an acknowledgement can change. -/
def IKCPCB.unacked (kcp : IKCPCB) : IKCPCB :=
  { kcp with sndUna := 0, rxRttval := 0, rxSrtt := 0, rxRto := 0, nsndBuf := 0, sndBuf := [] }

/-- The acknowledgement branch takes a sample or none, and then deletes one number. -/
theorem inputAck_of {P Q : IKCPCB → Prop} {st : InputState} {h : SegHeader} (hst : Q st.kcp)
    (hrtt : ∀ rtt, Q (ikcpUpdateAck st.kcp rtt))
    (hparse : ∀ kcp, Q kcp → P (ikcpShrinkBuf (ikcpParseAck kcp h.sn))) :
    P (inputAck st h).kcp := by
  have hsample : Q (if itimediff st.kcp.current h.ts ≥ 0 then
      ikcpUpdateAck st.kcp (itimediff st.kcp.current h.ts) else st.kcp) := by
    split
    · exact hrtt _
    · exact hst
  unfold inputAck
  dsimp only
  split
  · exact hparse _ hsample
  · exact hparse _ hsample

/-- The acknowledgement branch writes the RTT fields and the send buffer only. -/
theorem inputAck_unacked (st : InputState) (h : SegHeader) :
    (inputAck st h).kcp.unacked = st.kcp.unacked := by
  refine @inputAck_of (fun kcp => kcp.unacked = st.kcp.unacked)
    (fun kcp => kcp.unacked = st.kcp.unacked) st h rfl ?_ ?_
  · intro rtt
    rw [ikcpUpdateAck_eq]
    rfl
  · intro kcp hkcp
    rw [← hkcp]
    unfold ikcpParseAck
    split <;> rfl

@[simp] theorem inputAck_config (st : InputState) (h : SegHeader) :
    (inputAck st h).kcp.config = st.kcp.config := by
  have hconfig := congrArg IKCPCB.config (inputAck_unacked st h)
  exact hconfig

@[simp] theorem inputCommon_config (kcp : IKCPCB) (h : SegHeader) :
    (inputCommon kcp h).config = kcp.config := rfl

/-- The three branches of a segment, and no branch for an announcement. -/
theorem inputSegment_cases (st : InputState) (h : SegHeader) (payload : Bytes) :
    (h.cmd.toUInt32 = ikcpCmdAck ∧ inputSegment st h payload =
        inputAck { st with kcp := inputCommon st.kcp h } h) ∨
      (h.cmd.toUInt32 = ikcpCmdPush ∧ (inputSegment st h payload).kcp =
        inputPush (inputCommon st.kcp h) h payload) ∨
      (h.cmd.toUInt32 = ikcpCmdWask ∧ (inputSegment st h payload).kcp =
        { inputCommon st.kcp h with
          probe := (inputCommon st.kcp h).probe ||| ikcpAskTell }) ∨
      (h.cmd.toUInt32 ≠ ikcpCmdAck ∧ h.cmd.toUInt32 ≠ ikcpCmdPush ∧
        h.cmd.toUInt32 ≠ ikcpCmdWask ∧ (inputSegment st h payload).kcp =
          inputCommon st.kcp h) := by
  unfold inputSegment
  by_cases hack : h.cmd.toUInt32 = ikcpCmdAck
  · exact Or.inl ⟨hack, if_pos hack⟩
  · by_cases hpush : h.cmd.toUInt32 = ikcpCmdPush
    · refine Or.inr (Or.inl ⟨hpush, ?_⟩)
      dsimp only
      rw [if_neg hack, if_pos hpush]
    · by_cases hwask : h.cmd.toUInt32 = ikcpCmdWask
      · refine Or.inr (Or.inr (Or.inl ⟨hwask, ?_⟩))
        dsimp only
        rw [if_neg hack, if_neg hpush, if_pos hwask]
      · refine Or.inr (Or.inr (Or.inr ⟨hack, hpush, hwask, ?_⟩))
        dsimp only
        rw [if_neg hack, if_neg hpush, if_neg hwask]

/-- What each branch leaves holds after the segment. -/
theorem inputSegment_of {P : IKCPCB → Prop} {st : InputState} {h : SegHeader} {payload : Bytes}
    (hcommon : P (inputCommon st.kcp h))
    (hack : P (inputAck { st with kcp := inputCommon st.kcp h } h).kcp)
    (hpush : P (inputPush (inputCommon st.kcp h) h payload))
    (hwask : P
      { inputCommon st.kcp h with probe := (inputCommon st.kcp h).probe ||| ikcpAskTell }) :
    P (inputSegment st h payload).kcp := by
  rcases inputSegment_cases st h payload with ⟨-, heq⟩ | ⟨-, heq⟩ | ⟨-, heq⟩ | ⟨-, -, -, heq⟩
  · rw [heq]
    exact hack
  · rw [heq]
    exact hpush
  · rw [heq]
    exact hwask
  · rw [heq]
    exact hcommon

@[simp] theorem inputSegment_config (st : InputState) (h : SegHeader) (payload : Bytes) :
    (inputSegment st h payload).kcp.config = st.kcp.config := by
  rcases inputSegment_cases st h payload with ⟨-, heq⟩ | ⟨-, heq⟩ | ⟨-, heq⟩ | ⟨-, -, -, heq⟩
  · simp [heq]
  · simp [heq]
  · rw [heq]
    rfl
  · rw [heq]
    rfl

/-- The window update writes `cwnd` and `incr` only. -/
theorem growCwnd_eq (kcp : IKCPCB) :
    growCwnd kcp = { kcp with cwnd := (growCwnd kcp).cwnd, incr := (growCwnd kcp).incr } := by
  unfold growCwnd
  dsimp only
  split_ifs <;> rfl

theorem inputCwnd_eq (kcp : IKCPCB) (prevUna : UInt32) :
    inputCwnd kcp prevUna =
      { kcp with cwnd := (inputCwnd kcp prevUna).cwnd, incr := (inputCwnd kcp prevUna).incr } := by
  unfold inputCwnd
  rw [growCwnd_eq]
  dsimp only
  split_ifs <;> rfl

/-- After the loop only the fast-ack counters and the congestion window change. -/
theorem inputTail_eq (st : InputState) (prevUna : UInt32) :
    inputTail st prevUna =
      { st.kcp with
        sndBuf := (inputTail st prevUna).sndBuf
        cwnd := (inputTail st prevUna).cwnd
        incr := (inputTail st prevUna).incr } := by
  unfold inputTail ikcpParseFastack
  rw [inputCwnd_eq]
  split_ifs <;> rfl

@[simp] theorem inputTail_config (st : InputState) (prevUna : UInt32) :
    (inputTail st prevUna).config = st.kcp.config := by
  rw [inputTail_eq]
  rfl

/-- What every segment keeps, the loop keeps. -/
theorem inputLoop_keeps {P : IKCPCB → Prop}
    (hseg : ∀ st h payload, P st.kcp → P (inputSegment st h payload).kcp) (fuel : ℕ)
    {st : InputState} (data : Bytes) (hP : P st.kcp) : P (inputLoop fuel st data).1.kcp := by
  induction fuel generalizing st data with
  | zero => exact hP
  | succ fuel ih =>
      unfold inputLoop
      dsimp only
      split_ifs
      · exact hP
      · exact hP
      · exact hP
      · exact ih _ (hseg _ _ _ hP)
      · exact hP

/-- What every segment and the tail keep, `ikcp_input` keeps. -/
theorem ikcpInput_keeps {P : IKCPCB → Prop}
    (hseg : ∀ st h payload, P st.kcp → P (inputSegment st h payload).kcp)
    (htail : ∀ st prevUna, P st.kcp → P (inputTail st prevUna)) {kcp : IKCPCB} (data : Bytes)
    (hP : P kcp) : P (ikcpInput kcp data).1 := by
  have hrun := @inputLoop_keeps P hseg data.length { kcp := kcp } data hP
  unfold ikcpInput
  split
  · exact hP
  · split
    · rename_i st heq
      rw [heq] at hrun
      exact htail st _ hrun
    · rename_i st code heq
      rw [heq] at hrun
      exact hrun

@[simp] theorem ikcpInput_config (kcp : IKCPCB) (data : Bytes) :
    (ikcpInput kcp data).1.config = kcp.config :=
  ikcpInput_keeps (P := fun k => k.config = kcp.config)
    (fun st h payload hst => by rw [inputSegment_config, hst])
    (fun st prevUna hst => by rw [inputTail_config, hst]) data rfl

/-- `conv` is a setting. -/
theorem conv_of_config {kcp kcp' : IKCPCB} (h : kcp'.config = kcp.config) :
    kcp'.conv = kcp.conv :=
  congrArg Config.conv h

/-! ## Whole segments -/

theorem asI32_of_lt {x : UInt32} (h : x.toNat < 2 ^ 31) : asI32 x = x.toNat := by
  unfold asI32
  rw [BitVec.toInt_eq_toNat_of_lt]
  · rfl
  · change 2 * x.toNat < 2 ^ 32
    omega

theorem Acceptable.cast {conv conv' : UInt32} {seg : IKCPSEG} (h : Acceptable conv seg)
    (heq : conv' = conv) : Acceptable conv' seg := heq ▸ h

/-- One acceptable segment at the front of the rest of the datagram. -/
theorem inputLoop_cons {fuel : Nat} {st : InputState} {seg : IKCPSEG}
    (h : Acceptable st.kcp.conv seg) (rest : Bytes) :
    inputLoop (fuel + 1) st (seg.bytes ++ rest) =
      inputLoop fuel (inputSegment st seg.header seg.data) rest := by
  have hlen := h.toEncodable.len_toNat
  have hlt : seg.header.len.toNat < 2 ^ 31 := by
    change seg.len.toNat < _
    rw [hlen]
    exact h.len_lt
  have hdec : decodeHeader (seg.bytes ++ rest) = (seg.header, seg.data ++ rest) := by
    rw [IKCPSEG.bytes, List.append_assoc]
    exact decodeHeader_encode seg (seg.data ++ rest)
  have hroom : ¬ (seg.bytes ++ rest).length < ikcpOverhead := by
    rw [List.length_append, IKCPSEG.bytes_length]
    omega
  have hconv : ¬ seg.header.conv ≠ st.kcp.conv := not_not.mpr h.conv_eq
  have hbody : ¬ ((seg.data ++ rest).length < seg.header.len.toNat ∨
      asI32 seg.header.len < 0) := by
    rw [asI32_of_lt hlt, List.length_append]
    change ¬ (_ < seg.len.toNat ∨ _)
    omega
  have htake : (seg.data ++ rest).take seg.header.len.toNat = seg.data := by
    change (seg.data ++ rest).take seg.len.toNat = seg.data
    rw [hlen]
    exact List.take_left
  have hdrop : (seg.data ++ rest).drop seg.header.len.toNat = rest := by
    change (seg.data ++ rest).drop seg.len.toNat = rest
    rw [hlen]
    exact List.drop_left
  have hcmd : ¬ ¬ validCmd seg.header.cmd := not_not.mpr h.cmd_valid
  rw [inputLoop, if_neg hroom]
  simp only [hdec]
  rw [if_neg hconv, if_neg hbody, if_neg hcmd, htake, hdrop]

/-- The bytes of a list of segments, back to back. -/
def segmentBytes (segs : List IKCPSEG) : Bytes := segs.flatMap IKCPSEG.bytes

@[simp] theorem segmentBytes_nil : segmentBytes [] = [] := rfl

@[simp] theorem segmentBytes_cons (seg : IKCPSEG) (segs : List IKCPSEG) :
    segmentBytes (seg :: segs) = seg.bytes ++ segmentBytes segs := rfl

theorem inputLoop_segments {fuel : Nat} {st : InputState} {segs : List IKCPSEG}
    (h : ∀ seg ∈ segs, Acceptable st.kcp.conv seg) (hfuel : segs.length ≤ fuel) :
    inputLoop fuel st (segmentBytes segs) = (inputSegments st segs, none) := by
  induction segs generalizing fuel st with
  | nil => cases fuel <;> simp [inputLoop, ikcpOverhead]
  | cons seg segs ih =>
      cases fuel with
      | zero => simp at hfuel
      | succ fuel =>
          rw [segmentBytes_cons, inputLoop_cons (h seg (by simp)), inputSegments_cons]
          have hconv := conv_of_config (inputSegment_config st seg.header seg.data)
          exact ih (fun s hs => (h s (by simp [hs])).cast hconv) (by simpa using hfuel)

theorem length_le_segmentBytes (segs : List IKCPSEG) :
    ikcpOverhead * segs.length ≤ (segmentBytes segs).length := by
  induction segs with
  | nil => simp
  | cons seg segs ih =>
      simp only [segmentBytes_cons, List.length_append, IKCPSEG.bytes_length, List.length_cons,
        Nat.mul_succ]
      omega

/-- A datagram of acceptable segments is read to its end and answered with zero. -/
theorem ikcpInput_segments {kcp : IKCPCB} {segs : List IKCPSEG} (hne : segs ≠ [])
    (h : ∀ seg ∈ segs, Acceptable kcp.conv seg) :
    ikcpInput kcp (segmentBytes segs) =
      (inputTail (inputSegments { kcp := kcp } segs) kcp.sndUna, 0) := by
  have hlen := length_le_segmentBytes segs
  have hpos := List.length_pos_iff.mpr hne
  have hroom : ¬ (segmentBytes segs).length < ikcpOverhead := by
    unfold ikcpOverhead at *
    omega
  rw [ikcpInput, if_neg hroom, inputLoop_segments h (by unfold ikcpOverhead at hlen; omega)]

/-! ## Datagrams cut short -/

/-- A segment that is cut short ends the loop and leaves the block as it is. -/
theorem inputLoop_short (fuel : Nat) {st : InputState} {seg : IKCPSEG}
    (h : Acceptable st.kcp.conv seg) {n : Nat} (hn : n < seg.bytes.length) :
    ∃ code, inputLoop fuel st (seg.bytes.take n) = (st, code) := by
  rw [IKCPSEG.bytes_length] at hn
  cases fuel with
  | zero => exact ⟨none, rfl⟩
  | succ fuel =>
      unfold inputLoop
      by_cases hcut : (seg.bytes.take n).length < ikcpOverhead
      · exact ⟨none, if_pos hcut⟩
      · have hover : ikcpOverhead ≤ n := by
          rw [List.length_take] at hcut
          omega
        have hhead : (ikcpEncodeSeg seg).length = ikcpOverhead := ikcpEncodeSeg_length seg
        have hsplit : seg.bytes.take n = ikcpEncodeSeg seg ++ seg.data.take (n - ikcpOverhead) := by
          rw [IKCPSEG.bytes, List.take_append, hhead,
            List.take_of_length_le (Nat.le_trans (Nat.le_of_eq hhead) hover)]
        have hdec : decodeHeader (seg.bytes.take n) =
            (seg.header, seg.data.take (n - ikcpOverhead)) := by
          rw [hsplit]
          exact decodeHeader_encode seg _
        have hlen : seg.header.len.toNat = seg.data.length := h.toEncodable.len_toNat
        have hbody : (seg.data.take (n - ikcpOverhead)).length < seg.header.len.toNat ∨
            asI32 seg.header.len < 0 := by
          left
          rw [hlen, List.length_take]
          omega
        have hconv : ¬ seg.header.conv ≠ st.kcp.conv := not_not.mpr h.conv_eq
        rw [if_neg hcut]
        simp only [hdec]
        rw [if_neg hconv, if_pos hbody]
        exact ⟨some (-2), rfl⟩

/-- Of a datagram cut short the loop reads the segments that are still whole. -/
theorem inputLoop_take {fuel : Nat} {st : InputState} {segs : List IKCPSEG}
    (h : ∀ seg ∈ segs, Acceptable st.kcp.conv seg) (n : Nat) :
    ∃ whole code, whole <+: segs ∧
      inputLoop fuel st ((segmentBytes segs).take n) = (inputSegments st whole, code) := by
  induction segs generalizing fuel st n with
  | nil =>
      rw [segmentBytes_nil, List.take_nil]
      cases fuel with
      | zero => exact ⟨[], none, List.nil_prefix, rfl⟩
      | succ fuel => exact ⟨[], none, List.nil_prefix, by simp [inputLoop, ikcpOverhead]⟩
  | cons seg segs ih =>
      have hseg := h seg List.mem_cons_self
      rw [segmentBytes_cons, List.take_append]
      by_cases hn : n < seg.bytes.length
      · obtain ⟨code, hcode⟩ := inputLoop_short fuel hseg hn
        have hrest : n - seg.bytes.length = 0 := by omega
        rw [hrest, List.take_zero, List.append_nil]
        exact ⟨[], code, List.nil_prefix, hcode⟩
      · rw [List.take_of_length_le (Nat.le_of_not_lt hn)]
        cases fuel with
        | zero => exact ⟨[], none, List.nil_prefix, rfl⟩
        | succ fuel =>
            have hconv := conv_of_config (inputSegment_config st seg.header seg.data)
            obtain ⟨whole, code, hwhole, hloop⟩ := @ih fuel (inputSegment st seg.header seg.data)
              (fun s hs => (h s (List.mem_cons_of_mem _ hs)).cast hconv) (n - seg.bytes.length)
            refine ⟨seg :: whole, code, List.cons_prefix_cons.mpr ⟨rfl, hwhole⟩, ?_⟩
            rw [inputLoop_cons hseg, hloop, inputSegments_cons]

/-- A datagram cut short: nothing is read, or its first whole segments, with or without
what `ikcp_input` does after the loop. -/
theorem ikcpInput_take {kcp : IKCPCB} {segs : List IKCPSEG}
    (h : ∀ seg ∈ segs, Acceptable kcp.conv seg) (n : Nat) :
    ∃ whole, whole <+: segs ∧
      ((ikcpInput kcp ((segmentBytes segs).take n)).1 =
          (inputSegments { kcp := kcp } whole).kcp ∨
        (ikcpInput kcp ((segmentBytes segs).take n)).1 =
          inputTail (inputSegments { kcp := kcp } whole) kcp.sndUna) := by
  obtain ⟨whole, code, hwhole, hloop⟩ := @inputLoop_take
    ((segmentBytes segs).take n).length { kcp := kcp } segs h n
  unfold ikcpInput
  by_cases hcut : ((segmentBytes segs).take n).length < ikcpOverhead
  · rw [if_pos hcut]
    exact ⟨[], List.nil_prefix, Or.inl rfl⟩
  · rw [if_neg hcut, hloop]
    cases code with
    | none => exact ⟨whole, hwhole, Or.inr rfl⟩
    | some code => exact ⟨whole, hwhole, Or.inl rfl⟩

end UdpKcp.Ikcp
