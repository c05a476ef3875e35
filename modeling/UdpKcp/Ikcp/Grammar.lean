import UdpKcp.Ikcp.Rewrite

/-! # The grammar of a datagram

Every byte string is a sequence of whole segments followed by a rest that no
whole segment begins. `ikcp_input` follows this decomposition: the rest alone
decides the value returned, and the leading segments act as if each had come in
a datagram of its own, up to what the code after the loop writes.
-/

namespace UdpKcp.Ikcp

open ByteCodec

/-! ## Decoding, then encoding -/

theorem encode8u_decode {data : Bytes} (h : 1 ≤ data.length) :
    ikcpEncode8u (ikcpDecode8u data).1 ++ (ikcpDecode8u data).2 = data := by
  cases data with
  | nil => simp at h
  | cons c rest => rfl

theorem encode16u_decode {data : Bytes} (h : 2 ≤ data.length) :
    ikcpEncode16u (ikcpDecode16u data).1 ++ (ikcpDecode16u data).2 = data := by
  have hlen : (data.take 2).length = 2 := by simp [h]
  have hlt := decodeLE_lt (data.take 2)
  have hback := encodeLE_decodeLE (data.take 2)
  rw [hlen] at hlt hback
  unfold ikcpEncode16u ikcpDecode16u
  rw [UInt16.toNat_ofNat', Nat.mod_eq_of_lt (by simpa using hlt), hback, List.take_append_drop]

theorem encode32u_decode {data : Bytes} (h : 4 ≤ data.length) :
    ikcpEncode32u (ikcpDecode32u data).1 ++ (ikcpDecode32u data).2 = data := by
  have hlen : (data.take 4).length = 4 := by simp [h]
  have hlt := decodeLE_lt (data.take 4)
  have hback := encodeLE_decodeLE (data.take 4)
  rw [hlen] at hlt hback
  unfold ikcpEncode32u ikcpDecode32u
  rw [UInt32.toNat_ofNat', Nat.mod_eq_of_lt (by simpa using hlt), hback, List.take_append_drop]

/-- A header read off a datagram is written back as it was. -/
theorem encodeHeader_decodeHeader {data : Bytes} (h : ikcpOverhead ≤ data.length) :
    encodeHeader (decodeHeader data).1 ++ (decodeHeader data).2 = data := by
  unfold ikcpOverhead at h
  unfold decodeHeader encodeHeader
  simp (disch := (try simp only [decode8u_rest_length, decode16u_rest_length,
    decode32u_rest_length]); omega) only [List.append_assoc, encode8u_decode, encode16u_decode,
    encode32u_decode]

/-! ## Whole segments and what stops them -/

/-- A segment on the wire that a block with conversation id `conv` takes. -/
structure WholeSegment (conv : UInt32) (seg : SegHeader × Bytes) : Prop where
  conv_eq : seg.1.conv = conv
  cmd_valid : validCmd seg.1.cmd
  len_eq : seg.1.len.toNat = seg.2.length
  len_lt : seg.2.length < 2 ^ 31

/-- What ends the walk over a datagram: too few bytes for a header, or the first of
the three checks that a header fails. -/
inductive Stop where
  | trailing
  | conv
  | length
  | command
  deriving DecidableEq, Repr

def Stop.error : Stop → Option Int
  | .trailing => none
  | .conv => some (-1)
  | .length => some (-2)
  | .command => some (-3)

/-- The value of `ikcp_input` once it has entered the loop. -/
def Stop.code (stop : Stop) : Int := stop.error.getD 0

/-- The length field fits neither the bytes behind the header nor an `int`. -/
def BadLength (rest : Bytes) : Prop :=
  rest.length - ikcpOverhead < (decodeHeader rest).1.len.toNat ∨
    2 ^ 31 ≤ (decodeHeader rest).1.len.toNat

/-- `rest` ends the walk for this reason, and the checks before it pass. -/
def Stop.Ends (conv : UInt32) (rest : Bytes) : Stop → Prop
  | .trailing => rest.length < ikcpOverhead
  | .conv => ikcpOverhead ≤ rest.length ∧ (decodeHeader rest).1.conv ≠ conv
  | .length =>
      ikcpOverhead ≤ rest.length ∧ (decodeHeader rest).1.conv = conv ∧ BadLength rest
  | .command =>
      ikcpOverhead ≤ rest.length ∧ (decodeHeader rest).1.conv = conv ∧ ¬ BadLength rest ∧
        ¬ validCmd (decodeHeader rest).1.cmd

/-- `data` is the whole segments `segs`, then `rest`, which ends the walk. -/
structure Parsed (conv : UInt32) (data : Bytes) (segs : List (SegHeader × Bytes)) (rest : Bytes)
    (stop : Stop) : Prop where
  bytes : data = wireBytes segs ++ rest
  whole : ∀ seg ∈ segs, WholeSegment conv seg
  ends : stop.Ends conv rest

/-! ## Every datagram has one decomposition -/

theorem Parsed.nil {conv : UInt32} {rest : Bytes} {stop : Stop} (h : stop.Ends conv rest) :
    Parsed conv rest [] rest stop :=
  ⟨rfl, List.forall_mem_nil _, h⟩

theorem Parsed.cons {conv : UInt32} {seg : SegHeader × Bytes} {data : Bytes}
    {segs : List (SegHeader × Bytes)} {rest : Bytes} {stop : Stop} (hseg : WholeSegment conv seg)
    (h : Parsed conv data segs rest stop) :
    Parsed conv (encodeHeader seg.1 ++ (seg.2 ++ data)) (seg :: segs) rest stop where
  bytes := by simp [h.bytes]
  whole := List.forall_mem_cons.mpr ⟨hseg, h.whole⟩
  ends := h.ends

/-- Either a whole segment begins `data`, or `data` ends the walk. -/
theorem head_or_ends (conv : UInt32) (data : Bytes) :
    (∃ seg tail, WholeSegment conv seg ∧ data = encodeHeader seg.1 ++ (seg.2 ++ tail)) ∨
      ∃ stop : Stop, stop.Ends conv data := by
  by_cases hshort : data.length < ikcpOverhead
  · exact Or.inr ⟨.trailing, hshort⟩
  · have hroom : ikcpOverhead ≤ data.length := Nat.not_lt.mp hshort
    by_cases hconv : (decodeHeader data).1.conv = conv
    · by_cases hbad : BadLength data
      · exact Or.inr ⟨.length, hroom, hconv, hbad⟩
      · by_cases hcmd : validCmd (decodeHeader data).1.cmd
        · left
          have hsplit := encodeHeader_decodeHeader hroom
          unfold BadLength at hbad
          generalize hh : (decodeHeader data).1 = h at *
          generalize hb : (decodeHeader data).2 = body at *
          have hbody : body.length = data.length - ikcpOverhead := by
            rw [← hb, decodeHeader_body, List.length_drop]
          have htake : (body.take h.len.toNat).length = h.len.toNat := by
            rw [List.length_take]
            omega
          refine ⟨(h, body.take h.len.toNat), body.drop h.len.toNat, ⟨hconv, hcmd, ?_, ?_⟩, ?_⟩
          · exact htake.symm
          · dsimp only
            omega
          · dsimp only
            rw [List.take_append_drop, hsplit]
        · exact Or.inr ⟨.command, hroom, hconv, hbad, hcmd⟩
    · exact Or.inr ⟨.conv, hroom, hconv⟩

theorem exists_parsed (conv : UInt32) (data : Bytes) :
    ∃ segs rest stop, Parsed conv data segs rest stop := by
  induction hn : data.length using Nat.strong_induction_on generalizing data with
  | _ n ih =>
      rcases head_or_ends conv data with ⟨seg, tail, hseg, hdata⟩ | ⟨stop, hends⟩
      · have hshorter : tail.length < n := by
          rw [← hn, hdata]
          simp [ikcpOverhead]
          omega
        obtain ⟨segs, rest, stop, hparsed⟩ := ih tail.length hshorter tail rfl
        exact ⟨seg :: segs, rest, stop, hdata ▸ hparsed.cons hseg⟩
      · exact ⟨[], data, stop, Parsed.nil hends⟩

/-- A whole segment at the front fails none of the checks. -/
theorem WholeSegment.not_ends {conv : UInt32} {seg : SegHeader × Bytes}
    (h : WholeSegment conv seg) (tail : Bytes) (stop : Stop) :
    ¬ stop.Ends conv (encodeHeader seg.1 ++ (seg.2 ++ tail)) := by
  have hlt := h.len_lt
  have heq := h.len_eq
  have hgood : ¬ BadLength (encodeHeader seg.1 ++ (seg.2 ++ tail)) := by
    unfold BadLength
    simp only [decodeHeader_encodeHeader, List.length_append, encodeHeader_length]
    omega
  intro hends
  cases stop with
  | trailing =>
      simp only [Stop.Ends, List.length_append, encodeHeader_length] at hends
      omega
  | conv => exact hends.2 (by simp [h.conv_eq])
  | length => exact hgood hends.2.2
  | command => exact hends.2.2.2 (by simp [h.cmd_valid])

theorem Stop.Ends.unique {conv : UInt32} {rest : Bytes} {stop stop' : Stop}
    (h : stop.Ends conv rest) (h' : stop'.Ends conv rest) : stop = stop' := by
  cases stop <;> cases stop' <;> simp only [Stop.Ends] at h h' <;> grind

/-- Equal bytes behind equal headers. -/
theorem WholeSegment.split {conv : UInt32} {seg seg' : SegHeader × Bytes} {tail tail' : Bytes}
    (h : WholeSegment conv seg) (h' : WholeSegment conv seg')
    (heq : encodeHeader seg.1 ++ (seg.2 ++ tail) = encodeHeader seg'.1 ++ (seg'.2 ++ tail')) :
    seg = seg' ∧ tail = tail' := by
  obtain ⟨hd, payload⟩ := seg
  obtain ⟨hd', payload'⟩ := seg'
  have hdecoded := congrArg decodeHeader heq
  simp only [decodeHeader_encodeHeader, Prod.mk.injEq] at hdecoded
  obtain ⟨rfl, hbody⟩ := hdecoded
  have hlen : payload.length = payload'.length := h.len_eq.symm.trans h'.len_eq
  obtain ⟨rfl, rfl⟩ := List.append_inj hbody hlen
  exact ⟨rfl, rfl⟩

theorem Parsed.unique {conv : UInt32} {data : Bytes} {segs segs' : List (SegHeader × Bytes)}
    {rest rest' : Bytes} {stop stop' : Stop} (h : Parsed conv data segs rest stop)
    (h' : Parsed conv data segs' rest' stop') : segs' = segs ∧ rest' = rest ∧ stop' = stop := by
  induction segs generalizing data segs' with
  | nil =>
      have hdata : data = rest := h.bytes
      cases segs' with
      | nil =>
          have hrest : rest' = rest := h'.bytes.symm.trans hdata
          have hends' := h'.ends
          rw [hrest] at hends'
          exact ⟨rfl, hrest, hends'.unique h.ends⟩
      | cons seg' segs' =>
          have hdata' := h'.bytes
          rw [wireBytes_cons, List.append_assoc, List.append_assoc] at hdata'
          have hends := h.ends
          rw [← hdata, hdata'] at hends
          exact absurd hends ((h'.whole seg' List.mem_cons_self).not_ends _ _)
  | cons seg segs ih =>
      have hdata := h.bytes
      rw [wireBytes_cons, List.append_assoc, List.append_assoc] at hdata
      cases segs' with
      | nil =>
          have hdata' : data = rest' := h'.bytes
          have hends' := h'.ends
          rw [← hdata', hdata] at hends'
          exact absurd hends' ((h.whole seg List.mem_cons_self).not_ends _ _)
      | cons seg' segs' =>
          have hdata' := h'.bytes
          rw [wireBytes_cons, List.append_assoc, List.append_assoc] at hdata'
          obtain ⟨rfl, htail⟩ := (h.whole seg List.mem_cons_self).split
            (h'.whole seg' List.mem_cons_self) (hdata.symm.trans hdata')
          obtain ⟨rfl, hrest, hstop⟩ := ih
            ⟨rfl, fun s hs => h.whole s (List.mem_cons_of_mem _ hs), h.ends⟩
            ⟨htail, fun s hs => h'.whole s (List.mem_cons_of_mem _ hs), h'.ends⟩
          exact ⟨rfl, hrest, hstop⟩

/-! ## The loop follows the decomposition -/

theorem asI32_neg_iff (x : UInt32) : asI32 x < 0 ↔ 2 ^ 31 ≤ x.toNat := by
  by_cases hlt : x.toNat < 2 ^ 31
  · rw [asI32_of_lt hlt]
    omega
  · have hx := x.toNat_lt
    have hneg : asI32 x = x.toNat - 2 ^ 32 := by
      unfold asI32
      rw [BitVec.toInt_eq_toNat_cond, if_neg]
      · rfl
      · change ¬ 2 * x.toNat < 2 ^ 32
        omega
    omega

theorem WholeSegment.acceptable {conv : UInt32} {seg : SegHeader × Bytes}
    (h : WholeSegment conv seg) : Acceptable conv (receivedSegment seg.1 seg.2) where
  cmd_lt := seg.1.cmd.toNat_lt
  frg_lt := seg.1.frg.toNat_lt
  wnd_lt := seg.1.wnd.toNat_lt
  len_lt := h.len_lt
  conv_eq := h.conv_eq
  cmd_valid := by
    have hcmd := h.cmd_valid
    simpa [receivedSegment] using hcmd

theorem WholeSegment.header_eq {conv : UInt32} {seg : SegHeader × Bytes}
    (h : WholeSegment conv seg) : (receivedSegment seg.1 seg.2).header = seg.1 := by
  have hlen : UInt32.ofNat seg.2.length = seg.1.len := by
    rw [← h.len_eq, UInt32.ofNat_toNat]
  simp [IKCPSEG.header, receivedSegment, IKCPSEG.len, hlen]

/-- The loop state after the segments of a list. -/
def inputWire (st : InputState) (segs : List (SegHeader × Bytes)) : InputState :=
  segs.foldl (fun st seg => inputSegment st seg.1 seg.2) st

/-- One whole segment at the front of the rest of the datagram. -/
theorem inputLoop_whole {fuel : Nat} {st : InputState} {seg : SegHeader × Bytes}
    (h : WholeSegment st.kcp.conv seg) (tail : Bytes) :
    inputLoop (fuel + 1) st (encodeHeader seg.1 ++ (seg.2 ++ tail)) =
      inputLoop fuel (inputSegment st seg.1 seg.2) tail := by
  have hround := @inputLoop_cons fuel st _ h.acceptable tail
  have hbytes : (receivedSegment seg.1 seg.2).bytes = encodeHeader seg.1 ++ seg.2 := by
    change encodeHeader (receivedSegment seg.1 seg.2).header ++ seg.2 = _
    rw [h.header_eq]
  rw [h.header_eq, hbytes, List.append_assoc] at hround
  exact hround

/-- A rest that ends the walk ends the loop, for the same reason. -/
theorem inputLoop_ends {fuel : Nat} {st : InputState} {rest : Bytes} {stop : Stop}
    (h : stop.Ends st.kcp.conv rest) (hfuel : rest.length ≤ fuel) :
    inputLoop fuel st rest = (st, stop.error) := by
  have hbad : ((decodeHeader rest).2.length < (decodeHeader rest).1.len.toNat ∨
      asI32 (decodeHeader rest).1.len < 0) ↔ BadLength rest := by
    rw [asI32_neg_iff, decodeHeader_body, List.length_drop]
    rfl
  cases fuel with
  | zero =>
      cases stop with
      | trailing => rfl
      | conv => exact absurd (Nat.le_trans h.1 hfuel) (by decide)
      | length => exact absurd (Nat.le_trans h.1 hfuel) (by decide)
      | command => exact absurd (Nat.le_trans h.1 hfuel) (by decide)
  | succ fuel =>
      rw [inputLoop]
      dsimp only
      cases stop with
      | trailing => exact if_pos h
      | conv => rw [if_neg (Nat.not_lt.mpr h.1), if_pos h.2, Stop.error]
      | length =>
          rw [if_neg (Nat.not_lt.mpr h.1), if_neg (not_not.mpr h.2.1), if_pos (hbad.mpr h.2.2),
            Stop.error]
      | command =>
          rw [if_neg (Nat.not_lt.mpr h.1), if_neg (not_not.mpr h.2.1),
            if_neg (mt hbad.mp h.2.2.1), if_pos h.2.2.2, Stop.error]

theorem inputLoop_parsed {fuel : Nat} {st : InputState} {data : Bytes}
    {segs : List (SegHeader × Bytes)} {rest : Bytes} {stop : Stop}
    (h : Parsed st.kcp.conv data segs rest stop) (hfuel : data.length ≤ fuel) :
    inputLoop fuel st data = (inputWire st segs, stop.error) := by
  induction segs generalizing fuel st data with
  | nil =>
      have hdata : data = rest := h.bytes
      rw [hdata] at hfuel ⊢
      exact inputLoop_ends h.ends hfuel
  | cons seg segs ih =>
      have hdata := h.bytes
      rw [wireBytes_cons, List.append_assoc, List.append_assoc] at hdata
      have hlen : (wireBytes segs ++ rest).length + ikcpOverhead ≤ data.length := by
        rw [hdata]
        simp only [List.length_append, encodeHeader_length]
        omega
      cases fuel with
      | zero =>
          unfold ikcpOverhead at hlen
          omega
      | succ fuel =>
          have hconv := conv_of_config (inputSegment_config st seg.1 seg.2)
          have hrest : Parsed (inputSegment st seg.1 seg.2).kcp.conv (wireBytes segs ++ rest)
              segs rest stop := by
            rw [hconv]
            exact ⟨rfl, fun s hs => h.whole s (List.mem_cons_of_mem _ hs), h.ends⟩
          unfold ikcpOverhead at hlen
          rw [hdata, inputLoop_whole (h.whole seg List.mem_cons_self), ih hrest (by omega)]
          rfl

/-! ## Segments one per datagram -/

def IKCPSEG.unskipped (seg : IKCPSEG) : IKCPSEG := { seg with fastack := 0 }

/-- The block without what `ikcp_input` writes after its loop: the fast-ack counters of
`snd_buf` and the congestion window. -/
def IKCPCB.looped (kcp : IKCPCB) : IKCPCB :=
  { kcp with sndBuf := kcp.sndBuf.map IKCPSEG.unskipped, cwnd := 0, incr := 0 }

theorem removeAcked_unskipped (sn : UInt32) (segs : List IKCPSEG) :
    removeAcked sn (segs.map IKCPSEG.unskipped) = (removeAcked sn segs).map IKCPSEG.unskipped := by
  induction segs with
  | nil => rfl
  | cons seg next ih =>
      have hsn : seg.unskipped.sn = seg.sn := rfl
      simp only [List.map_cons, removeAcked, hsn, ih]
      split_ifs <;> rfl

theorem dropUnacked_unskipped (una : UInt32) (segs : List IKCPSEG) :
    dropUnacked una (segs.map IKCPSEG.unskipped) =
      (dropUnacked una segs).map IKCPSEG.unskipped := by
  induction segs with
  | nil => rfl
  | cons seg next ih =>
      have hsn : seg.unskipped.sn = seg.sn := rfl
      simp only [List.map_cons, dropUnacked, hsn, ih]
      split_ifs <;> rfl

theorem countFastack_unskipped (sn : UInt32) (segs : List IKCPSEG) :
    (countFastack sn segs).map IKCPSEG.unskipped = segs.map IKCPSEG.unskipped := by
  induction segs with
  | nil => rfl
  | cons seg next ih =>
      unfold countFastack
      split_ifs
      · rfl
      · rw [List.map_cons, List.map_cons, ih]
        rfl
      · rw [List.map_cons, List.map_cons, ih]

theorem shrinkBuf_looped (kcp : IKCPCB) :
    ikcpShrinkBuf kcp.looped = (ikcpShrinkBuf kcp).looped := by
  unfold ikcpShrinkBuf IKCPCB.looped
  cases kcp.sndBuf <;> rfl

theorem parseUna_looped (kcp : IKCPCB) (una : UInt32) :
    ikcpParseUna kcp.looped una = (ikcpParseUna kcp una).looped := by
  unfold ikcpParseUna IKCPCB.looped
  simp only [dropUnacked_unskipped, List.length_map]

theorem parseAck_looped (kcp : IKCPCB) (sn : UInt32) :
    ikcpParseAck kcp.looped sn = (ikcpParseAck kcp sn).looped := by
  unfold ikcpParseAck IKCPCB.looped
  dsimp only
  split
  · rfl
  · simp only [removeAcked_unskipped, List.length_map]

theorem updateAck_looped (kcp : IKCPCB) (rtt : Int) :
    ikcpUpdateAck kcp.looped rtt = (ikcpUpdateAck kcp rtt).looped := by
  unfold ikcpUpdateAck IKCPCB.looped
  dsimp only
  split <;> rfl

/-- What an acknowledgement does to the block: the flag and the largest number do not enter. -/
def ackBlock (kcp : IKCPCB) (h : SegHeader) : IKCPCB :=
  let rtt := itimediff kcp.current h.ts
  ikcpShrinkBuf (ikcpParseAck (if rtt ≥ 0 then ikcpUpdateAck kcp rtt else kcp) h.sn)

theorem inputAck_kcp (st : InputState) (h : SegHeader) :
    (inputAck st h).kcp = ackBlock st.kcp h := by
  unfold inputAck
  dsimp only
  split <;> rfl

theorem ackBlock_looped (kcp : IKCPCB) (h : SegHeader) :
    ackBlock kcp.looped h = (ackBlock kcp h).looped := by
  unfold ackBlock
  dsimp only
  rw [← shrinkBuf_looped, ← parseAck_looped]
  split
  · rw [if_pos (by assumption), updateAck_looped]
    rfl
  · rw [if_neg (by assumption)]

theorem inputPush_looped (kcp : IKCPCB) (h : SegHeader) (payload : Bytes) :
    inputPush kcp.looped h payload = (inputPush kcp h payload).looped := by
  have hack : ikcpAckPush kcp.looped h.sn h.ts = (ikcpAckPush kcp h.sn h.ts).looped := rfl
  have hparse : ∀ kcp : IKCPCB, ikcpParseData kcp.looped (receivedSegment h payload) =
      (ikcpParseData kcp (receivedSegment h payload)).looped := by
    intro kcp
    have hbuf : kcp.looped.rcvBuf = kcp.rcvBuf := rfl
    unfold ikcpParseData
    rw [hbuf]
    split
    · rw [if_pos (by assumption)]
    · rw [if_neg (by assumption)]
      cases insertFromTail (receivedSegment h payload) kcp.rcvBuf.reverse <;> rfl
  have hwnd : kcp.looped.rcvNxt + kcp.looped.rcvWnd = kcp.rcvNxt + kcp.rcvWnd := rfl
  have hnxt : (ikcpAckPush kcp h.sn h.ts).looped.rcvNxt = (ikcpAckPush kcp h.sn h.ts).rcvNxt := rfl
  unfold inputPush
  dsimp only
  rw [hack, hparse, hwnd, hnxt]
  split
  · split
    · rfl
    · rfl
  · rfl

/-- What a segment does to the block. -/
def segmentBlock (kcp : IKCPCB) (h : SegHeader) (payload : Bytes) : IKCPCB :=
  (inputSegment { kcp := kcp } h payload).kcp

/-- The locals of the loop do not enter. -/
theorem inputSegment_kcp (st : InputState) (h : SegHeader) (payload : Bytes) :
    (inputSegment st h payload).kcp = segmentBlock st.kcp h payload := by
  unfold segmentBlock inputSegment
  dsimp only
  split_ifs
  · rw [inputAck_kcp, inputAck_kcp]
  · rfl
  · rfl
  · rfl

theorem segmentBlock_looped (kcp : IKCPCB) (h : SegHeader) (payload : Bytes) :
    segmentBlock kcp.looped h payload = (segmentBlock kcp h payload).looped := by
  have hcommon : inputCommon kcp.looped h = (inputCommon kcp h).looped := by
    unfold inputCommon
    rw [← shrinkBuf_looped, ← parseUna_looped]
    rfl
  unfold segmentBlock inputSegment
  dsimp only
  rw [hcommon]
  split_ifs
  · rw [inputAck_kcp, inputAck_kcp]
    exact ackBlock_looped _ h
  · exact inputPush_looped _ h payload
  · rfl
  · rfl

theorem inputTail_looped (st : InputState) (prevUna : UInt32) :
    (inputTail st prevUna).looped = st.kcp.looped := by
  have hfast : ∀ kcp : IKCPCB,
      (ikcpParseFastack kcp st.maxack st.latestTs).looped = kcp.looped := by
    intro kcp
    unfold ikcpParseFastack
    split
    · rfl
    · unfold IKCPCB.looped
      dsimp only
      rw [countFastack_unskipped]
  unfold inputTail
  rw [inputCwnd_eq]
  split
  · exact hfast st.kcp
  · rfl

/-- A datagram of the bytes of one segment, given to `ikcp_input`. -/
def inputAlone (kcp : IKCPCB) (seg : SegHeader × Bytes) : IKCPCB :=
  (ikcpInput kcp (encodeHeader seg.1 ++ seg.2)).1

theorem inputAlone_looped {kcp : IKCPCB} {seg : SegHeader × Bytes}
    (h : WholeSegment kcp.conv seg) :
    (inputAlone kcp seg).looped = (segmentBlock kcp seg.1 seg.2).looped := by
  have hshort : Stop.Ends kcp.conv [] .trailing := show 0 < 24 by decide
  have hparsed : Parsed kcp.conv (encodeHeader seg.1 ++ (seg.2 ++ [])) [seg] [] .trailing :=
    (Parsed.nil hshort).cons h
  have hroom : ¬ (encodeHeader seg.1 ++ seg.2).length < ikcpOverhead := by
    simp
  rw [List.append_nil] at hparsed
  unfold inputAlone ikcpInput
  rw [if_neg hroom, @inputLoop_parsed _ { kcp := kcp } _ _ _ _ hparsed (Nat.le_refl _)]
  exact inputTail_looped _ kcp.sndUna

/-- Batch and one by one agree before the tail. -/
theorem inputWire_looped {conv : UInt32} {st : InputState} {kcp : IKCPCB}
    {segs : List (SegHeader × Bytes)} (hlooped : st.kcp.looped = kcp.looped)
    (hconv : kcp.conv = conv) (h : ∀ seg ∈ segs, WholeSegment conv seg) :
    (inputWire st segs).kcp.looped = (segs.foldl inputAlone kcp).looped := by
  induction segs generalizing st kcp with
  | nil => exact hlooped
  | cons seg segs ih =>
      have hseg : WholeSegment kcp.conv seg := hconv ▸ h seg List.mem_cons_self
      refine ih ?_ ?_ (fun s hs => h s (List.mem_cons_of_mem _ hs))
      · rw [inputSegment_kcp, inputAlone_looped hseg, ← segmentBlock_looped,
          ← segmentBlock_looped, hlooped]
      · exact (conv_of_config (ikcpInput_config kcp _)).trans hconv

end UdpKcp.Ikcp
