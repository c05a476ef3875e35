import UdpKcp.Ikcp.Grammar

/-! # The pointer of `ikcp_input`

In the source `data` is a pointer that moves over the datagram and `size` counts
what is left behind it. Here every byte is read through that pointer and checked
against the datagram, so that a read outside has no result at all. The list
suffixes of the other modules are views of the pointer.
-/

namespace UdpKcp.Ikcp

open ByteCodec

/-! ## Checked reads -/

/-- `n` bytes of the datagram at the pointer; `none` when one of them lies outside. -/
def readAt (datagram : Bytes) (data n : Nat) : Option Bytes :=
  if data + n ≤ datagram.length then some ((datagram.drop data).take n) else none

def read8u (datagram : Bytes) (data : Nat) : Option (UInt8 × Nat) :=
  (readAt datagram data 1).map fun p => (p.headD 0, data + 1)

def read16u (datagram : Bytes) (data : Nat) : Option (UInt16 × Nat) :=
  (readAt datagram data 2).map fun p => (UInt16.ofNat (decodeLE p), data + 2)

def read32u (datagram : Bytes) (data : Nat) : Option (UInt32 × Nat) :=
  (readAt datagram data 4).map fun p => (UInt32.ofNat (decodeLE p), data + 4)

/-- The header fields behind `conv`. -/
def readFields (datagram : Bytes) (conv : UInt32) (data : Nat) : Option (SegHeader × Nat) := do
  let (cmd, data) ← read8u datagram data
  let (frg, data) ← read8u datagram data
  let (wnd, data) ← read16u datagram data
  let (ts, data) ← read32u datagram data
  let (sn, data) ← read32u datagram data
  let (una, data) ← read32u datagram data
  let (len, data) ← read32u datagram data
  some (⟨conv, cmd, frg, wnd, ts, sn, una, len⟩, data)

/-- The segments whose payload is copied: data inside the window, and not empty. -/
def CopiesPayload (kcp : IKCPCB) (h : SegHeader) : Prop :=
  h.cmd.toUInt32 = ikcpCmdPush ∧ itimediff h.sn (kcp.rcvNxt + kcp.rcvWnd) < 0 ∧
    itimediff h.sn kcp.rcvNxt ≥ 0 ∧ h.len > 0

instance (kcp : IKCPCB) (h : SegHeader) : Decidable (CopiesPayload kcp h) := by
  unfold CopiesPayload
  infer_instance

/-! ## The loop through the pointer -/

def pointerLoop (datagram : Bytes) : Nat → InputState → Nat → Int →
    Option (InputState × Option Int)
  | 0, st, _, _ => some (st, none)
  | fuel + 1, st, data, size =>
      if size < ikcpOverhead then some (st, none)
      else
        (read32u datagram data).bind fun (conv, data) =>
          if conv ≠ st.kcp.conv then some (st, some (-1))
          else
            (readFields datagram conv data).bind fun (h, data) =>
              let size := size - ikcpOverhead
              if size < h.len.toNat ∨ asI32 h.len < 0 then some (st, some (-2))
              else if ¬ validCmd h.cmd then some (st, some (-3))
              else
                (if CopiesPayload st.kcp h then readAt datagram data h.len.toNat
                  else some []).bind fun payload =>
                  pointerLoop datagram fuel (inputSegment st h payload) (data + h.len.toNat)
                    (size - h.len.toNat)

/-- `ikcp_input` with every read checked. -/
def pointerInput (kcp : IKCPCB) (datagram : Bytes) : Option (IKCPCB × Int) :=
  if (datagram.length : Int) < ikcpOverhead then some (kcp, -1)
  else
    (pointerLoop datagram datagram.length { kcp := kcp } 0 datagram.length).map fun
      | (st, none) => (inputTail st kcp.sndUna, 0)
      | (st, some code) => (st.kcp, code)

/-! ## Reads inside the datagram -/

section Reads

variable {datagram : Bytes} {data : Nat}

theorem readAt_eq {n : Nat} (h : data + n ≤ datagram.length) :
    readAt datagram data n = some ((datagram.drop data).take n) := if_pos h

theorem read8u_eq (h : data + 1 ≤ datagram.length) :
    read8u datagram data = some ((ikcpDecode8u (datagram.drop data)).1, data + 1) := by
  unfold read8u ikcpDecode8u
  rw [readAt_eq h]
  cases datagram.drop data <;> rfl

theorem read16u_eq (h : data + 2 ≤ datagram.length) :
    read16u datagram data = some ((ikcpDecode16u (datagram.drop data)).1, data + 2) := by
  unfold read16u ikcpDecode16u
  rw [readAt_eq h]
  rfl

theorem read32u_eq (h : data + 4 ≤ datagram.length) :
    read32u datagram data = some ((ikcpDecode32u (datagram.drop data)).1, data + 4) := by
  unfold read32u ikcpDecode32u
  rw [readAt_eq h]
  rfl

theorem readFields_eq (h : data + ikcpOverhead ≤ datagram.length) :
    readFields datagram (decodeHeader (datagram.drop data)).1.conv (data + 4) =
      some ((decodeHeader (datagram.drop data)).1, data + ikcpOverhead) := by
  unfold ikcpOverhead at h
  unfold readFields
  simp (disch := omega) only [read8u_eq, read16u_eq, read32u_eq, Option.bind_eq_bind,
    Option.bind_some]
  simp [decodeHeader, ikcpDecode8u, ikcpDecode16u, ikcpDecode32u, ikcpOverhead, Nat.add_assoc]

end Reads

/-- A payload that is not copied is not looked at. -/
theorem inputSegment_uncopied {st : InputState} {h : SegHeader} (hcopy : ¬ CopiesPayload st.kcp h)
    (body : Bytes) : inputSegment st h [] = inputSegment st h (body.take h.len.toNat) := by
  by_cases hlen : h.len > 0
  · have hpush : h.cmd.toUInt32 = ikcpCmdPush →
        inputPush (inputCommon st.kcp h) h [] =
          inputPush (inputCommon st.kcp h) h (body.take h.len.toNat) := by
      intro hcmd
      have hnxt : (inputCommon st.kcp h).rcvNxt = st.kcp.rcvNxt := rfl
      have hwnd : (inputCommon st.kcp h).rcvWnd = st.kcp.rcvWnd := rfl
      have hack : ∀ kcp : IKCPCB, (ikcpAckPush kcp h.sn h.ts).rcvNxt = kcp.rcvNxt := fun _ => rfl
      unfold inputPush
      dsimp only
      rw [hack, hnxt, hwnd]
      split
      · rename_i hright
        split
        · rename_i hleft
          exact absurd ⟨hcmd, hright, hleft, hlen⟩ hcopy
        · rfl
      · rfl
    unfold inputSegment
    dsimp only
    split
    · rfl
    · split
      · rename_i hcmd
        rw [hpush hcmd]
      · rfl
  · have hzero : h.len.toNat = 0 := by
      have hle := UInt32.le_iff_toNat_le.mp (UInt32.not_lt.mp hlen)
      simpa using hle
    rw [hzero, List.take_zero]

/-! ## No read lies outside -/

/-- The loop through the pointer has a result, which is that of the loop on the suffix. -/
theorem pointerLoop_eq (datagram : Bytes) (fuel : Nat) (st : InputState) {data : Nat}
    (h : data ≤ datagram.length) :
    pointerLoop datagram fuel st data (datagram.length - data : Nat) =
      some (inputLoop fuel st (datagram.drop data)) := by
  induction fuel generalizing st data with
  | zero => rfl
  | succ fuel ih =>
      rw [pointerLoop, inputLoop, List.length_drop]
      by_cases hshort : datagram.length - data < ikcpOverhead
      · rw [if_pos (by omega), if_pos hshort]
      · have hroom : data + ikcpOverhead ≤ datagram.length := by omega
        have hconv : (ikcpDecode32u (datagram.drop data)).1 =
            (decodeHeader (datagram.drop data)).1.conv := rfl
        have hbody : (decodeHeader (datagram.drop data)).2 =
            datagram.drop (data + ikcpOverhead) := by
          rw [decodeHeader_body, List.drop_drop]
        rw [if_neg (by omega), if_neg hshort,
          read32u_eq (by unfold ikcpOverhead at hroom; omega), hconv, hbody]
        simp only [Option.bind_some]
        rw [readFields_eq hroom]
        simp only [Option.bind_some]
        generalize (decodeHeader (datagram.drop data)).1 = hd
        split
        · rfl
        · have hleft : (datagram.drop (data + ikcpOverhead)).length =
              datagram.length - data - ikcpOverhead := by
            rw [List.length_drop]
            omega
          rw [hleft]
          by_cases hbad : datagram.length - data - ikcpOverhead < hd.len.toNat ∨ asI32 hd.len < 0
          · rw [if_pos (by omega), if_pos hbad]
          · rw [if_neg (by omega), if_neg hbad]
            split
            · rfl
            · have hnext : data + ikcpOverhead + hd.len.toNat ≤ datagram.length := by omega
              have hsize : ((datagram.length - data : Nat) : Int) - ikcpOverhead - hd.len.toNat =
                  (datagram.length - (data + ikcpOverhead + hd.len.toNat) : Nat) := by omega
              rw [List.drop_drop]
              split
              · rw [readAt_eq hnext, Option.bind_some, hsize, ih _ hnext]
              · rename_i hcopy
                rw [Option.bind_some, hsize, ih _ hnext, inputSegment_uncopied hcopy]

/-- Every byte that `ikcp_input` reads is a byte of the datagram. -/
theorem pointerInput_eq (kcp : IKCPCB) (datagram : Bytes) :
    pointerInput kcp datagram = some (ikcpInput kcp datagram) := by
  have hloop := pointerLoop_eq datagram datagram.length { kcp := kcp } (Nat.zero_le _)
  rw [Nat.sub_zero, List.drop_zero] at hloop
  unfold pointerInput ikcpInput
  by_cases hshort : datagram.length < ikcpOverhead
  · rw [if_pos (by omega), if_pos hshort]
  · rw [if_neg (by omega), if_neg hshort, hloop]
    cases inputLoop datagram.length { kcp := kcp } datagram with
    | mk st code => cases code <;> rfl

/-! ## A whole call -/

theorem ikcpInput_parsed {kcp : IKCPCB} {data : Bytes} {segs : List (SegHeader × Bytes)}
    {rest : Bytes} {stop : Stop} (h : Parsed kcp.conv data segs rest stop)
    (hroom : ikcpOverhead ≤ data.length) :
    (ikcpInput kcp data).2 = stop.code ∧
      (ikcpInput kcp data).1.looped = (segs.foldl inputAlone kcp).looped := by
  have hsegs := @inputWire_looped kcp.conv { kcp := kcp } kcp segs rfl rfl h.whole
  unfold ikcpInput
  rw [if_neg (Nat.not_lt.mpr hroom),
    @inputLoop_parsed _ { kcp := kcp } _ _ _ _ h (Nat.le_refl _)]
  cases stop with
  | trailing => exact ⟨rfl, (inputTail_looped _ kcp.sndUna).trans hsegs⟩
  | conv => exact ⟨rfl, hsegs⟩
  | length => exact ⟨rfl, hsegs⟩
  | command => exact ⟨rfl, hsegs⟩

theorem Stop.code_eq_zero {stop : Stop} : stop.code = 0 ↔ stop = .trailing := by
  cases stop <;> decide

/-- A string without room for a header has no segment in it. -/
theorem Parsed.short {conv : UInt32} {data : Bytes} {segs : List (SegHeader × Bytes)}
    {rest : Bytes} {stop : Stop} (h : Parsed conv data segs rest stop)
    (hshort : data.length < ikcpOverhead) : segs = [] := by
  cases segs with
  | nil => rfl
  | cons seg segs =>
      rw [h.bytes, wireBytes_cons] at hshort
      simp only [List.length_append, encodeHeader_length] at hshort
      omega

/-- A string of one or more whole segments and fewer than 24 trailing bytes. -/
def Datagram (conv : UInt32) (data : Bytes) : Prop :=
  ∃ segs tail, segs ≠ [] ∧ (∀ seg ∈ segs, WholeSegment conv seg) ∧
    tail.length < ikcpOverhead ∧ data = wireBytes segs ++ tail

theorem Parsed.datagram_iff {conv : UInt32} {data : Bytes} {segs : List (SegHeader × Bytes)}
    {rest : Bytes} {stop : Stop} (h : Parsed conv data segs rest stop)
    (hroom : ikcpOverhead ≤ data.length) : Datagram conv data ↔ stop = .trailing := by
  constructor
  · rintro ⟨segs', tail, -, hwhole, htail, hdata⟩
    have htrailing : Parsed conv data segs' tail .trailing := ⟨hdata, hwhole, htail⟩
    exact (htrailing.unique h).2.2
  · rintro rfl
    refine ⟨segs, rest, ?_, h.whole, h.ends, h.bytes⟩
    rintro rfl
    have hdata : data = rest := h.bytes
    have hends : rest.length < ikcpOverhead := h.ends
    rw [hdata] at hroom
    omega

/-- Every byte string has one decomposition into whole leading segments and a rest
that ends the walk. `ikcp_input` returns -1 on fewer than 24 bytes and otherwise what
the rest says, zero exactly on whole datagrams; it leaves the block as the leading
segments one per datagram would, the fast-ack counters and the congestion window
apart; and it reads no byte outside the string. -/
theorem ikcpInput_grammar (kcp : IKCPCB) (data : Bytes) :
    ∃ segs rest stop, Parsed kcp.conv data segs rest stop ∧
      (∀ segs' rest' stop', Parsed kcp.conv data segs' rest' stop' →
        segs' = segs ∧ rest' = rest ∧ stop' = stop) ∧
      (ikcpInput kcp data).2 = (if data.length < ikcpOverhead then -1 else stop.code) ∧
      ((ikcpInput kcp data).2 = 0 ↔ ikcpOverhead ≤ data.length ∧ Datagram kcp.conv data) ∧
      (ikcpInput kcp data).1.looped = (segs.foldl inputAlone kcp).looped ∧
      pointerInput kcp data = some (ikcpInput kcp data) := by
  obtain ⟨segs, rest, stop, hparsed⟩ := exists_parsed kcp.conv data
  have hunique := fun segs' rest' stop' (h' : Parsed kcp.conv data segs' rest' stop') =>
    hparsed.unique h'
  refine ⟨segs, rest, stop, hparsed, hunique, ?_⟩
  by_cases hshort : data.length < ikcpOverhead
  · have hinput : ikcpInput kcp data = (kcp, -1) := if_pos hshort
    refine ⟨?_, ?_, ?_, pointerInput_eq kcp data⟩
    · rw [if_pos hshort, hinput]
    · rw [hinput]
      simp [Nat.not_le.mpr hshort]
    · rw [hinput, hparsed.short hshort]
      rfl
  · have hroom := Nat.not_lt.mp hshort
    obtain ⟨hcode, hblock⟩ := ikcpInput_parsed hparsed hroom
    refine ⟨?_, ?_, hblock, pointerInput_eq kcp data⟩
    · rw [if_neg hshort, hcode]
    · rw [hcode, Stop.code_eq_zero, hparsed.datagram_iff hroom]
      simp [hroom]

end UdpKcp.Ikcp
