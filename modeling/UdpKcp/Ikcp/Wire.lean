import UdpKcp.Ikcp.Types

/-! # Segment encoding

The 24-byte header of `ikcp_encode_seg` and the field decoding at the head of
the loop in `ikcp_input`, both little-endian. Encoding casts `cmd` and `frg` to
8 bits and `wnd` to 16; decoding a header that was encoded from fields in range
returns them unchanged.
-/

namespace UdpKcp.Ikcp

open ByteCodec

def ikcpEncode8u (c : UInt8) : Bytes := [c]

def ikcpEncode16u (w : UInt16) : Bytes := encodeLE 2 w.toNat

def ikcpEncode32u (l : UInt32) : Bytes := encodeLE 4 l.toNat

/-- `ikcp_encode_seg`: the header alone, without the payload. -/
def ikcpEncodeSeg (seg : IKCPSEG) : Bytes :=
  ikcpEncode32u seg.conv ++ (ikcpEncode8u seg.cmd.toUInt8 ++ (ikcpEncode8u seg.frg.toUInt8 ++
    (ikcpEncode16u seg.wnd.toUInt16 ++ (ikcpEncode32u seg.ts ++ (ikcpEncode32u seg.sn ++
      (ikcpEncode32u seg.una ++ ikcpEncode32u seg.len))))))

/-- A whole segment as `ikcp_flush` writes it: header, then payload. -/
def IKCPSEG.bytes (seg : IKCPSEG) : Bytes := ikcpEncodeSeg seg ++ seg.data

def ikcpDecode8u (p : Bytes) : UInt8 × Bytes := (p.headD 0, p.drop 1)

def ikcpDecode16u (p : Bytes) : UInt16 × Bytes :=
  (UInt16.ofNat (decodeLE (p.take 2)), p.drop 2)

def ikcpDecode32u (p : Bytes) : UInt32 × Bytes :=
  (UInt32.ofNat (decodeLE (p.take 4)), p.drop 4)

/-- The locals that `ikcp_input` decodes from one header. -/
structure SegHeader where
  conv : UInt32
  cmd : UInt8
  frg : UInt8
  wnd : UInt16
  ts : UInt32
  sn : UInt32
  una : UInt32
  len : UInt32
  deriving Repr, DecidableEq

/-- Field decoding of one header; the caller has checked that 24 bytes are there. -/
def decodeHeader (data : Bytes) : SegHeader × Bytes :=
  let (conv, data) := ikcpDecode32u data
  let (cmd, data) := ikcpDecode8u data
  let (frg, data) := ikcpDecode8u data
  let (wnd, data) := ikcpDecode16u data
  let (ts, data) := ikcpDecode32u data
  let (sn, data) := ikcpDecode32u data
  let (una, data) := ikcpDecode32u data
  let (len, data) := ikcpDecode32u data
  (⟨conv, cmd, frg, wnd, ts, sn, una, len⟩, data)

/-! ## Round trips -/

@[simp] theorem decode8u_encode (c : UInt8) (tail : Bytes) :
    ikcpDecode8u (ikcpEncode8u c ++ tail) = (c, tail) := rfl

@[simp] theorem decode16u_encode (w : UInt16) (tail : Bytes) :
    ikcpDecode16u (ikcpEncode16u w ++ tail) = (w, tail) := by
  unfold ikcpDecode16u ikcpEncode16u
  rw [decodeLE_take_encodeLE (by simpa using w.toNat_lt), drop_encodeLE, UInt16.ofNat_toNat]

@[simp] theorem decode32u_encode (l : UInt32) (tail : Bytes) :
    ikcpDecode32u (ikcpEncode32u l ++ tail) = (l, tail) := by
  unfold ikcpDecode32u ikcpEncode32u
  rw [decodeLE_take_encodeLE (by simpa using l.toNat_lt), drop_encodeLE, UInt32.ofNat_toNat]

@[simp] theorem ikcpEncodeSeg_length (seg : IKCPSEG) :
    (ikcpEncodeSeg seg).length = ikcpOverhead := by
  simp [ikcpEncodeSeg, ikcpEncode32u, ikcpEncode16u, ikcpEncode8u, ikcpOverhead]

@[simp] theorem IKCPSEG.bytes_length (seg : IKCPSEG) :
    seg.bytes.length = ikcpOverhead + seg.data.length := by
  simp [IKCPSEG.bytes]

theorem IKCPSEG.bytes_ne_nil (seg : IKCPSEG) : seg.bytes ≠ [] := by
  intro h
  have hlen := congrArg List.length h
  simp [ikcpOverhead] at hlen

/-- The header that a receiver decodes from a segment. -/
def IKCPSEG.header (seg : IKCPSEG) : SegHeader where
  conv := seg.conv
  cmd := seg.cmd.toUInt8
  frg := seg.frg.toUInt8
  wnd := seg.wnd.toUInt16
  ts := seg.ts
  sn := seg.sn
  una := seg.una
  len := seg.len

theorem decodeHeader_encode (seg : IKCPSEG) (tail : Bytes) :
    decodeHeader (ikcpEncodeSeg seg ++ tail) = (seg.header, tail) := by
  simp [decodeHeader, ikcpEncodeSeg, IKCPSEG.header]

/-- No field is cut by the 8-bit, 16-bit and 31-bit fields of the header. -/
structure IKCPSEG.Encodable (seg : IKCPSEG) : Prop where
  cmd_lt : seg.cmd.toNat < 2 ^ 8
  frg_lt : seg.frg.toNat < 2 ^ 8
  wnd_lt : seg.wnd.toNat < 2 ^ 16
  len_lt : seg.data.length < 2 ^ 31

/-- A decoded header and payload carry every field of a segment, zero-extended. -/
structure Carries (decoded : SegHeader × Bytes) (seg : IKCPSEG) : Prop where
  conv : decoded.1.conv = seg.conv
  cmd : decoded.1.cmd.toUInt32 = seg.cmd
  frg : decoded.1.frg.toUInt32 = seg.frg
  wnd : decoded.1.wnd.toUInt32 = seg.wnd
  ts : decoded.1.ts = seg.ts
  sn : decoded.1.sn = seg.sn
  una : decoded.1.una = seg.una
  len : decoded.1.len.toNat = seg.data.length
  data : decoded.2 = seg.data

theorem u32_of_u8 {x : UInt32} (h : x.toNat < 2 ^ 8) : x.toUInt8.toUInt32 = x := by
  apply UInt32.toNat_inj.mp
  simp only [UInt8.toNat_toUInt32, UInt32.toNat_toUInt8]
  exact Nat.mod_eq_of_lt h

theorem u32_of_u16 {x : UInt32} (h : x.toNat < 2 ^ 16) : x.toUInt16.toUInt32 = x := by
  apply UInt32.toNat_inj.mp
  simp only [UInt16.toNat_toUInt32, UInt32.toNat_toUInt16]
  exact Nat.mod_eq_of_lt h

theorem IKCPSEG.Encodable.len_toNat {seg : IKCPSEG} (h : seg.Encodable) :
    seg.len.toNat = seg.data.length := by
  have hlen := h.len_lt
  unfold IKCPSEG.len
  rw [UInt32.toNat_ofNat']
  omega

theorem IKCPSEG.Encodable.carries {seg : IKCPSEG} (h : seg.Encodable) :
    Carries (seg.header, seg.data) seg where
  conv := rfl
  cmd := u32_of_u8 h.cmd_lt
  frg := u32_of_u8 h.frg_lt
  wnd := u32_of_u16 h.wnd_lt
  ts := rfl
  sn := rfl
  una := rfl
  len := h.len_toNat
  data := rfl

end UdpKcp.Ikcp
