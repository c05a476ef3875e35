import UdpKcp.Ikcp.InputFacts

/-! # Rewriting the headers of a datagram

A datagram is changed header by header, along the walk of `ikcp_input` itself;
payloads and whatever the walk cannot read stay as they are. A change that keeps
conversation id, command and length is followed by `ikcp_input` step for step,
also where the end of the datagram is cut off.
-/

namespace UdpKcp.Ikcp

open ByteCodec (Bytes)

/-- The header fields in the order of `ikcp_encode_seg`. -/
def encodeHeader (h : SegHeader) : Bytes :=
  ikcpEncode32u h.conv ++ (ikcpEncode8u h.cmd ++ (ikcpEncode8u h.frg ++
    (ikcpEncode16u h.wnd ++ (ikcpEncode32u h.ts ++ (ikcpEncode32u h.sn ++
      (ikcpEncode32u h.una ++ ikcpEncode32u h.len))))))

@[simp] theorem encodeHeader_length (h : SegHeader) :
    (encodeHeader h).length = ikcpOverhead := by
  simp [encodeHeader, ikcpEncode32u, ikcpEncode16u, ikcpEncode8u, ikcpOverhead]

@[simp] theorem decodeHeader_encodeHeader (h : SegHeader) (tail : Bytes) :
    decodeHeader (encodeHeader h ++ tail) = (h, tail) := by
  simp [decodeHeader, encodeHeader]

/-! ## Decoding reads only the header -/

theorem decode8u_append {data : Bytes} (h : 1 ≤ data.length) (tail : Bytes) :
    ikcpDecode8u (data ++ tail) = ((ikcpDecode8u data).1, (ikcpDecode8u data).2 ++ tail) := by
  cases data with
  | nil => simp at h
  | cons c rest => rfl

theorem decode16u_append {data : Bytes} (h : 2 ≤ data.length) (tail : Bytes) :
    ikcpDecode16u (data ++ tail) = ((ikcpDecode16u data).1, (ikcpDecode16u data).2 ++ tail) := by
  simp [ikcpDecode16u, List.take_append_of_le_length h, List.drop_append_of_le_length h]

theorem decode32u_append {data : Bytes} (h : 4 ≤ data.length) (tail : Bytes) :
    ikcpDecode32u (data ++ tail) = ((ikcpDecode32u data).1, (ikcpDecode32u data).2 ++ tail) := by
  simp [ikcpDecode32u, List.take_append_of_le_length h, List.drop_append_of_le_length h]

@[simp] theorem decode8u_rest_length (data : Bytes) :
    (ikcpDecode8u data).2.length = data.length - 1 := List.length_drop

@[simp] theorem decode16u_rest_length (data : Bytes) :
    (ikcpDecode16u data).2.length = data.length - 2 := List.length_drop

@[simp] theorem decode32u_rest_length (data : Bytes) :
    (ikcpDecode32u data).2.length = data.length - 4 := List.length_drop

theorem decodeHeader_append {data : Bytes} (h : ikcpOverhead ≤ data.length) (tail : Bytes) :
    decodeHeader (data ++ tail) = ((decodeHeader data).1, (decodeHeader data).2 ++ tail) := by
  unfold ikcpOverhead at h
  unfold decodeHeader
  simp (disch := (try simp only [decode8u_rest_length, decode16u_rest_length,
    decode32u_rest_length]); omega) only [decode8u_append, decode16u_append, decode32u_append]

theorem decodeHeader_body (data : Bytes) : (decodeHeader data).2 = data.drop ikcpOverhead := by
  simp [decodeHeader, ikcpDecode8u, ikcpDecode16u, ikcpDecode32u, ikcpOverhead]

/-- A cut behind the header leaves the header alone. -/
theorem decodeHeader_take {data : Bytes} {n : ℕ} (hn : ikcpOverhead ≤ n)
    (h : ikcpOverhead ≤ data.length) :
    decodeHeader (data.take n) =
      ((decodeHeader data).1, (decodeHeader data).2.take (n - ikcpOverhead)) := by
  have hlen : ikcpOverhead ≤ (data.take n).length := by
    rw [List.length_take]
    omega
  have hsplit := decodeHeader_append hlen (data.drop n)
  rw [List.take_append_drop] at hsplit
  have hfst := congrArg Prod.fst hsplit
  ext1
  · exact hfst.symm
  · dsimp only
    rw [decodeHeader_body, decodeHeader_body, List.drop_take]

/-! ## The rewriting walk -/

/-- What a change of headers must leave alone. -/
structure KeepsFrame (f : SegHeader → SegHeader) : Prop where
  conv : ∀ h, (f h).conv = h.conv
  cmd : ∀ h, (f h).cmd = h.cmd
  len : ∀ h, (f h).len = h.len

def rewriteSegs (f : SegHeader → SegHeader) : ℕ → Bytes → Bytes
  | 0, data => data
  | fuel + 1, data =>
      if data.length < ikcpOverhead then data
      else
        let h := (decodeHeader data).1
        let body := (decodeHeader data).2
        if body.length < h.len.toNat then data
        else
          encodeHeader (f h) ++ (body.take h.len.toNat ++
            rewriteSegs f fuel (body.drop h.len.toNat))

/-- A datagram too short for its first segment is left alone. -/
theorem rewriteSegs_short (f : SegHeader → SegHeader) (fuel : ℕ) {data : Bytes}
    (hroom : (decodeHeader data).2.length < (decodeHeader data).1.len.toNat) :
    rewriteSegs f (fuel + 1) data = data := by
  unfold rewriteSegs
  dsimp only
  rw [if_pos hroom, ite_self]

/-- The first segment of a datagram after the walk. -/
theorem rewriteSegs_head (f : SegHeader → SegHeader) (fuel : ℕ) {data : Bytes}
    (hlong : ¬ data.length < ikcpOverhead)
    (hroom : ¬ (decodeHeader data).2.length < (decodeHeader data).1.len.toNat) :
    decodeHeader (rewriteSegs f (fuel + 1) data) =
      (f (decodeHeader data).1, (decodeHeader data).2.take (decodeHeader data).1.len.toNat ++
        rewriteSegs f fuel ((decodeHeader data).2.drop (decodeHeader data).1.len.toNat)) := by
  rw [rewriteSegs, if_neg hlong]
  dsimp only
  rw [if_neg hroom, decodeHeader_encodeHeader]

/-- Change every header of a datagram. -/
def rewriteDatagram (f : SegHeader → SegHeader) (data : Bytes) : Bytes :=
  rewriteSegs f data.length data

@[simp] theorem rewriteSegs_length (f : SegHeader → SegHeader) (fuel : ℕ) (data : Bytes) :
    (rewriteSegs f fuel data).length = data.length := by
  induction fuel generalizing data with
  | zero => rfl
  | succ fuel ih =>
      unfold rewriteSegs
      dsimp only
      split
      · rfl
      · split
        · rfl
        · rename_i hlong hroom
          rw [decodeHeader_body] at hroom ⊢
          simp only [List.length_append, encodeHeader_length, ih, List.length_take,
            List.length_drop] at hroom ⊢
          omega

@[simp] theorem rewriteDatagram_length (f : SegHeader → SegHeader) (data : Bytes) :
    (rewriteDatagram f data).length = data.length := rewriteSegs_length f _ data

/-! ## Segments on the wire -/

/-- Headers with their payloads, back to back. -/
def wireBytes (segs : List (SegHeader × Bytes)) : Bytes :=
  segs.flatMap fun seg => encodeHeader seg.1 ++ seg.2

@[simp] theorem wireBytes_cons (seg : SegHeader × Bytes) (segs : List (SegHeader × Bytes)) :
    wireBytes (seg :: segs) = encodeHeader seg.1 ++ (seg.2 ++ wireBytes segs) :=
  List.append_assoc _ _ _

theorem segmentBytes_eq (segs : List IKCPSEG) :
    segmentBytes segs = wireBytes (segs.map fun seg => (seg.header, seg.data)) := by
  unfold segmentBytes wireBytes
  rw [List.flatMap_map]
  rfl

theorem rewriteSegs_wire (f : SegHeader → SegHeader) {fuel : ℕ}
    {segs : List (SegHeader × Bytes)} (hlen : ∀ seg ∈ segs, seg.1.len.toNat = seg.2.length)
    (hfuel : segs.length ≤ fuel) :
    rewriteSegs f fuel (wireBytes segs) = wireBytes (segs.map fun seg => (f seg.1, seg.2)) := by
  induction segs generalizing fuel with
  | nil => cases fuel <;> rfl
  | cons seg segs ih =>
      cases fuel with
      | zero => simp at hfuel
      | succ fuel =>
          have hseg := hlen seg List.mem_cons_self
          have hrest := ih (fun s hs => hlen s (List.mem_cons_of_mem _ hs)) (by simpa using hfuel)
          have hlong : ¬ (encodeHeader seg.1 ++ (seg.2 ++ wireBytes segs)).length <
              ikcpOverhead := by
            simp
          have hroom : ¬ (seg.2 ++ wireBytes segs).length < seg.1.len.toNat := by
            simp [hseg]
          rw [wireBytes_cons, rewriteSegs, if_neg hlong]
          simp only [decodeHeader_encodeHeader]
          rw [if_neg hroom, hseg, List.take_left, List.drop_left, hrest, List.map_cons,
            wireBytes_cons]

theorem length_le_wireBytes (segs : List (SegHeader × Bytes)) :
    segs.length ≤ (wireBytes segs).length := by
  induction segs with
  | nil => simp
  | cons seg segs ih =>
      simp only [wireBytes_cons, List.length_append, encodeHeader_length, List.length_cons,
        ikcpOverhead]
      omega

theorem rewriteDatagram_wire (f : SegHeader → SegHeader) {segs : List (SegHeader × Bytes)}
    (hlen : ∀ seg ∈ segs, seg.1.len.toNat = seg.2.length) :
    rewriteDatagram f (wireBytes segs) = wireBytes (segs.map fun seg => (f seg.1, seg.2)) :=
  rewriteSegs_wire f hlen (length_le_wireBytes segs)

/-! ## Reading a rewritten datagram -/

/-- A payload that was cut off with what follows it, and what is left of that. -/
theorem take_payload {body : Bytes} (behind : Bytes) {len n : ℕ} (hroom : len ≤ body.length)
    (hn : len ≤ n) :
    ((body.take len ++ behind).take n).take len = (body.take n).take len ∧
      ((body.take len ++ behind).take n).drop len = behind.take (n - len) := by
  have hlen : (body.take len).length = len := by
    rw [List.length_take]
    omega
  constructor
  · rw [List.take_take, List.take_take, Nat.min_eq_left hn, List.take_left' hlen]
  · rw [List.drop_take, List.drop_left' hlen]

section Simulation

variable {f : SegHeader → SegHeader} (hf : KeepsFrame f) {F : InputState → InputState}
  (hconv : ∀ st, (F st).kcp.conv = st.kcp.conv)
  (hstep : ∀ st h payload, inputSegment (F st) (f h) payload = F (inputSegment st h payload))

include hf hconv hstep

/-- Where each segment is followed, the loop is followed, whatever is cut off behind. -/
theorem inputLoop_rewritten (fuel : ℕ) {rounds : ℕ} (st : InputState) {data : Bytes} (n : ℕ)
    (hrounds : data.length ≤ rounds) :
    inputLoop fuel (F st) ((rewriteSegs f rounds data).take n) =
      (F (inputLoop fuel st (data.take n)).1, (inputLoop fuel st (data.take n)).2) := by
  induction fuel generalizing rounds st data n with
  | zero => rfl
  | succ fuel ih =>
      have htake : ((rewriteSegs f rounds data).take n).length = (data.take n).length := by
        rw [List.length_take, List.length_take, rewriteSegs_length]
      by_cases hcut : (data.take n).length < ikcpOverhead
      · rw [inputLoop, inputLoop, if_pos hcut, if_pos (htake ▸ hcut)]
      · obtain ⟨hn, hlong⟩ : ikcpOverhead ≤ n ∧ ikcpOverhead ≤ data.length := by
          rw [List.length_take] at hcut
          omega
        obtain ⟨rounds, rfl⟩ : ∃ r, rounds = r + 1 := by
          unfold ikcpOverhead at hlong
          exact ⟨rounds - 1, by omega⟩
        have hlong' : ikcpOverhead ≤ (rewriteSegs f (rounds + 1) data).length := by
          rw [rewriteSegs_length]
          exact hlong
        rw [inputLoop, inputLoop, if_neg hcut, if_neg (htake ▸ hcut), decodeHeader_take hn hlong,
          decodeHeader_take hn hlong']
        by_cases hroom : (decodeHeader data).2.length < (decodeHeader data).1.len.toNat
        · -- the walk changed nothing, and the loop stops at this segment
          have hstop : ((decodeHeader data).2.take (n - ikcpOverhead)).length <
              (decodeHeader data).1.len.toNat := by
            rw [List.length_take]
            omega
          rw [rewriteSegs_short f rounds hroom]
          dsimp only
          simp only [hconv, hstop, true_or, if_true]
          split <;> rfl
        · rw [rewriteSegs_head f rounds (by omega) hroom]
          generalize (decodeHeader data).1 = h at *
          generalize hbody : (decodeHeader data).2 = body at *
          dsimp only
          have hlen : ((body.take h.len.toNat ++
              rewriteSegs f rounds (body.drop h.len.toNat)).take (n - ikcpOverhead)).length =
              (body.take (n - ikcpOverhead)).length := by
            simp only [List.length_take, List.length_append, rewriteSegs_length, List.length_drop]
            omega
          rw [hf.conv, hf.cmd, hf.len, hlen, hconv]
          split
          · rfl
          · split
            · rfl
            · split
              · rfl
              · rename_i hok hvalid
                rw [List.length_take] at hok
                obtain ⟨hpayload, hbehind⟩ := take_payload
                  (rewriteSegs f rounds (body.drop h.len.toNat)) (Nat.not_lt.mp hroom)
                  (show h.len.toNat ≤ n - ikcpOverhead by omega)
                have hrest : (body.drop h.len.toNat).length ≤ rounds := by
                  rw [decodeHeader_body] at hbody
                  rw [← hbody, List.length_drop, List.length_drop]
                  unfold ikcpOverhead at *
                  omega
                rw [hpayload, hbehind, hstep, ih _ _ hrest, List.drop_take]

end Simulation

end UdpKcp.Ikcp
