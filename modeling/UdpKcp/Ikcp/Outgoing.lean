import UdpKcp.Ikcp.FlushFacts

/-! # The sending half of the block

Once a segment is in `snd_buf` its conversation, command, fragment number,
sequence number and payload are fixed: the data loop and the fast-ack count
only touch what surrounds them, and input can only delete segments. These
facts are stated on the `core` of a segment.
-/

namespace UdpKcp.Ikcp

open ByteCodec (Bytes)

/-- What a segment keeps for as long as it exists. -/
def IKCPSEG.core (seg : IKCPSEG) : IKCPSEG :=
  { conv := seg.conv, cmd := seg.cmd, frg := seg.frg, sn := seg.sn, data := seg.data }

def cores (segs : List IKCPSEG) : List IKCPSEG := segs.map IKCPSEG.core

@[simp] theorem cores_nil : cores [] = [] := rfl

@[simp] theorem cores_cons (seg : IKCPSEG) (segs : List IKCPSEG) :
    cores (seg :: segs) = seg.core :: cores segs := rfl

@[simp] theorem cores_append (xs ys : List IKCPSEG) : cores (xs ++ ys) = cores xs ++ cores ys :=
  List.map_append

theorem mem_cores {segs : List IKCPSEG} {seg : IKCPSEG} (h : seg ∈ segs) :
    seg.core ∈ cores segs :=
  List.mem_map_of_mem h

/-! ## Input -/

theorem dropUnacked_suffix (una : UInt32) (segs : List IKCPSEG) :
    dropUnacked una segs <:+ segs := by
  induction segs with
  | nil => exact List.suffix_rfl
  | cons seg next ih =>
      unfold dropUnacked
      split
      · exact ih.trans (List.suffix_cons _ _)
      · exact List.suffix_rfl

theorem removeAcked_sublist (sn : UInt32) (segs : List IKCPSEG) :
    (removeAcked sn segs).Sublist segs := by
  induction segs with
  | nil => exact List.Sublist.refl _
  | cons seg next ih =>
      unfold removeAcked
      split
      · exact List.sublist_cons_self _ _
      · split
        · exact List.Sublist.refl _
        · exact ih.cons_cons seg

theorem countFastack_cores (sn : UInt32) (segs : List IKCPSEG) :
    cores (countFastack sn segs) = cores segs := by
  induction segs with
  | nil => rfl
  | cons seg next ih =>
      unfold countFastack
      split
      · rfl
      · split
        · exact congrArg (seg.core :: ·) ih
        · exact congrArg (seg.core :: ·) ih

/-- What input does to the sending half: `snd_buf` can lose segments. -/
structure SendKept (old new : IKCPCB) : Prop where
  queue : new.sndQueue = old.sndQueue
  nxt : new.sndNxt = old.sndNxt
  buf : (cores new.sndBuf).Sublist (cores old.sndBuf)

theorem SendKept.refl (kcp : IKCPCB) : SendKept kcp kcp := ⟨rfl, rfl, List.Sublist.refl _⟩

theorem SendKept.trans {a b c : IKCPCB} (hab : SendKept a b) (hbc : SendKept b c) :
    SendKept a c :=
  ⟨hbc.queue.trans hab.queue, hbc.nxt.trans hab.nxt, hbc.buf.trans hab.buf⟩

/-- A step that leaves the three fields alone. -/
theorem SendKept.of_eq {old new : IKCPCB} (hqueue : new.sndQueue = old.sndQueue)
    (hnxt : new.sndNxt = old.sndNxt) (hbuf : new.sndBuf = old.sndBuf) : SendKept old new :=
  ⟨hqueue, hnxt, hbuf ▸ List.Sublist.refl _⟩

theorem SendKept.inputCommon (kcp : IKCPCB) (h : SegHeader) :
    SendKept kcp (inputCommon kcp h) :=
  ⟨rfl, rfl, (dropUnacked_suffix _ _).sublist.map _⟩

theorem SendKept.parseAck (kcp : IKCPCB) (sn : UInt32) : SendKept kcp (ikcpParseAck kcp sn) := by
  unfold ikcpParseAck
  split
  · exact SendKept.refl kcp
  · exact ⟨rfl, rfl, (removeAcked_sublist _ _).map _⟩

theorem SendKept.updateAck (kcp : IKCPCB) (rtt : Int) : SendKept kcp (ikcpUpdateAck kcp rtt) := by
  rw [ikcpUpdateAck_eq]
  exact SendKept.of_eq rfl rfl rfl

theorem SendKept.inputAck (st : InputState) (h : SegHeader) :
    SendKept st.kcp (inputAck st h).kcp := by
  apply inputAck_of (SendKept.refl st.kcp) (SendKept.updateAck st.kcp)
  intro kcp hkcp
  have hack := hkcp.trans (SendKept.parseAck kcp h.sn)
  exact ⟨hack.queue, hack.nxt, hack.buf⟩

theorem SendKept.inputPush (kcp : IKCPCB) (h : SegHeader) (payload : Bytes) :
    SendKept kcp (inputPush kcp h payload) := by
  rw [inputPush_eq]
  exact SendKept.of_eq rfl rfl rfl

theorem SendKept.inputSegment (st : InputState) (h : SegHeader) (payload : Bytes) :
    SendKept st.kcp (inputSegment st h payload).kcp := by
  have hcommon := SendKept.inputCommon st.kcp h
  apply inputSegment_of hcommon
  · exact hcommon.trans (SendKept.inputAck { st with kcp := Ikcp.inputCommon st.kcp h } h)
  · exact hcommon.trans (SendKept.inputPush _ h payload)
  · exact hcommon.trans (SendKept.of_eq rfl rfl rfl)

theorem SendKept.inputTail (st : InputState) (prevUna : UInt32) :
    SendKept st.kcp (inputTail st prevUna) := by
  unfold Ikcp.inputTail ikcpParseFastack
  rw [inputCwnd_eq]
  split_ifs
  · exact SendKept.of_eq rfl rfl rfl
  · exact ⟨rfl, rfl, (countFastack_cores _ _).symm ▸ List.Sublist.refl _⟩
  · exact SendKept.of_eq rfl rfl rfl

theorem SendKept.input (kcp : IKCPCB) (data : Bytes) : SendKept kcp (ikcpInput kcp data).1 :=
  ikcpInput_keeps (fun st h payload hst => hst.trans (SendKept.inputSegment st h payload))
    (fun st prevUna hst => hst.trans (SendKept.inputTail st prevUna)) data (SendKept.refl kcp)

/-! ## Receiving -/

/-- The block without the message at the head of `rcv_queue`. -/
def dropMessage (kcp : IKCPCB) : IKCPCB :=
  { kcp with
    rcvQueue := (mergeFragments kcp.rcvQueue).2
    nrcvQue := kcp.nrcvQue - (mergeFragments kcp.rcvQueue).1.length }

theorem ite_probe (c : Prop) [Decidable c] (kcp : IKCPCB) (probe : UInt32) :
    (if c then { kcp with probe := probe } else kcp) =
      { kcp with probe := if c then probe else kcp.probe } := by
  split <;> rfl

/-- The block without that message, and with what the freed room lets in. -/
def takeMessage (kcp : IKCPCB) : IKCPCB :=
  let taken := moveRcvBuf (dropMessage kcp)
  { taken with
    probe :=
      if taken.nrcvQue < taken.rcvWnd.toNat ∧ kcp.nrcvQue ≥ kcp.rcvWnd.toNat then
        kcp.probe ||| ikcpAskTell
      else kcp.probe }

/-- `ikcp_recv` when it does not peek. -/
theorem ikcpRecv_eq {kcp : IKCPCB} {len : Int} (hlen : 0 ≤ len) :
    ikcpRecv kcp len =
      if kcp.rcvQueue = [] then .error (-1)
      else if ikcpPeeksize kcp < 0 then .error (-2)
      else if ikcpPeeksize kcp > len then .error (-3)
      else .ok ((mergeFragments kcp.rcvQueue).1.flatMap (·.data), takeMessage kcp) := by
  unfold ikcpRecv takeMessage
  dsimp only
  rw [Int.natAbs_of_nonneg hlen, if_neg (Int.not_lt.mpr hlen), ite_probe]
  simp only [decide_eq_true_eq]
  rfl

/-- What a successful `ikcp_recv` that does not peek returns and leaves. -/
theorem ikcpRecv_ok {kcp kcp' : IKCPCB} {len : Int} {bytes : Bytes} (hlen : 0 ≤ len)
    (h : ikcpRecv kcp len = .ok (bytes, kcp')) :
    kcp.rcvQueue ≠ [] ∧ 0 ≤ ikcpPeeksize kcp ∧ ikcpPeeksize kcp ≤ len ∧
      bytes = (mergeFragments kcp.rcvQueue).1.flatMap (·.data) ∧
      ∃ probe, kcp' = { moveRcvBuf (dropMessage kcp) with probe := probe } ∧
        (probe = kcp.probe ||| ikcpAskTell ∨ probe = kcp.probe) := by
  rw [ikcpRecv_eq hlen] at h
  split_ifs at h with hne hpeek hfit
  obtain ⟨rfl, rfl⟩ := Prod.mk.inj (Except.ok.inj h)
  exact ⟨hne, by omega, by omega, rfl, _, rfl, ite_eq_or_eq _ _ _⟩

theorem SendKept.recv {kcp kcp' : IKCPCB} {len : Int} {bytes : Bytes} (hlen : 0 ≤ len)
    (h : ikcpRecv kcp len = .ok (bytes, kcp')) : SendKept kcp kcp' := by
  obtain ⟨-, -, -, -, probe, rfl, -⟩ := ikcpRecv_ok hlen h
  exact SendKept.of_eq rfl rfl rfl

theorem ikcpRecv_config {kcp kcp' : IKCPCB} {len : Int} {bytes : Bytes} (hlen : 0 ≤ len)
    (h : ikcpRecv kcp len = .ok (bytes, kcp')) : kcp'.config = kcp.config := by
  obtain ⟨-, -, -, -, probe, rfl, -⟩ := ikcpRecv_ok hlen h
  rfl

/-! ## Flushing -/

theorem stampSegment_core (kcp : IKCPCB) (wnd : UInt32) (seg : IKCPSEG) :
    (stampSegment kcp wnd seg).core = seg.core := by
  unfold stampSegment
  dsimp only
  split <;> rfl

theorem stamped_cores (kcp : IKCPCB) (wnd : UInt32) (segs : List IKCPSEG) :
    cores (segs.map (stampSegment kcp wnd)) = cores segs := by
  unfold cores
  rw [List.map_map]
  exact List.map_congr_left fun seg _ => stampSegment_core kcp wnd seg

/-- The opened segments are the head of the queue, in order. -/
theorem openWindow_append (kcp : IKCPCB) (wnd limit sndNxt : UInt32) (queue : List IKCPSEG) :
    ∃ k, (openWindow kcp wnd limit sndNxt queue).2 = queue.drop k ∧
      (openWindow kcp wnd limit sndNxt queue).1.length = k ∧ k ≤ queue.length := by
  induction queue generalizing sndNxt with
  | nil => exact ⟨0, rfl, rfl, Nat.le_refl 0⟩
  | cons newseg queue ih =>
      unfold openWindow
      split
      · obtain ⟨k, hdrop, hlen, hle⟩ := ih (sndNxt + 1)
        exact ⟨k + 1, by simpa using hdrop, by simpa using hlen, by simpa using hle⟩
      · exact ⟨0, rfl, rfl, Nat.zero_le _⟩

/-- Each opened segment: the queued one at its place, numbered and addressed. -/
theorem openWindow_get {kcp : IKCPCB} {wnd limit sndNxt : UInt32} {queue : List IKCPSEG}
    {i : Nat} {seg : IKCPSEG} (h : (openWindow kcp wnd limit sndNxt queue).1[i]? = some seg) :
    ∃ newseg, queue[i]? = some newseg ∧
      seg = openSegment kcp wnd (sndNxt + UInt32.ofNat i) newseg := by
  induction queue generalizing sndNxt i with
  | nil => simp [openWindow] at h
  | cons newseg queue ih =>
      unfold openWindow at h
      split at h
      · cases i with
        | zero =>
            refine ⟨newseg, rfl, ?_⟩
            simpa using h.symm
        | succ i =>
            obtain ⟨newseg', hget, rfl⟩ := ih (by simpa using h)
            refine ⟨newseg', by simpa using hget, ?_⟩
            congr 1
            rw [UInt32.ofNat_add, UInt32.add_assoc, UInt32.add_comm (UInt32.ofNat i)]
            rfl
      · simp at h

end UdpKcp.Ikcp
