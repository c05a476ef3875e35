import UdpKcp.Link.Invariant

/-! # Ordered delivery and retention

Two results read off the invariant: messages come out as they went in, and no
segment leaves the sender before the receiver has it.
-/

namespace UdpKcp.Link

open ByteCodec (Bytes)
open Framing (Piece fragments)
open SelectiveRepeat (Fact Peer Half Side)
open Ikcp Plug

/-! ## Messages -/

/-- At every moment the messages returned at one end are a prefix of those accepted at
the other. -/
theorem returned_prefix {conv : UInt32} {s : State} (h : Reachable conv s)
    (hfew : ∀ side, (s.ep side).sent < 2 ^ 31) (side : Side) :
    (s.ep side.other).returned <+: (s.ep side).accepted := by
  obtain ⟨said, hinv⟩ := inv_of_reachable h hfew
  have hbegins := hinv.delivered side.other
  rwa [Side.other_other] at hbegins

/-- Two messages, the first of them in flight. -/
def twoSent : State :=
  ((((State.start 7).send .left [1, 2, 3]).send .left [4, 5]).update .left 0).update .left 10

/-- Its datagram is doubled. -/
def doubled : State :=
  { twoSent with
    net := Function.update twoSent.net .left
      ((twoSent.net .left).headD [] :: twoSent.net .left) }

/-- One copy is received and answered, and the second message follows. -/
def answered : State :=
  let heard := (doubled.recv .right none ((doubled.net .left).take 1)
    ((doubled.net .left).drop 1) 512).update .right 10
  (heard.recv .left none (heard.net .right) [] 512).update .left 20

/-- A third one as well; everything arrives in the opposite order, the copy last. -/
def reordered : State :=
  let sent := (answered.send .left [6]).update .left 30
  sent.recv .right none (sent.net .left).reverse [] 512

theorem reordered_reachable : Reachable 7 reordered := by
  have hsent : Reachable 7 twoSent :=
    (((Relation.ReflTransGen.single (Step.send _ .left [1, 2, 3])).tail
      (Step.send _ .left [4, 5])).tail (Step.update _ .left 0)).tail (Step.update _ .left 10)
  have hdoubled : Reachable 7 doubled :=
    hsent.tail (Step.duplicate twoSent .left _ (by decide))
  have hcopies : (doubled.net .left).Perm ((none : Option Bytes).toList ++
      (doubled.net .left).take 1 ++ (doubled.net .left).drop 1) := by
    rw [Option.toList_none, List.nil_append, List.take_append_drop]
  have hheard := (hdoubled.tail (Step.recv _ .right none _ _ 512 hcopies)).tail
    (Step.update _ .right 10)
  have hanswered : Reachable 7 answered :=
    (hheard.tail (Step.recv _ .left none _ [] 512 (by simp [Side.other]))).tail
      (Step.update _ .left 20)
  have hlast := (hanswered.tail (Step.send _ .left [6])).tail (Step.update _ .left 30)
  refine hlast.tail (Step.recv _ .right none _ [] 512 ?_)
  simp [Side.other]

theorem returned_prefix_reordered :
    (reordered.ep .right).returned = [[1, 2, 3], [4, 5], [6]] ∧
    (reordered.ep .right).returned <+: (reordered.ep .left).accepted := by
  have hfew : ∀ side, (reordered.ep side).sent < 2 ^ 31 := by
    intro side
    cases side <;> decide +kernel
  exact ⟨by decide +kernel, returned_prefix reordered_reachable hfew .left⟩

/-! ## Segments -/

/-- Number `sn` is in a buffer with this fragment number and payload. -/
def Buffered (segs : List IKCPSEG) (sn : UInt32) (x : Piece UInt8) : Prop :=
  ∃ seg ∈ segs, seg.sn = sn ∧ piece seg = x

/-- Number `sn` was accepted: it lies below `rcv_nxt` or waits in `rcv_buf`. -/
def AcceptedBy (kcp : IKCPCB) (sn : UInt32) (x : Piece UInt8) : Prop :=
  sn.toNat < kcp.rcvNxt.toNat ∨ Buffered kcp.rcvBuf sn x

/-- What the peer of an endpoint accepted, the block did, with the sender's piece. -/
theorem acceptedBy_of_peer {conv : UInt32} {p : Peer (Piece UInt8)} {e : Endpoint}
    {said : Set (Fact (Piece UInt8))} (ht : Tracked conv e) (h : Half p (e.peer said))
    {sn : UInt32} (hn : (e.peer said).Accepted sn.toNat) :
    ∃ x, p.stream[sn.toNat]? = some x ∧ AcceptedBy e.kcp sn x := by
  have hlt := h.accepted_lt hn
  have hopen := h.opened_le
  rcases hn with hn | ⟨x, hx⟩
  · refine ⟨p.stream[sn.toNat], List.getElem?_eq_getElem (by omega), Or.inl ?_⟩
    have hlen : (e.peer said).received.length = e.kcp.rcvNxt.toNat := by
      rw [ht.recv.nxt]
      simp [Endpoint.peer, view]
    rwa [hlen] at hn
  · obtain ⟨-, hget⟩ := h.early_of _ x hx
    obtain ⟨seg, hseg, heq⟩ := List.mem_map.mp hx
    obtain ⟨hsn, hpiece⟩ := Prod.mk.inj heq
    exact ⟨x, hget, Or.inr ⟨seg, hseg, UInt32.toNat_inj.mp hsn, hpiece⟩⟩

/-- Every opened number is still buffered by the sender or was accepted by the receiver,
and what a datagram in flight acknowledges was accepted. -/
theorem retained {conv : UInt32} {s : State} (h : Reachable conv s)
    (hfew : ∀ side, (s.ep side).sent < 2 ^ 31) (side : Side) :
    (∀ sn : UInt32, sn.toNat < (s.ep side).kcp.sndNxt.toNat →
      ∃ x, (s.ep side).stream[sn.toNat]? = some x ∧
        (Buffered (s.ep side).kcp.sndBuf sn x ∨ AcceptedBy (s.ep side.other).kcp sn x)) ∧
    ∀ d ∈ s.net side.other, ∃ decoded, decodeDatagram d = some decoded ∧
      ∀ seg ∈ decoded, ∀ sn : UInt32,
        (seg.1.cmd.toUInt32 = ikcpCmdAck ∧ sn = seg.1.sn) ∨ sn.toNat < seg.1.una.toNat →
        ∃ x, (s.ep side).stream[sn.toNat]? = some x ∧
          AcceptedBy (s.ep side.other).kcp sn x := by
  obtain ⟨said, hinv⟩ := inv_of_reachable h hfew
  have hhalf : Half ((s.ep side).peer (said side)) ((s.ep side.other).peer (said side.other)) :=
    hinv.peers side
  have hown := hinv.tracked side
  have hother := hinv.tracked side.other
  constructor
  · intro sn hsn
    rcases hhalf.covered sn.toNat hsn with hpend | hacc
    · obtain ⟨seg, hseg, hnum⟩ := List.mem_map.mp hpend
      have heq : seg.sn = sn := UInt32.toNat_inj.mp hnum
      have hcontent := hown.send.content _ (mem_cores hseg)
      refine ⟨piece seg, ?_, Or.inl ⟨seg, hseg, heq, rfl⟩⟩
      rw [← heq]
      exact hcontent
    · obtain ⟨x, hget, hacc⟩ := acceptedBy_of_peer hother hhalf hacc
      exact ⟨x, hget, Or.inr hacc⟩
  · intro d hd
    obtain ⟨segs, rfl, -, hhonest⟩ := hinv.flight side.other d hd
    refine ⟨_, decodeDatagram_segmentBytes fun seg hs =>
      (hhonest.acceptable seg hs).toEncodable, ?_⟩
    intro decoded hdecoded sn hack
    obtain ⟨seg, hs, rfl⟩ := List.mem_map.mp hdecoded
    have hfacts := (hhonest.facts seg hs).header (hhonest.acceptable seg hs)
    apply acceptedBy_of_peer hother hhalf
    rcases hack with ⟨hcmd, rfl⟩ | hbelow
    · exact hhalf.ack_said _ (hfacts.ack hcmd)
    · have hcum := hhalf.cum_said _ hfacts.cum
      exact Or.inl (Nat.lt_of_lt_of_le hbelow hcum)

/-- One message sent, flushed twice and received. -/
def oneMessage : State :=
  let sent := (((State.start 7).send .left [1, 2, 3]).update .left 0).update .left 10
  sent.recv .right none (sent.net .left) [] 512

theorem oneMessage_reachable : Reachable 7 oneMessage := by
  refine Relation.ReflTransGen.tail (Relation.ReflTransGen.tail (Relation.ReflTransGen.tail
    (Relation.ReflTransGen.single (Step.send _ .left [1, 2, 3])) (Step.update _ .left 0))
    (Step.update _ .left 10)) (Step.recv _ .right none _ [] 512 ?_)
  simp [Side.other]

/-- The receiver of the message has answered; the answer is still in flight. -/
def oneAnswer : State := oneMessage.update .right 0

theorem retained_oneAnswer :
    (oneAnswer.net .right).length = 1 ∧
    ∀ d ∈ oneAnswer.net .right, ∃ decoded, decodeDatagram d = some decoded ∧
      ∀ seg ∈ decoded, ∀ sn : UInt32,
        (seg.1.cmd.toUInt32 = ikcpCmdAck ∧ sn = seg.1.sn) ∨ sn.toNat < seg.1.una.toNat →
        ∃ x, (oneAnswer.ep .left).stream[sn.toNat]? = some x ∧
          AcceptedBy (oneAnswer.ep .right).kcp sn x := by
  have hreach : Reachable 7 oneAnswer := oneMessage_reachable.tail (Step.update _ .right 0)
  have hfew : ∀ side, (oneAnswer.ep side).sent < 2 ^ 31 := by
    intro side
    cases side <;> decide
  exact ⟨by decide, (retained hreach hfew .left).2⟩

end UdpKcp.Link
