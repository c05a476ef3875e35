import UdpKcp.Wheel.JointInvariant

/-! # The handshake copies

`GetKcpConvID` copies what it is given into four bytes, and the connect side
gives it whatever a read brings. The accept side answers only the first datagram
that it sees, so after a lost answer that may be the output of a flush.
-/

namespace UdpKcp.Wheel

open ByteCodec (Bytes encodeLE)
open Ikcp Plug
open UDPClient (Kept Same)

/-! ## The copies -/

instance (copy : Copy) : Decidable copy.InBounds :=
  inferInstanceAs (Decidable (0 ≤ copy.len ∧ copy.len ≤ 4 ∧ copy.len ≤ copy.data.length))

section Sane

variable {s : Joint} {addr : SockaddrIn}

theorem Acted.sane {s' : Joint} (hacted : Acted addr s s') (hsane : s.sane = true)
    (hall : ∀ copy ∈ s.copies, copy.InBounds) :
    s'.sane = true ↔ ∀ copy ∈ s'.copies, copy.InBounds := by
  have happend : ∀ {copies : List Copy}, (∀ copy ∈ copies, copy.InBounds ∧ copy.Short) →
      ∀ copy ∈ s.copies ++ copies, copy.InBounds :=
    fun hnew copy hcopy =>
      (List.mem_append.mp hcopy).elim (hall copy) fun hmem => (hnew copy hmem).1
  cases hacted with
  | connected c sent messages copies hc hconduct hcopies =>
      exact iff_of_true hsane (happend hcopies)
  | served server c sent messages copies htable hentry hc hconduct hcopies =>
      exact iff_of_true hsane (happend hcopies)
  | broken copies hcopies hout =>
      obtain ⟨copy, hcopy, hbad⟩ := hout
      refine iff_of_false Bool.false_ne_true ?_
      exact fun hboth => hbad (hboth copy (List.mem_append_right _ hcopy))
  | idle => exact iff_of_true hsane hall

/-- A run goes on as long as all copies were in bounds. -/
theorem Joint.sane_iff {info : SockaddrIn} {soc : Handle} (h : Joint.Reachable info addr soc s) :
    s.sane = true ↔ ∀ copy ∈ s.copies, copy.InBounds := by
  induction h with
  | refl => exact iff_of_true rfl (List.forall_mem_nil _)
  | tail hrun hs ih =>
      cases hs with
      | act a hsane ha =>
          exact ((Joint.inv_of_reachable hrun).acted ha).sane hsane (ih.mp hsane)

end Sane

/-- In every run, all copies of `CheckKcpPlug` are in bounds exactly when every read that
the connect side makes for its id succeeds and brings an id reply or a raw payload of at
most four bytes, and never the output of a flush. -/
theorem copies_inBounds_iff {info addr : SockaddrIn} {soc : Handle} {s : Joint}
    (h : Joint.Reachable info addr soc s) :
    (∀ copy ∈ s.copies, copy.InBounds) ↔ ∀ copy ∈ s.copies, copy.Short := by
  have hinv := Joint.inv_of_reachable h
  constructor
  · exact fun hall copy hcopy => (hinv.copies copy hcopy).mp (hall copy hcopy)
  · exact fun hall copy hcopy => (hinv.copies copy hcopy).mpr (hall copy hcopy)

/-! ## A lost answer -/

/-- The remote address of the examples. -/
def peerAddr : SockaddrIn := { sinAddr := 0x0100007f, sinPort := 0x60ea }

/-- The first datagram has made the accept side, whose answer is on its way. -/
def answered : Joint :=
  ((Joint.start peerAddr 5).act peerAddr (.connectSend [104])).act peerAddr
    (.datagram 6 ⟨.raw, [104]⟩ [])

theorem answered_reachable : Joint.Reachable peerAddr peerAddr 5 answered := by
  refine (Relation.ReflTransGen.single (Joint.Step.act _ (.connectSend [104]) rfl trivial)).tail
    (Joint.Step.act _ _ rfl ⟨by decide, ?_, by simp⟩)
  exact List.mem_append_right _ List.mem_cons_self

/-- The answer of the accept side. -/
def answer : Datagram := ⟨.idReply, encodeLE 4 (makeUniqueID peerAddr).toNat⟩

/-- The answer arrives and is copied in bounds. -/
theorem copies_inBounds_answer :
    (answered.act peerAddr (.connectRecv [some answer])).copies.length = 2 ∧
    ∀ copy ∈ (answered.act peerAddr (.connectRecv [some answer])).copies, copy.InBounds := by
  have hmem : answer ∈ answered.toClient := by decide
  have hreach := answered_reachable.tail
    (Joint.Step.act answered (.connectRecv [some answer]) rfl (by
      intro d hd
      cases List.mem_singleton.mp hd
      exact hmem))
  refine ⟨by decide, (copies_inBounds_iff hreach).mpr ?_⟩
  have hcopies : (answered.act peerAddr (.connectRecv [some answer])).copies.map (·.read) =
      [none, some (some answer)] := by decide
  intro copy hcopy result hresult
  have hread : some result ∈ [none, some (some answer)] := by
    rw [← hcopies, ← hresult]
    exact List.mem_map_of_mem hcopy
  simp only [List.mem_cons, List.not_mem_nil, or_false, reduceCtorEq, false_or,
    Option.some.injEq] at hread
  exact ⟨answer, hread, by decide, by decide⟩

/-- The answer is lost, and the accept side goes on to send a message. -/
def talking : Joint :=
  ((answered.act peerAddr (.acceptSend [1])).act peerAddr (.acceptUpdate 0)).act peerAddr
    (.acceptUpdate 10)

theorem talking_reachable : Joint.Reachable peerAddr peerAddr 5 talking :=
  ((answered_reachable.tail (Joint.Step.act _ (.acceptSend [1]) rfl trivial)).tail
    (Joint.Step.act _ (.acceptUpdate 0) (by decide) trivial)).tail
    (Joint.Step.act _ (.acceptUpdate 10) (by decide) trivial)

/-- The connect side reads the first KCP datagram: 25 bytes are copied into four. -/
theorem copies_inBounds_output :
    ∃ s, Joint.Reachable peerAddr peerAddr 5 s ∧
      ∃ copy ∈ s.copies, copy.len = 25 ∧ ¬ copy.InBounds := by
  have hstep : Joint.Step peerAddr talking
      (talking.act peerAddr (.connectRecv [talking.toClient[1]?])) := by
    apply Joint.Step.act
    · decide
    · intro d hd
      exact List.mem_of_getElem? (List.mem_singleton.mp hd).symm
  exact ⟨_, talking_reachable.tail hstep, by decide⟩

end UdpKcp.Wheel
