import UdpKcp.Ikcp.Grammar
import UdpKcp.Plug.Reachable

/-! # Runs with a history

A run of the plug's operations together with what two inner functions were given
on the way: every round-trip sample that `ikcp_update_ack` was called with, and
every segment that the data loop of `ikcp_flush` transmitted. The history only
listens; the blocks are those of the plain operations.
-/

namespace UdpKcp.Plug

open ByteCodec (Bytes)
open Ikcp

/-! ## Along the walk of `ikcp_input` -/

section Walk

variable {α : Type} (f : IKCPCB → SegHeader → List α)

/-- What `f` makes of the segments that the loop of `ikcp_input` reads, each with the block
that it is read with. -/
def loopWalk : Nat → InputState → Bytes → List α
  | 0, _, _ => []
  | fuel + 1, st, data =>
      if data.length < ikcpOverhead then []
      else
        let h := (decodeHeader data).1
        let body := (decodeHeader data).2
        if h.conv ≠ st.kcp.conv then []
        else if body.length < h.len.toNat ∨ asI32 h.len < 0 then []
        else if ¬ validCmd h.cmd then []
        else
          f st.kcp h ++
            loopWalk fuel (inputSegment st h (body.take h.len.toNat)) (body.drop h.len.toNat)

def inputWalk (kcp : IKCPCB) (data : Bytes) : List α :=
  loopWalk f data.length { kcp := kcp } data

/-- The same over several calls of `ikcp_input`. -/
def inputsWalk : IKCPCB → List Bytes → List α
  | _, [] => []
  | kcp, data :: inputs => inputWalk f kcp data ++ inputsWalk (ikcpInput kcp data).1 inputs

end Walk

/-! ## Round-trip samples -/

/-- One call of `ikcp_update_ack`: the block it is made on and the round trip measured. -/
structure Sample where
  kcp : IKCPCB
  rtt : Int
  deriving Repr

/-- The call that a segment makes: an acknowledgement whose time stamp is not ahead of the clock. -/
def segmentSamples (kcp : IKCPCB) (h : SegHeader) : List Sample :=
  let kcp := inputCommon kcp h
  let rtt := itimediff kcp.current h.ts
  if h.cmd.toUInt32 = ikcpCmdAck ∧ rtt ≥ 0 then [⟨kcp, rtt⟩] else []

/-- The calls made by one `KcpRecv`. -/
def kcpRecvSamples (block : IKCPCB) (input : Option Bytes) (soc : Socket) : List Sample :=
  inputsWalk segmentSamples block (kcpRecvInputs input soc)

/-! ## Transmissions -/

/-- One transmission of the data loop: the block whose clock and estimate it uses, the
window it writes, and the segment before. -/
structure Transmission where
  kcp : IKCPCB
  wnd : UInt32
  segment : IKCPSEG
  deriving Repr

def Transmission.reason (t : Transmission) : SendReason := sendReason t.kcp t.segment

/-- The segment as it is sent and stays in `snd_buf`. -/
def Transmission.sent (t : Transmission) : IKCPSEG := stampSegment t.kcp t.wnd t.segment

/-- The transmissions of a flush, in the order of `snd_buf`. -/
def flushTransmissions (kcp : IKCPCB) : List Transmission :=
  let opened := flushOpened kcp
  (opened.sndBuf.filter fun segment => sendReason opened segment ≠ .idle).map fun segment =>
    ⟨opened, ikcpWndUnused kcp, segment⟩

/-- The transmissions of one `KcpUpdate`. -/
def kcpUpdateTransmissions (block : IKCPCB) (dlt : UInt32) : List Transmission :=
  let timed := updateTimer block dlt
  if timed.2 then flushTransmissions timed.1 else []

/-- What is sent is the data that the flush emits. -/
theorem flushTransmissions_sent (kcp : IKCPCB) :
    (flushTransmissions kcp).map Transmission.sent =
      dueSegments (flushOpened kcp) (ikcpWndUnused kcp) (flushOpened kcp).sndBuf := by
  unfold flushTransmissions dueSegments
  rw [List.map_map]
  rfl

theorem mem_flushTransmissions {kcp : IKCPCB} {t : Transmission}
    (h : t ∈ flushTransmissions kcp) :
    t.segment ∈ (flushOpened kcp).sndBuf ∧ t.reason ≠ .idle ∧ t.kcp = flushOpened kcp := by
  obtain ⟨segment, hmem, rfl⟩ := List.mem_map.mp h
  obtain ⟨hbuf, hreason⟩ := List.mem_filter.mp hmem
  exact ⟨hbuf, by simpa [Transmission.reason] using hreason, rfl⟩

/-! ## Runs -/

structure History where
  samples : List Sample := []
  sent : List Transmission := []

/-- The blocks that runs of the plug reach, each with the history of its run. -/
inductive Recorded (conv : UInt32) : IKCPCB → History → Prop where
  | new : Recorded conv (newKcpPlugControlBlock conv) {}
  | send {block : IKCPCB} {past : History} (data : Bytes) (run : Recorded conv block past) :
      Recorded conv (kcpSend block data data.length).1 past
  | update {block : IKCPCB} {past : History} (dlt : UInt32) (run : Recorded conv block past) :
      Recorded conv (kcpUpdate block dlt).1
        { past with sent := past.sent ++ kcpUpdateTransmissions block dlt }
  | recv {block : IKCPCB} {past : History} (input : Option Bytes) (soc : Socket) (maxlen : Int)
      (run : Recorded conv block past) :
      Recorded conv (kcpRecv block input soc maxlen).block
        { past with samples := past.samples ++ kcpRecvSamples block input soc }

theorem Recorded.reachable {conv : UInt32} {block : IKCPCB} {past : History}
    (h : Recorded conv block past) : Reachable conv block := by
  induction h with
  | new => exact Relation.ReflTransGen.refl
  | send data _ ih => exact ih.tail (Call.send _ data)
  | update dlt _ ih => exact ih.tail (Call.update _ dlt)
  | recv input soc maxlen _ ih => exact ih.tail (Call.recv _ input soc maxlen)

/-- Every reachable block is reached by a run with a history. -/
theorem exists_recorded {conv : UInt32} {block : IKCPCB} (h : Reachable conv block) :
    ∃ past, Recorded conv block past := by
  induction h with
  | refl => exact ⟨{}, .new⟩
  | tail _ hc ih =>
      obtain ⟨past, hrun⟩ := ih
      cases hc with
      | send data => exact ⟨_, .send data hrun⟩
      | update dlt => exact ⟨_, .update dlt hrun⟩
      | recv input soc maxlen => exact ⟨_, .recv input soc maxlen hrun⟩

/-! ## A rule for walks

What is known of the block before a segment, and kept by segments of which `f` makes
things with the property `A`, makes `B` of them. -/

section Rule

variable {α : Type} {f : IKCPCB → SegHeader → List α} {I : IKCPCB → Prop} {A B : α → Prop}
  (hseg : ∀ st h payload, I st.kcp → (∀ x ∈ f st.kcp h, A x) →
    (∀ x ∈ f st.kcp h, B x) ∧ I (inputSegment st h payload).kcp)
  (htail : ∀ st prevUna, I st.kcp → I (inputTail st prevUna))

include hseg

theorem loopWalk_imp (fuel : ℕ) {st : InputState} {data : Bytes} (hI : I st.kcp)
    (hA : ∀ x ∈ loopWalk f fuel st data, A x) :
    (∀ x ∈ loopWalk f fuel st data, B x) ∧ I (inputLoop fuel st data).1.kcp := by
  induction fuel generalizing st data with
  | zero => exact ⟨List.forall_mem_nil _, hI⟩
  | succ fuel ih =>
      unfold loopWalk at hA ⊢
      unfold inputLoop
      dsimp only at hA ⊢
      split_ifs at hA ⊢ with hshort hconv hlen hcmd
      · exact ⟨List.forall_mem_nil _, hI⟩
      · exact ⟨List.forall_mem_nil _, hI⟩
      · exact ⟨List.forall_mem_nil _, hI⟩
      · rw [List.forall_mem_append] at hA ⊢
        obtain ⟨hfirst, hnext⟩ := hseg _ _ _ hI hA.1
        obtain ⟨hrest, hlast⟩ := ih hnext hA.2
        exact ⟨⟨hfirst, hrest⟩, hlast⟩
      · exact ⟨List.forall_mem_nil _, hI⟩

include htail

theorem inputWalk_imp {kcp : IKCPCB} (data : Bytes) (hI : I kcp)
    (hA : ∀ x ∈ inputWalk f kcp data, A x) :
    (∀ x ∈ inputWalk f kcp data, B x) ∧ I (ikcpInput kcp data).1 := by
  obtain ⟨hB, hloop⟩ := loopWalk_imp hseg data.length hI hA
  refine ⟨hB, ?_⟩
  unfold ikcpInput
  split
  · exact hI
  · split
    · rename_i st heq
      rw [heq] at hloop
      exact htail st _ hloop
    · rename_i st code heq
      rw [heq] at hloop
      exact hloop

theorem inputsWalk_imp {kcp : IKCPCB} (inputs : List Bytes) (hI : I kcp)
    (hA : ∀ x ∈ inputsWalk f kcp inputs, A x) :
    (∀ x ∈ inputsWalk f kcp inputs, B x) ∧ I (inputAll kcp inputs) := by
  induction inputs generalizing kcp with
  | nil => exact ⟨List.forall_mem_nil _, hI⟩
  | cons data inputs ih =>
      unfold inputsWalk at hA ⊢
      rw [List.forall_mem_append] at hA ⊢
      obtain ⟨hfirst, hnext⟩ := inputWalk_imp hseg htail _ hI hA.1
      obtain ⟨hrest, hlast⟩ := ih hnext hA.2
      exact ⟨⟨hfirst, hrest⟩, hlast⟩

end Rule

end UdpKcp.Plug
