import UdpKcp.Plug.FlushWire
import UdpKcp.Ikcp.Windows
import UdpKcp.Library.SelectiveRepeat

/-! # A control block as a selective-repeat peer

The abstraction of one endpoint. Its items are numbered pieces of messages; the
sequence numbers stay below half the circle, so they are read as natural
numbers. `SendShape` and `RecvShape` say how the two halves of the block are
laid out in terms of what was submitted and what was taken.
-/

namespace UdpKcp.Link

open ByteCodec (Bytes)
open Framing (Piece)
open SelectiveRepeat (Fact Peer Move Moves)
open Ikcp Plug

/-- Half of the sequence circle. -/
def halfCircle : ℕ := 2 ^ 31

/-- The sequence numbers of a list of segments. -/
def sns (segs : List IKCPSEG) : List ℕ := segs.map fun seg => seg.sn.toNat

@[simp] theorem sns_nil : sns [] = [] := rfl

@[simp] theorem sns_cons (seg : IKCPSEG) (segs : List IKCPSEG) :
    sns (seg :: segs) = seg.sn.toNat :: sns segs := rfl

@[simp] theorem sns_append (xs ys : List IKCPSEG) : sns (xs ++ ys) = sns xs ++ sns ys :=
  List.map_append

theorem mem_sns {segs : List IKCPSEG} {seg : IKCPSEG} (h : seg ∈ segs) :
    seg.sn.toNat ∈ sns segs :=
  List.mem_map_of_mem h

theorem sns_eq_cores (segs : List IKCPSEG) : sns segs = sns (cores segs) := by
  unfold sns cores
  rw [List.map_map]
  rfl

theorem cmd_of_core {a b : IKCPSEG} (h : a.core = b.core) : a.cmd = b.cmd := by
  have hcmd := congrArg IKCPSEG.cmd h
  exact hcmd

theorem piece_of_core {a b : IKCPSEG} (h : a.core = b.core) : piece a = piece b := by
  have hpiece := congrArg piece h
  exact hpiece

/-- Segments with their numbers. -/
def items (segs : List IKCPSEG) : List (ℕ × Piece UInt8) :=
  segs.map fun seg => (seg.sn.toNat, piece seg)

@[simp] theorem items_nil : items [] = [] := rfl

@[simp] theorem items_cons (seg : IKCPSEG) (segs : List IKCPSEG) :
    items (seg :: segs) = (seg.sn.toNat, piece seg) :: items segs := rfl

theorem mem_sns_of_items {segs : List IKCPSEG} {n : ℕ} {x : Piece UInt8}
    (h : (n, x) ∈ items segs) : n ∈ sns segs := by
  obtain ⟨seg, hs, heq⟩ := List.mem_map.mp h
  obtain ⟨rfl, rfl⟩ := Prod.mk.inj heq
  exact mem_sns hs

theorem mem_items_of_sns {segs : List IKCPSEG} {n : ℕ} (h : n ∈ sns segs) :
    ∃ x, (n, x) ∈ items segs := by
  obtain ⟨seg, hs, rfl⟩ := List.mem_map.mp h
  exact ⟨piece seg, List.mem_map_of_mem hs⟩

abbrev Ascending (segs : List IKCPSEG) : Prop := (sns segs).Pairwise (· < ·)

theorem ascending_cons {seg : IKCPSEG} {segs : List IKCPSEG} :
    Ascending (seg :: segs) ↔ (∀ n ∈ sns segs, seg.sn.toNat < n) ∧ Ascending segs :=
  List.pairwise_cons

/-! ## The abstraction -/

/-- The peer that a block stands for, given the pieces ever submitted to it, the
pieces already taken from it and the facts it has put on the network. -/
def view (stream taken : List (Piece UInt8)) (said : Set (Fact (Piece UInt8)))
    (kcp : IKCPCB) : Peer (Piece UInt8) where
  stream := stream
  opened := kcp.sndNxt.toNat
  pending := {n | n ∈ sns kcp.sndBuf}
  received := taken ++ kcp.rcvQueue.map piece
  early := {e | e ∈ items kcp.rcvBuf}
  said := said

/-- The sending half: the queue is what of the stream was not opened, the buffer
holds opened pieces in order, at most a window of them. -/
structure SendShape (stream : List (Piece UInt8)) (kcp : IKCPCB) : Prop where
  queue : kcp.sndQueue.map piece = stream.drop kcp.sndNxt.toNat
  nxt_le : kcp.sndNxt.toNat ≤ stream.length
  nxt_lt : kcp.sndNxt.toNat < halfCircle
  ascending : Ascending kcp.sndBuf
  below : ∀ n ∈ sns kcp.sndBuf, n < kcp.sndNxt.toNat
  content : ∀ seg ∈ cores kcp.sndBuf, stream[seg.sn.toNat]? = some (piece seg)
  una : kcp.sndUna = (ikcpShrinkBuf kcp).sndUna
  window : kcp.sndNxt.toNat ≤ kcp.sndUna.toNat + plugWnd

/-- The receiving half while a move from the buffer to the queue may be due. -/
structure RecvLoose (taken : List (Piece UInt8)) (kcp : IKCPCB) : Prop where
  wnd : kcp.rcvWnd.toNat = plugWnd
  nxt : kcp.rcvNxt.toNat = taken.length + kcp.rcvQueue.length
  nxt_lt : kcp.rcvNxt.toNat < halfCircle
  count : kcp.nrcvQue = kcp.rcvQueue.length
  count_le : kcp.nrcvQue ≤ plugWnd
  ascending : Ascending kcp.rcvBuf
  ahead : ∀ n ∈ sns kcp.rcvBuf, kcp.rcvNxt.toNat ≤ n ∧ n + 1 < halfCircle
  acks : ∀ ack ∈ kcp.acklist,
    ack.1.toNat < kcp.rcvNxt.toNat ∨ ack.1.toNat ∈ sns kcp.rcvBuf

/-- The receiving half: the queue follows what was taken, the buffer lies ahead of
it, and only a full queue keeps the next piece waiting. -/
structure RecvShape (taken : List (Piece UInt8)) (kcp : IKCPCB) : Prop
    extends RecvLoose taken kcp where
  ready : ∀ seg ∈ kcp.rcvBuf.head?, seg.sn = kcp.rcvNxt → kcp.nrcvQue = plugWnd

theorem view_accepted {stream taken : List (Piece UInt8)} {said : Set (Fact (Piece UInt8))}
    {kcp : IKCPCB} (h : RecvLoose taken kcp) {n : ℕ} :
    (view stream taken said kcp).Accepted n ↔
      n < kcp.rcvNxt.toNat ∨ n ∈ sns kcp.rcvBuf := by
  have hlen : (view stream taken said kcp).received.length = kcp.rcvNxt.toNat := by
    rw [h.nxt]
    simp [view]
  unfold Peer.Accepted
  rw [hlen]
  constructor
  · rintro (hn | ⟨x, hx⟩)
    · exact Or.inl hn
    · exact Or.inr (mem_sns_of_items hx)
  · rintro (hn | hn)
    · exact Or.inl hn
    · exact Or.inr (mem_items_of_sns hn)

/-! ## Facts carried by segments -/

/-- The number a fact speaks about, so that a small fact has a small bound. -/
def reach : Fact (Piece UInt8) → ℕ
  | .data n _ => n + 1
  | .ack n => n + 1
  | .cum n => n

/-- Everything a segment asserts is among the facts `heard`. -/
structure Heard (heard : Set (Fact (Piece UInt8))) (seg : IKCPSEG) : Prop where
  cum : .cum seg.una.toNat ∈ heard
  data : seg.cmd = ikcpCmdPush → .data seg.sn.toNat (piece seg) ∈ heard
  ack : seg.cmd = ikcpCmdAck → .ack seg.sn.toNat ∈ heard

theorem Heard.mono {heard heard' : Set (Fact (Piece UInt8))} (hsub : heard ⊆ heard')
    {seg : IKCPSEG} (h : Heard heard seg) : Heard heard' seg :=
  ⟨hsub h.cum, fun hc => hsub (h.data hc), fun hc => hsub (h.ack hc)⟩

/-- What a peer may assert with a segment. -/
structure Sayable (p : Peer (Piece UInt8)) (seg : IKCPSEG) : Prop where
  cum : seg.una.toNat ≤ p.received.length
  data : seg.cmd = ikcpCmdPush →
    seg.sn.toNat < p.opened ∧ p.stream[seg.sn.toNat]? = some (piece seg)
  ack : seg.cmd = ikcpCmdAck → p.Accepted seg.sn.toNat

/-- A peer can put a sayable segment on the network. -/
theorem say_segment {heard : Set (Fact (Piece UInt8))} {p : Peer (Piece UInt8)} {seg : IKCPSEG}
    (h : Sayable p seg) :
    ∃ said, Moves heard p { p with said := said } ∧ p.said ⊆ said ∧ Heard said seg := by
  have hne : ikcpCmdPush ≠ ikcpCmdAck := by decide
  have hcum : Move heard p { p with said := insert (.cum seg.una.toNat) p.said } :=
    Move.sayCum p _ h.cum
  by_cases hpush : seg.cmd = ikcpCmdPush
  · obtain ⟨hlt, hget⟩ := h.data hpush
    refine ⟨_, (Relation.ReflTransGen.single hcum).tail (Move.sayData _ _ _ hlt hget), ?_, ?_⟩
    · exact (Set.subset_insert _ _).trans (Set.subset_insert _ _)
    · refine ⟨?_, fun _ => Set.mem_insert _ _, fun hack => absurd (hpush.symm.trans hack) hne⟩
      exact Set.mem_insert_of_mem _ (Set.mem_insert _ _)
  · by_cases hack : seg.cmd = ikcpCmdAck
    · have hacc : Peer.Accepted { p with said := insert (.cum seg.una.toNat) p.said }
          seg.sn.toNat := h.ack hack
      refine ⟨_, (Relation.ReflTransGen.single hcum).tail (Move.sayAck _ _ hacc), ?_, ?_⟩
      · exact (Set.subset_insert _ _).trans (Set.subset_insert _ _)
      · refine ⟨?_, fun hc => absurd hc hpush, fun _ => Set.mem_insert _ _⟩
        exact Set.mem_insert_of_mem _ (Set.mem_insert _ _)
    · refine ⟨_, Relation.ReflTransGen.single hcum, Set.subset_insert _ _, ?_⟩
      exact ⟨Set.mem_insert _ _, fun hc => absurd hc hpush, fun hc => absurd hc hack⟩

theorem say_segments {heard : Set (Fact (Piece UInt8))} {p : Peer (Piece UInt8)}
    {segs : List IKCPSEG} (h : ∀ seg ∈ segs, Sayable p seg) :
    ∃ said, Moves heard p { p with said := said } ∧ p.said ⊆ said ∧
      ∀ seg ∈ segs, Heard said seg := by
  induction segs generalizing p with
  | nil => exact ⟨p.said, Relation.ReflTransGen.refl, subset_rfl, by simp⟩
  | cons seg segs ih =>
      obtain ⟨said, hfirst, hsub, hheard⟩ := say_segment (h seg List.mem_cons_self)
      have hrest : ∀ s ∈ segs, Sayable { p with said := said } s := by
        intro s hs
        obtain ⟨hcum, hdata, hack⟩ := h s (List.mem_cons_of_mem _ hs)
        exact ⟨hcum, hdata, hack⟩
      obtain ⟨said', hmoves, hsub', hall⟩ := ih hrest
      refine ⟨said', hfirst.trans hmoves, hsub.trans hsub', ?_⟩
      intro s hs
      rcases List.mem_cons.mp hs with rfl | hs
      · exact hheard.mono hsub'
      · exact hall s hs

end UdpKcp.Link
