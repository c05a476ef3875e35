import UdpKcp.Ikcp.Flush
import UdpKcp.Library.RingHeap
import UdpKcp.Memory.AckList
import UdpKcp.Library.Triple

/-! # The control block in memory

In the source the four queues are intrusive rings of separately allocated
segments, and the ack list is an array that grows by copying. Here the block is
kept that way: every access goes through a pointer and is checked, so a null or
dangling pointer, a second free or an index past the array has no outcome.

The scalar fields are those of the list model's block, whose queues and ack list
are not looked at. `Holds` says which segments and entries they stand for.
-/

namespace UdpKcp.Memory

open Ikcp
open Intrusive (Heap Place Rings front back)
open Triples (Prog Triple)

/-- The queue heads of `struct IKCPCB`. -/
inductive Queue where
  | sndQueue
  | rcvQueue
  | sndBuf
  | rcvBuf
  deriving DecidableEq

/-- A pointer to a `struct IQUEUEHEAD`: a queue head, or the `node` of a segment. -/
abbrev Ptr := Place Queue

/-- `struct IKCPCB` with what its pointers lead to; `bufsize` is the size of the
scratch buffer. -/
structure Block where
  heap : Heap Queue IKCPSEG
  kcp : IKCPCB
  acks : AckList
  bufsize : Nat

abbrev M (α : Type) := Prog Block α

/-! ## Accesses -/

def reading {α : Type} (f : Heap Queue IKCPSEG → Option α) : M α :=
  fun b => (f b.heap).map fun a => (a, b)

def writing (f : Heap Queue IKCPSEG → Option (Heap Queue IKCPSEG)) : M Unit :=
  fun b => (f b.heap).map fun heap => ((), { b with heap := heap })

def getKcp : M IKCPCB := do return (← get).kcp

def setKcp (f : IKCPCB → IKCPCB) : M Unit := modify fun b => { b with kcp := f b.kcp }

/-- The segment around a node. -/
def iqueueEntry (p : Ptr) : M IKCPSEG := reading fun heap => heap.read p

/-- Assignments to fields of a segment. -/
def setEntry (p : Ptr) (seg : IKCPSEG) : M Unit := writing fun heap => heap.write p seg

def nextOf (p : Ptr) : M Ptr := reading fun heap => heap.getNext p

def prevOf (p : Ptr) : M Ptr := reading fun heap => heap.getPrev p

def iqueueInit (node : Ptr) : M Unit := writing fun heap => heap.init node

def iqueueAdd (node head : Ptr) : M Unit := writing fun heap => heap.add node head

def iqueueAddTail (node head : Ptr) : M Unit := writing fun heap => heap.addTail node head

def iqueueDel (entry : Ptr) : M Unit := writing fun heap => heap.del entry

def iqueueDelInit (entry : Ptr) : M Unit := writing fun heap => heap.delInit entry

def iqueueIsEmpty (q : Queue) : M Bool := do
  let next ← nextOf (.head q)
  return decide (next = .head q)

/-- `ikcp_segment_new`, with allocation succeeding, and the fields assigned next. -/
def segmentNew (seg : IKCPSEG) : M Ptr :=
  fun b => some ((b.heap.alloc seg).1, { b with heap := (b.heap.alloc seg).2 })

def segmentDelete (p : Ptr) : M Unit := writing fun heap => heap.free p

/-- `ikcp_ack_push`. -/
def ackPush (sn ts : UInt32) : M Unit :=
  fun b => (b.acks.push sn ts).map fun acks => ((), { b with acks := acks })

/-- `ikcp_ack_get`. -/
def ackGet (p : Nat) : M (UInt32 × UInt32) := fun b => (b.acks.get p).map fun ack => (ack, b)

/-- Fuel for a walk over a queue, which has no more segments than were allocated. -/
def walkFuel : M Nat := do return (← get).heap.top + 1

/-! ## What a block holds -/

/-- The segments in each queue with their addresses, the allocated segments that
are in none, the scalar fields and the pending acknowledgements. -/
structure Holds (own : Queue → List (Nat × IKCPSEG)) (loose : List (Nat × IKCPSEG))
    (kcp : IKCPCB) (acks : List (UInt32 × UInt32)) (b : Block) : Prop where
  rings : Rings b.heap own loose
  kcp_eq : b.kcp = kcp
  acks : b.acks.Holds acks
  buffer : b.bufsize = (kcp.mtu.toNat + ikcpOverhead) * 3

/-- The control block of the list model. -/
def blockOf (own : Queue → List (Nat × IKCPSEG)) (kcp : IKCPCB)
    (acks : List (UInt32 × UInt32)) : IKCPCB :=
  { kcp with
    sndQueue := (own .sndQueue).map Prod.snd
    rcvQueue := (own .rcvQueue).map Prod.snd
    sndBuf := (own .sndBuf).map Prod.snd
    rcvBuf := (own .rcvBuf).map Prod.snd
    acklist := acks }

/-- The block stands for `kcp`, and every allocated segment is in a queue or loose. -/
def Stands (loose : List (Nat × IKCPSEG)) (kcp : IKCPCB) (b : Block) : Prop :=
  ∃ own scalars acks, Holds own loose scalars acks b ∧ kcp = blockOf own scalars acks

/-! ## Rules -/

section Rules

variable {own : Queue → List (Nat × IKCPSEG)} {loose : List (Nat × IKCPSEG)} {kcp : IKCPCB}
  {acks : List (UInt32 × UInt32)} {q : Queue} {x : Nat × IKCPSEG} {xs ys : List (Nat × IKCPSEG)}

/-- A read of the heap that the account determines. -/
theorem Holds.reading {α : Type} {f : Heap Queue IKCPSEG → Option α} {a : α}
    (h : ∀ heap, Rings heap own loose → f heap = some a) :
    Triple (Holds own loose kcp acks) (reading f)
      fun r b => r = a ∧ Holds own loose kcp acks b := by
  intro b hb
  refine ⟨a, b, ?_, rfl, hb⟩
  change Option.map _ (f b.heap) = _
  rw [h b.heap hb.rings]
  rfl

/-- A change of the heap that takes one account to another. -/
theorem Holds.writing {f : Heap Queue IKCPSEG → Option (Heap Queue IKCPSEG)}
    {own' : Queue → List (Nat × IKCPSEG)} {loose' : List (Nat × IKCPSEG)}
    (h : ∀ heap, Rings heap own loose → ∃ heap', f heap = some heap' ∧ Rings heap' own' loose') :
    Triple (Holds own loose kcp acks) (writing f) fun _ => Holds own' loose' kcp acks := by
  intro b hb
  obtain ⟨heap', hf, hrings⟩ := h b.heap hb.rings
  refine ⟨(), { b with heap := heap' }, ?_, hrings, hb.kcp_eq, hb.acks, hb.buffer⟩
  change Option.map _ (f b.heap) = _
  rw [hf]
  rfl

theorem getKcp_triple :
    Triple (Holds own loose kcp acks) getKcp fun r b => r = kcp ∧ Holds own loose kcp acks b :=
  Triple.gets fun _ hb => ⟨hb.kcp_eq, hb⟩

theorem setKcp_triple {f : IKCPCB → IKCPCB} (hmtu : (f kcp).mtu = kcp.mtu) :
    Triple (Holds own loose kcp acks) (setKcp f) fun _ => Holds own loose (f kcp) acks := by
  refine Triple.modify fun b hb => ⟨hb.rings, congrArg f hb.kcp_eq, hb.acks, ?_⟩
  rw [hmtu]
  exact hb.buffer

theorem entry_triple (hx : x ∈ own q) :
    Triple (Holds own loose kcp acks) (iqueueEntry (.node x.1))
      fun r b => r = x.2 ∧ Holds own loose kcp acks b :=
  Holds.reading fun _ r => r.read_own hx

theorem entry_loose_triple (hx : x ∈ loose) :
    Triple (Holds own loose kcp acks) (iqueueEntry (.node x.1))
      fun r b => r = x.2 ∧ Holds own loose kcp acks b :=
  Holds.reading fun _ r => r.read_loose hx

theorem setEntry_triple (hown : own q = xs ++ x :: ys) (seg : IKCPSEG) :
    Triple (Holds own loose kcp acks) (setEntry (.node x.1) seg)
      fun _ => Holds (Function.update own q (xs ++ (x.1, seg) :: ys)) loose kcp acks :=
  Holds.writing fun _ r => r.write hown seg

theorem next_head_triple (q : Queue) :
    Triple (Holds own loose kcp acks) (nextOf (.head q))
      fun r b => r = front q (own q) ∧ Holds own loose kcp acks b :=
  Holds.reading fun _ r => r.next_head q

theorem next_triple (hown : own q = xs ++ x :: ys) :
    Triple (Holds own loose kcp acks) (nextOf (.node x.1))
      fun r b => r = front q ys ∧ Holds own loose kcp acks b :=
  Holds.reading fun _ r => r.next_node hown

theorem prev_head_triple (q : Queue) :
    Triple (Holds own loose kcp acks) (prevOf (.head q))
      fun r b => r = back q (own q) ∧ Holds own loose kcp acks b :=
  Holds.reading fun _ r => r.prev_eq (List.append_nil _).symm

theorem prev_triple (hown : own q = xs ++ x :: ys) :
    Triple (Holds own loose kcp acks) (prevOf (.node x.1))
      fun r b => r = back q xs ∧ Holds own loose kcp acks b :=
  Holds.reading fun _ r => r.prev_node hown

theorem init_triple :
    Triple (Holds own (x :: loose) kcp acks) (iqueueInit (.node x.1))
      fun _ => Holds own (x :: loose) kcp acks :=
  Holds.writing fun _ r => r.init

theorem add_triple (hown : own q = xs ++ ys) :
    Triple (Holds own (x :: loose) kcp acks) (iqueueAdd (.node x.1) (back q xs))
      fun _ => Holds (Function.update own q (xs ++ x :: ys)) loose kcp acks :=
  Holds.writing fun _ r => r.add hown

theorem addTail_triple (q : Queue) :
    Triple (Holds own (x :: loose) kcp acks) (iqueueAddTail (.node x.1) (.head q))
      fun _ => Holds (Function.update own q (own q ++ [x])) loose kcp acks :=
  Holds.writing fun _ r => r.addTail q

theorem del_triple (hown : own q = xs ++ x :: ys) :
    Triple (Holds own loose kcp acks) (iqueueDel (.node x.1))
      fun _ => Holds (Function.update own q (xs ++ ys)) (x :: loose) kcp acks :=
  Holds.writing fun _ r => r.del hown

theorem delInit_triple (hown : own q = xs ++ x :: ys) :
    Triple (Holds own loose kcp acks) (iqueueDelInit (.node x.1))
      fun _ => Holds (Function.update own q (xs ++ ys)) (x :: loose) kcp acks :=
  Holds.writing fun _ r => r.delInit hown

theorem delete_triple :
    Triple (Holds own (x :: loose) kcp acks) (segmentDelete (.node x.1))
      fun _ => Holds own loose kcp acks :=
  Holds.writing fun _ r => r.free

theorem new_triple (seg : IKCPSEG) :
    Triple (Holds own loose kcp acks) (segmentNew seg)
      fun p b => ∃ a, p = .node a ∧ Holds own ((a, seg) :: loose) kcp acks b := by
  intro b hb
  refine ⟨_, _, rfl, b.heap.top, rfl, hb.rings.alloc seg, hb.kcp_eq, hb.acks, hb.buffer⟩

theorem ackPush_triple (sn ts : UInt32) :
    Triple (Holds own loose kcp acks) (ackPush sn ts)
      fun _ => Holds own loose kcp (acks ++ [(sn, ts)]) := by
  intro b hb
  obtain ⟨acks', hpush, hacks⟩ := hb.acks.push sn ts
  refine ⟨(), { b with acks := acks' }, ?_, hb.rings, hb.kcp_eq, hacks, hb.buffer⟩
  change Option.map _ (b.acks.push sn ts) = _
  rw [hpush]
  rfl

theorem ackGet_triple {p : Nat} {ack : UInt32 × UInt32} (hp : acks[p]? = some ack) :
    Triple (Holds own loose kcp acks) (ackGet p)
      fun r b => r = ack ∧ Holds own loose kcp acks b := by
  intro b hb
  refine ⟨ack, b, ?_, rfl, hb⟩
  change Option.map _ (b.acks.get p) = _
  rw [hb.acks.get hp]
  rfl

theorem front_eq_head {ys : List (Nat × IKCPSEG)} :
    (front q ys = Place.head q) ↔ ys = [] := by
  cases ys <;> simp

theorem front_ne_head : front q (x :: xs) ≠ Place.head q := by
  simp

theorem back_ne_head : back q (xs ++ [x]) ≠ Place.head q := by
  simp

theorem isEmpty_triple (q : Queue) :
    Triple (Holds own loose kcp acks) (iqueueIsEmpty q)
      fun r b => r = decide (own q = []) ∧ Holds own loose kcp acks b := by
  refine (next_head_triple q).bind_eq _ (Triple.pure fun b hb => ⟨?_, hb⟩)
  rw [decide_eq_decide]
  exact front_eq_head

theorem walkFuel_triple :
    Triple (Holds own loose kcp acks) walkFuel
      fun fuel b => (∀ q, (own q).length < fuel) ∧ Holds own loose kcp acks b :=
  Triple.gets fun _ hb => ⟨fun q => Nat.lt_succ_of_le (hb.rings.length_le q), hb⟩

/-! ### Blocks that stand for a list model -/

theorem Stands.triple {α : Type} {k : IKCPCB} {m : M α} {Q : α → Block → Prop}
    (h : ∀ own scalars acks, k = blockOf own scalars acks →
      Triple (Holds own loose scalars acks) m Q) : Triple (Stands loose k) m Q := by
  rintro b ⟨own, scalars, acks, hb, hk⟩
  exact h own scalars acks hk b hb

theorem Holds.stands {b : Block} (h : Holds own loose kcp acks b) :
    Stands loose (blockOf own kcp acks) b :=
  ⟨own, kcp, acks, h, rfl⟩

@[simp] theorem blockOf_update_sndQueue :
    blockOf (Function.update own .sndQueue xs) kcp acks =
      { blockOf own kcp acks with sndQueue := xs.map Prod.snd } := by
  simp [blockOf]

@[simp] theorem blockOf_update_rcvQueue :
    blockOf (Function.update own .rcvQueue xs) kcp acks =
      { blockOf own kcp acks with rcvQueue := xs.map Prod.snd } := by
  simp [blockOf]

@[simp] theorem blockOf_update_sndBuf :
    blockOf (Function.update own .sndBuf xs) kcp acks =
      { blockOf own kcp acks with sndBuf := xs.map Prod.snd } := by
  simp [blockOf]

@[simp] theorem blockOf_update_rcvBuf :
    blockOf (Function.update own .rcvBuf xs) kcp acks =
      { blockOf own kcp acks with rcvBuf := xs.map Prod.snd } := by
  simp [blockOf]

/-- An assignment to scalar fields. -/
theorem Stands.setKcp {f : IKCPCB → IKCPCB} {k : IKCPCB} (hmtu : ∀ kcp, (f kcp).mtu = kcp.mtu)
    (hf : ∀ own kcp acks, blockOf own (f kcp) acks = f (blockOf own kcp acks)) :
    Triple (Stands loose k) (setKcp f) fun _ => Stands loose (f k) := by
  refine Stands.triple fun own scalars acks hk => ?_
  refine (setKcp_triple (hmtu scalars)).post fun _ b hb => ?_
  rw [hk, ← hf]
  exact hb.stands

end Rules

end UdpKcp.Memory
