import Mathlib.Logic.Relation
import Mathlib.Logic.Function.Basic
import Mathlib.Data.Set.Insert
import Mathlib.Data.List.Infix

/-! # Selective repeat over an unreliable network

Two peers send each other a growing stream of items. Each keeps the numbers it
has opened and not yet seen acknowledged, the items it has received in order,
and the items that arrived early. Everything a peer has ever put on the network
is a set of facts; a fact may be heard never, once or many times, and in any
order, which is all that loss, duplication and reordering can do.

The moves of one peer are given one by one, so that an implementation whose
operation does many of them at once refines a sequence of moves.
-/

namespace SelectiveRepeat

variable {α : Type*}

/-- What a datagram can assert: item `n` is `x`; item `n` was accepted; every item
below `n` was received. -/
inductive Fact (α : Type*) where
  | data (n : ℕ) (x : α)
  | ack (n : ℕ)
  | cum (n : ℕ)

structure Peer (α : Type*) where
  stream : List α
  opened : ℕ
  pending : Set ℕ
  received : List α
  early : Set (ℕ × α)
  said : Set (Fact α)

def Peer.start : Peer α where
  stream := []
  opened := 0
  pending := ∅
  received := []
  early := ∅
  said := ∅

def Peer.Accepted (p : Peer α) (n : ℕ) : Prop :=
  n < p.received.length ∨ ∃ x, (n, x) ∈ p.early

/-- One elementary move of a peer that can hear the facts in `heard`. -/
inductive Move (heard : Set (Fact α)) : Peer α → Peer α → Prop where
  | submit (p : Peer α) (xs : List α) : Move heard p { p with stream := p.stream ++ xs }
  | openNext (p : Peer α) (h : p.opened < p.stream.length) :
      Move heard p { p with opened := p.opened + 1, pending := insert p.opened p.pending }
  | sayData (p : Peer α) (n : ℕ) (x : α) (hn : n < p.opened) (hx : p.stream[n]? = some x) :
      Move heard p { p with said := insert (.data n x) p.said }
  | sayAck (p : Peer α) (n : ℕ) (h : p.Accepted n) :
      Move heard p { p with said := insert (.ack n) p.said }
  | sayCum (p : Peer α) (n : ℕ) (h : n ≤ p.received.length) :
      Move heard p { p with said := insert (.cum n) p.said }
  | hearAck (p : Peer α) (n : ℕ) (h : .ack n ∈ heard) :
      Move heard p { p with pending := p.pending \ {n} }
  | hearCum (p : Peer α) (n : ℕ) (h : .cum n ∈ heard) :
      Move heard p { p with pending := { i ∈ p.pending | n ≤ i } }
  | hearData (p : Peer α) (n : ℕ) (x : α) (h : .data n x ∈ heard) :
      Move heard p { p with early := insert (n, x) p.early }
  | promote (p : Peer α) (x : α) (h : (p.received.length, x) ∈ p.early) :
      Move heard p
        { p with
          received := p.received ++ [x]
          early := p.early \ {(p.received.length, x)} }

abbrev Moves (heard : Set (Fact α)) : Peer α → Peer α → Prop :=
  Relation.ReflTransGen (Move heard)

/-- Several openings in a row. -/
theorem moves_open (heard : Set (Fact α)) (p : Peer α) (k : ℕ)
    (h : p.opened + k ≤ p.stream.length) :
    Moves heard p
      { p with
        opened := p.opened + k
        pending := p.pending ∪ {n | p.opened ≤ n ∧ n < p.opened + k} } := by
  induction k with
  | zero =>
      have hempty : {n | p.opened ≤ n ∧ n < p.opened + 0} = (∅ : Set ℕ) := by
        ext n
        simp only [Set.mem_ofPred_eq, Set.mem_empty_iff_false, iff_false]
        omega
      rw [hempty, Set.union_empty]
      exact Relation.ReflTransGen.refl
  | succ k ih =>
      have hset : p.pending ∪ {n | p.opened ≤ n ∧ n < p.opened + (k + 1)} =
          insert (p.opened + k) (p.pending ∪ {n | p.opened ≤ n ∧ n < p.opened + k}) := by
        ext n
        simp only [Set.mem_union, Set.mem_ofPred_eq, Set.mem_insert_iff]
        by_cases hn : n ∈ p.pending
        · simp [hn]
        · simp only [hn, false_or]
          omega
      have hlt : p.opened + k < p.stream.length := by omega
      rw [hset]
      exact (ih (by omega)).tail (Move.openNext _ hlt)

/-! ## One direction of the exchange -/

/-- What relates a sender to the receiver at the other end. -/
structure Half (p q : Peer α) : Prop where
  opened_le : p.opened ≤ p.stream.length
  pending_lt : ∀ n ∈ p.pending, n < p.opened
  data_said : ∀ n x, .data n x ∈ p.said → n < p.opened ∧ p.stream[n]? = some x
  early_of : ∀ n x, (n, x) ∈ q.early → n < p.opened ∧ p.stream[n]? = some x
  received_prefix : q.received <+: p.stream.take p.opened
  ack_said : ∀ n, .ack n ∈ q.said → q.Accepted n
  cum_said : ∀ n, .cum n ∈ q.said → n ≤ q.received.length
  covered : ∀ n < p.opened, n ∈ p.pending ∨ q.Accepted n

theorem Half.start : Half (Peer.start : Peer α) Peer.start where
  opened_le := Nat.le_refl 0
  pending_lt := by simp [Peer.start]
  data_said := by simp [Peer.start]
  early_of := by simp [Peer.start]
  received_prefix := List.prefix_rfl
  ack_said := by simp [Peer.start]
  cum_said := by simp [Peer.start]
  covered := by simp [Peer.start]

theorem Half.received_length_le {p q : Peer α} (h : Half p q) :
    q.received.length ≤ p.opened := by
  have hlen := h.received_prefix.length_le
  rw [List.length_take] at hlen
  omega

theorem Half.received_stream {p q : Peer α} (h : Half p q) : q.received <+: p.stream :=
  h.received_prefix.trans (List.take_prefix _ _)

/-- Nothing is accepted that was not opened. -/
theorem Half.accepted_lt {p q : Peer α} (h : Half p q) {n : ℕ} (hn : q.Accepted n) :
    n < p.opened := by
  rcases hn with hn | ⟨x, hx⟩
  · exact Nat.lt_of_lt_of_le hn h.received_length_le
  · exact (h.early_of n x hx).1

/-- An early item with the next number is the next item of the stream. -/
theorem Half.promote_prefix {p q : Peer α} (h : Half p q) {x : α}
    (hx : (q.received.length, x) ∈ q.early) :
    q.received ++ [x] <+: p.stream.take p.opened := by
  obtain ⟨hlt, hget⟩ := h.early_of _ x hx
  have htake : (p.stream.take p.opened)[q.received.length]? = some x := by
    rw [List.getElem?_take, if_pos hlt, hget]
  obtain ⟨tail, htail⟩ := h.received_prefix
  rw [← htail] at htake ⊢
  rw [List.getElem?_append_right (Nat.le_refl _), Nat.sub_self] at htake
  cases tail with
  | nil => simp at htake
  | cons y tail =>
      simp only [List.getElem?_cons_zero, Option.some.injEq] at htake
      exact ⟨tail, by simp [htake]⟩

/-- Accepting is permanent. -/
theorem Move.accepted_mono {heard : Set (Fact α)} {p p' : Peer α} (h : Move heard p p') {n : ℕ}
    (hn : p.Accepted n) : p'.Accepted n := by
  cases h with
  | hearData n' x' h' =>
      rcases hn with hn | ⟨x, hx⟩
      · exact Or.inl hn
      · exact Or.inr ⟨x, Set.mem_insert_of_mem _ hx⟩
  | promote x' h' =>
      rcases hn with hn | ⟨x, hx⟩
      · refine Or.inl ?_
        simp only [List.length_append, List.length_singleton]
        omega
      · by_cases heq : n = p.received.length
        · refine Or.inl ?_
          simp only [List.length_append, List.length_singleton]
          omega
        · refine Or.inr ⟨x, hx, ?_⟩
          intro hmem
          exact heq (congrArg Prod.fst (Set.mem_singleton_iff.mp hmem))
  | submit | openNext | sayData | sayAck | sayCum | hearAck | hearCum => exact hn

/-- What was received stays received. -/
theorem Move.received_mono {heard : Set (Fact α)} {p p' : Peer α} (h : Move heard p p') :
    p.received <+: p'.received := by
  cases h with
  | promote x h' => exact List.prefix_append _ _
  | submit | openNext | sayData | sayAck | sayCum | hearAck | hearCum | hearData =>
      exact List.prefix_rfl

theorem received_mono {heard : Set (Fact α)} {p p' : Peer α} (h : Moves heard p p') :
    p.received <+: p'.received := by
  induction h with
  | refl => exact List.prefix_rfl
  | tail _ hstep ih => exact ih.trans hstep.received_mono

theorem getElem?_append_of_lt {xs ys : List α} {n : ℕ} {x : α} (h : xs[n]? = some x) :
    (xs ++ ys)[n]? = some x := by
  obtain ⟨hlt, -⟩ := List.getElem?_eq_some_iff.mp h
  rw [List.getElem?_append_left hlt, h]

/-- A move of the sender, which hears what the receiver has said. -/
theorem Half.sender_move {p p' q : Peer α} (h : Half p q) (hm : Move q.said p p') :
    Half p' q := by
  obtain ⟨hopen, hpend, hdata, hearly, hrec, hack, hcum, hcov⟩ := h
  cases hm with
  | submit xs =>
      refine ⟨?_, hpend, ?_, ?_, ?_, hack, hcum, hcov⟩
      · simp only [List.length_append]
        omega
      · exact fun n x hx => ⟨(hdata n x hx).1, getElem?_append_of_lt (hdata n x hx).2⟩
      · exact fun n x hx => ⟨(hearly n x hx).1, getElem?_append_of_lt (hearly n x hx).2⟩
      · rwa [List.take_append_of_le_length hopen]
  | openNext hlt =>
      refine ⟨hlt, ?_, ?_, ?_, ?_, hack, hcum, ?_⟩
      · intro n hn
        rcases Set.mem_insert_iff.mp hn with rfl | hn
        · exact Nat.lt_succ_self _
        · exact Nat.lt_succ_of_lt (hpend n hn)
      · exact fun n x hx => ⟨Nat.lt_succ_of_lt (hdata n x hx).1, (hdata n x hx).2⟩
      · exact fun n x hx => ⟨Nat.lt_succ_of_lt (hearly n x hx).1, (hearly n x hx).2⟩
      · exact hrec.trans (List.take_prefix_take_left (Nat.le_succ _))
      · intro n hn
        rcases Nat.lt_succ_iff_lt_or_eq.mp hn with hn | rfl
        · exact (hcov n hn).imp_left (Set.mem_insert_of_mem _)
        · exact Or.inl (Set.mem_insert _ _)
  | sayData n x hn hx =>
      refine ⟨hopen, hpend, ?_, hearly, hrec, hack, hcum, hcov⟩
      intro m y hy
      rcases Set.mem_insert_iff.mp hy with heq | hy
      · cases heq
        exact ⟨hn, hx⟩
      · exact hdata m y hy
  | sayAck n hn =>
      refine ⟨hopen, hpend, fun m y hy => ?_, hearly, hrec, hack, hcum, hcov⟩
      exact hdata m y ((Set.mem_insert_iff.mp hy).resolve_left (by simp))
  | sayCum n hn =>
      refine ⟨hopen, hpend, fun m y hy => ?_, hearly, hrec, hack, hcum, hcov⟩
      exact hdata m y ((Set.mem_insert_iff.mp hy).resolve_left (by simp))
  | hearAck n hn =>
      refine ⟨hopen, fun m hm => hpend m hm.1, hdata, hearly, hrec, hack, hcum, ?_⟩
      intro m hm
      by_cases heq : m = n
      · exact Or.inr (heq ▸ hack n hn)
      · exact (hcov m hm).imp_left fun hmem => ⟨hmem, heq⟩
  | hearCum n hn =>
      refine ⟨hopen, fun m hm => hpend m hm.1, hdata, hearly, hrec, hack, hcum, ?_⟩
      intro m hm
      by_cases hle : n ≤ m
      · exact (hcov m hm).imp_left fun hmem => ⟨hmem, hle⟩
      · have hlen := hcum n hn
        exact Or.inr (Or.inl (by omega))
  | hearData n x hx => exact ⟨hopen, hpend, hdata, hearly, hrec, hack, hcum, hcov⟩
  | promote x hx => exact ⟨hopen, hpend, hdata, hearly, hrec, hack, hcum, hcov⟩

/-- A move of the receiver, which hears what the sender has said. -/
theorem Half.receiver_move {p q q' : Peer α} (h : Half p q) (hm : Move p.said q q') :
    Half p q' := by
  have hmono : ∀ n, q.Accepted n → q'.Accepted n := fun n hn => hm.accepted_mono hn
  have hcov : ∀ n < p.opened, n ∈ p.pending ∨ q'.Accepted n := fun n hn =>
    (h.covered n hn).imp_right (hmono n)
  cases hm with
  | submit xs => exact { h with covered := hcov }
  | openNext hlt => exact { h with covered := hcov }
  | hearAck n hn => exact { h with covered := hcov }
  | hearCum n hn => exact { h with covered := hcov }
  | sayData n x hn hx =>
      refine { h with covered := hcov, ack_said := fun m hm => ?_, cum_said := fun m hm => ?_ }
      · exact h.ack_said m ((Set.mem_insert_iff.mp hm).resolve_left (by simp))
      · exact h.cum_said m ((Set.mem_insert_iff.mp hm).resolve_left (by simp))
  | sayAck n hn =>
      refine { h with covered := hcov, ack_said := fun m hm => ?_, cum_said := fun m hm => ?_ }
      · rcases Set.mem_insert_iff.mp hm with heq | hm
        · cases heq
          exact hn
        · exact h.ack_said m hm
      · exact h.cum_said m ((Set.mem_insert_iff.mp hm).resolve_left (by simp))
  | sayCum n hn =>
      refine { h with covered := hcov, ack_said := fun m hm => ?_, cum_said := fun m hm => ?_ }
      · exact h.ack_said m ((Set.mem_insert_iff.mp hm).resolve_left (by simp))
      · rcases Set.mem_insert_iff.mp hm with heq | hm
        · cases heq
          exact hn
        · exact h.cum_said m hm
  | hearData n x hx =>
      refine { h with
        covered := hcov, early_of := fun m y hy => ?_, ack_said := fun m hm => ?_ }
      · rcases Set.mem_insert_iff.mp hy with heq | hy
        · cases heq
          exact h.data_said n x hx
        · exact h.early_of m y hy
      · exact hmono m (h.ack_said m hm)
  | promote x hx =>
      refine { h with
        covered := hcov
        early_of := fun m y hy => h.early_of m y hy.1
        received_prefix := h.promote_prefix hx
        ack_said := fun m hm => hmono m (h.ack_said m hm)
        cum_said := fun m hm => ?_ }
      have hlen := h.cum_said m hm
      simp only [List.length_append, List.length_singleton]
      omega

theorem Half.sender_moves {p p' q : Peer α} (h : Half p q) (hm : Moves q.said p p') :
    Half p' q := by
  induction hm with
  | refl => exact h
  | tail _ hstep ih => exact ih.sender_move hstep

theorem Half.receiver_moves {p q q' : Peer α} (h : Half p q) (hm : Moves p.said q q') :
    Half p q' := by
  induction hm with
  | refl => exact h
  | tail _ hstep ih => exact ih.receiver_move hstep

/-! ## Both directions -/

inductive Side where
  | left
  | right
  deriving DecidableEq, Repr

def Side.other : Side → Side
  | .left => .right
  | .right => .left

@[simp] theorem Side.other_other (s : Side) : s.other.other = s := by cases s <;> rfl

theorem Side.other_ne (s : Side) : s.other ≠ s := by cases s <;> simp [Side.other]

abbrev Pair (α : Type*) := Side → Peer α

/-- One peer moves, hearing whatever the other has said so far. -/
inductive Step : Pair α → Pair α → Prop where
  | move (s : Pair α) (side : Side) (p : Peer α) (h : Move (s side.other).said (s side) p) :
      Step s (Function.update s side p)

def Inv (s : Pair α) : Prop := ∀ side, Half (s side) (s side.other)

theorem Inv.start : Inv (fun _ => Peer.start : Pair α) := fun _ => Half.start

/-- Any number of moves of one peer keep both directions. -/
theorem Inv.moves {s : Pair α} (h : Inv s) {side : Side} {p : Peer α}
    (hm : Moves (s side.other).said (s side) p) : Inv (Function.update s side p) := by
  intro side'
  by_cases heq : side' = side
  · subst heq
    rw [Function.update_self, Function.update_of_ne (Side.other_ne _)]
    exact (h side').sender_moves hm
  · have hother : side'.other = side := by
      cases side' <;> cases side <;> simp_all [Side.other]
    rw [hother, Function.update_self, Function.update_of_ne heq]
    subst hother
    rw [Side.other_other] at hm
    exact (h side').receiver_moves hm

theorem Inv.step {s s' : Pair α} (h : Inv s) (hs : Step s s') : Inv s' := by
  cases hs with
  | move side p hm => exact h.moves (Relation.ReflTransGen.single hm)

/-- The invariant holds of every reachable pair. -/
theorem inv_of_reachable {s : Pair α}
    (h : Relation.ReflTransGen Step (fun _ => Peer.start) s) : Inv s := by
  induction h with
  | refl => exact Inv.start
  | tail _ hs ih => exact ih.step hs

end SelectiveRepeat
