import Mathlib.Data.List.Basic
import Mathlib.Data.List.Infix

/-! # Countdown framing

A message is cut into pieces of at most `mss` items, numbered downwards so that
the last piece carries number zero. A receiver that takes pieces up to the first
zero gets one message back, and a stream of framed messages can be read in only
one way.
-/

namespace Framing

variable {β : Type*}

/-- A numbered piece of a message. -/
abbrev Piece (β : Type*) := Nat × List β

/-- `count` consecutive pieces of `message`, the first one numbered `count - 1`. -/
def pieces (mss : Nat) : Nat → List β → List (Piece β)
  | 0, _ => []
  | count + 1, message =>
      (count, message.take mss) :: pieces mss count (message.drop mss)

/-- Pieces a message of this length is cut into: at least one. -/
def pieceCount (mss length : Nat) : Nat :=
  if length ≤ mss then 1 else (length + mss - 1) / mss

def fragments (mss : Nat) (message : List β) : List (Piece β) :=
  pieces mss (pieceCount mss message.length) message

/-- The pieces of the first message of a queue, up to and including number zero. -/
def firstMessage : List (Piece β) → List (Piece β)
  | [] => []
  | p :: rest => if p.1 = 0 then [p] else p :: firstMessage rest

def payload (ps : List (Piece β)) : List β := ps.flatMap Prod.snd

@[simp] theorem payload_nil : payload ([] : List (Piece β)) = [] := rfl

@[simp] theorem payload_cons (p : Piece β) (ps : List (Piece β)) :
    payload (p :: ps) = p.2 ++ payload ps := by
  simp [payload]

@[simp] theorem pieces_length (mss count : Nat) (message : List β) :
    (pieces mss count message).length = count := by
  induction count generalizing message with
  | zero => rfl
  | succ count ih => simp [pieces, ih]

theorem pieceCount_pos {mss : Nat} (hmss : 0 < mss) (length : Nat) :
    0 < pieceCount mss length := by
  unfold pieceCount
  split
  · exact Nat.one_pos
  · exact Nat.div_pos (by omega) hmss

theorem pieceCount_covers {mss : Nat} (hmss : 0 < mss) (length : Nat) :
    length ≤ pieceCount mss length * mss := by
  unfold pieceCount
  split
  · omega
  · have hdiv := Nat.div_add_mod (length + mss - 1) mss
    have hmod := Nat.mod_lt (length + mss - 1) hmss
    rw [Nat.mul_comm]
    omega

/-- No piece of a message that has bytes is empty. -/
theorem pieceCount_tight {mss length : Nat} (hpos : 0 < length) :
    pieceCount mss length * mss < length + mss := by
  unfold pieceCount
  split
  · omega
  · have hdiv := Nat.div_mul_le_self (length + mss - 1) mss
    omega

/-- Joining the pieces gives the message back once they cover it. -/
theorem payload_pieces {mss count : Nat} {message : List β}
    (hcover : message.length ≤ count * mss) : payload (pieces mss count message) = message := by
  induction count generalizing message with
  | zero =>
      have hempty : message.length = 0 := by omega
      simp [pieces, List.eq_nil_of_length_eq_zero hempty]
  | succ count ih =>
      have hrest : (message.drop mss).length ≤ count * mss := by
        rw [List.length_drop, Nat.succ_mul] at *
        omega
      simp [pieces, ih hrest]

theorem payload_fragments {mss : Nat} (hmss : 0 < mss) (message : List β) :
    payload (fragments mss message) = message :=
  payload_pieces (pieceCount_covers hmss message.length)

theorem fragments_ne_nil {mss : Nat} (hmss : 0 < mss) (message : List β) :
    fragments mss message ≠ [] := by
  intro h
  have hlen := congrArg List.length h
  have hpos := pieceCount_pos hmss message.length
  simp only [fragments, pieces_length, List.length_nil] at hlen
  omega

theorem pieces_length_le {mss count : Nat} {message : List β} {p : Piece β}
    (hp : p ∈ pieces mss count message) : p.2.length ≤ mss ∧ p.1 < count := by
  induction count generalizing message with
  | zero => simp [pieces] at hp
  | succ count ih =>
      simp only [pieces, List.mem_cons] at hp
      rcases hp with rfl | hp
      · simp only [List.length_take]
        omega
      · have h := ih hp
        omega

/-- A framed message followed by anything is cut exactly after its last piece. -/
theorem firstMessage_pieces_append (mss count : Nat) (message : List β)
    (rest : List (Piece β)) :
    firstMessage (pieces mss (count + 1) message ++ rest) =
      pieces mss (count + 1) message := by
  induction count generalizing message with
  | zero => simp [pieces, firstMessage]
  | succ count ih =>
      rw [pieces]
      simp only [List.cons_append, firstMessage, Nat.add_one_ne_zero, if_false]
      rw [ih]

theorem firstMessage_fragments_append {mss : Nat} (hmss : 0 < mss) (message : List β)
    (rest : List (Piece β)) :
    firstMessage (fragments mss message ++ rest) = fragments mss message := by
  have hpos := pieceCount_pos hmss message.length
  obtain ⟨count, hcount⟩ : ∃ count, pieceCount mss message.length = count + 1 :=
    ⟨pieceCount mss message.length - 1, by omega⟩
  unfold fragments
  rw [hcount]
  exact firstMessage_pieces_append mss count message rest

/-- The head of a framed message tells how many pieces follow it. -/
theorem fragments_head {mss : Nat} (hmss : 0 < mss) (message : List β) :
    ∃ x rest, fragments mss message = (pieceCount mss message.length - 1, x) :: rest := by
  have hpos := pieceCount_pos hmss message.length
  obtain ⟨count, hcount⟩ : ∃ count, pieceCount mss message.length = count + 1 :=
    ⟨pieceCount mss message.length - 1, by omega⟩
  refine ⟨message.take mss, pieces mss count (message.drop mss), ?_⟩
  unfold fragments
  rw [hcount, pieces]
  simp

/-- A queue that is a prefix of a framed stream and at least as long as its head
announces holds the whole first message. -/
theorem fragments_prefix_of_head {mss : Nat} (hmss : 0 < mss) {message : List β}
    {queue rest : List (Piece β)} (hq : queue <+: fragments mss message ++ rest)
    {p : Piece β} {tail : List (Piece β)} (hhead : queue = p :: tail)
    (hlen : p.1 < queue.length) : fragments mss message <+: queue := by
  obtain ⟨x, more, hfr⟩ := fragments_head hmss message
  have hp : p.1 = pieceCount mss message.length - 1 := by
    rw [hhead, hfr, List.cons_append, List.cons_prefix_cons] at hq
    rw [hq.1]
  apply List.prefix_of_prefix_length_le (List.prefix_append _ rest) hq
  have hpos := pieceCount_pos hmss message.length
  simp only [fragments, pieces_length]
  omega

/-- Streams of framed messages are read in one way only. -/
theorem prefix_of_flatMap_prefix {mss : Nat} (hmss : 0 < mss) {xs ys : List (List β)}
    (h : xs.flatMap (fragments mss) <+: ys.flatMap (fragments mss)) : xs <+: ys := by
  induction xs generalizing ys with
  | nil => exact List.nil_prefix
  | cons x xs ih =>
      cases ys with
      | nil =>
          have hnil := List.prefix_nil.mp h
          rw [List.flatMap_cons, List.append_eq_nil_iff] at hnil
          exact absurd hnil.1 (fragments_ne_nil hmss x)
      | cons y ys =>
          rw [List.flatMap_cons, List.flatMap_cons] at h
          have hx : fragments mss x = fragments mss y := by
            rw [← firstMessage_fragments_append hmss x (xs.flatMap (fragments mss)),
              ← firstMessage_fragments_append hmss y (ys.flatMap (fragments mss))]
            obtain ⟨tail, htail⟩ := h
            rw [← htail, List.append_assoc, firstMessage_fragments_append hmss,
              firstMessage_fragments_append hmss]
          have hxy : x = y := by
            rw [← payload_fragments hmss x, hx, payload_fragments hmss y]
          subst hxy
          rw [List.prefix_append_right_inj] at h
          exact List.cons_prefix_cons.mpr ⟨rfl, ih h⟩

end Framing
