import UdpKcp.Ikcp.Types

/-! # The ack list as an array

`ikcp_ack_push` stores `sn` and `ts` in turn at the end of an array, and copies
the array into one of twice the size, or more, when it is full. Flushing resets
the count and keeps the array. Every index is checked against the words that
were allocated.
-/

namespace UdpKcp.Memory

/-- The fields `acklist`, `ackcount` and `ackblock`; the array is null at first
and has `2 * ackblock` words from then on. The counts are those of the source as long as
at most `2 ^ 30` entries are pending, so that `p * 2` of `ikcp_ack_get` is an `int`. -/
structure AckList where
  acklist : Option (List UInt32) := none
  ackcount : Nat := 0
  ackblock : Nat := 0

/-- `words[i] = v`, inside the array. -/
def setWord (words : List UInt32) (i : Nat) (v : UInt32) : Option (List UInt32) :=
  if i < words.length then some (words.set i v) else none

/-- The loop `for (newblock = 8; newblock < newsize; newblock <<= 1)`. -/
def newblockLoop (newsize : Nat) : Nat → Nat → Nat
  | 0, newblock => newblock
  | fuel + 1, newblock =>
      if newblock < newsize then newblockLoop newsize fuel (newblock * 2) else newblock

def newblockFor (newsize : Nat) : Nat := newblockLoop newsize newsize 8

/-- The copy loop, from entry `x` on: `todo` entries are left. -/
def copyLoop (old : List UInt32) : Nat → Nat → List UInt32 → Option (List UInt32)
  | 0, _, new => some new
  | todo + 1, x, new => do
      let sn ← old[x * 2]?
      let new ← setWord new (x * 2) sn
      let ts ← old[x * 2 + 1]?
      let new ← setWord new (x * 2 + 1) ts
      copyLoop old todo (x + 1) new

/-- The array with room for `newsize` entries. What a fresh array contains is not
specified; it is never read before it is written. -/
def AckList.grow (a : AckList) (newsize : Nat) : Option AckList := do
  let newblock := newblockFor newsize
  let fresh := List.replicate (newblock * 2) 0
  let acklist ←
    match a.acklist with
    | some old => copyLoop old a.ackcount 0 fresh
    | none => some fresh
  some { a with acklist := some acklist, ackblock := newblock }

/-- Room for one more entry, the first half of `ikcp_ack_push`. -/
def AckList.reserve (a : AckList) : Option AckList :=
  let newsize := a.ackcount + 1
  if newsize > a.ackblock then a.grow newsize else some a

/-- `ikcp_ack_push`, with allocation succeeding. -/
def AckList.push (a : AckList) (sn ts : UInt32) : Option AckList := do
  let a ← a.reserve
  let words ← a.acklist
  let words ← setWord words (a.ackcount * 2) sn
  let words ← setWord words (a.ackcount * 2 + 1) ts
  some { a with acklist := some words, ackcount := a.ackcount + 1 }

/-- `ikcp_ack_get`. -/
def AckList.get (a : AckList) (p : Nat) : Option (UInt32 × UInt32) := do
  let words ← a.acklist
  let sn ← words[p * 2]?
  let ts ← words[p * 2 + 1]?
  some (sn, ts)

/-! ## The entries it holds -/

/-- The words of some entries, `sn` and `ts` in turn. -/
def ackWords (acks : List (UInt32 × UInt32)) : List UInt32 :=
  acks.flatMap fun ack => [ack.1, ack.2]

@[simp] theorem ackWords_length (acks : List (UInt32 × UInt32)) :
    (ackWords acks).length = 2 * acks.length := by
  induction acks with
  | nil => rfl
  | cons ack acks ih =>
      simp only [ackWords, List.flatMap_cons, List.length_append, List.length_cons] at ih ⊢
      simp only [List.length_nil, ih]
      omega

@[simp] theorem ackWords_concat (acks : List (UInt32 × UInt32)) (ack : UInt32 × UInt32) :
    ackWords (acks ++ [ack]) = ackWords acks ++ [ack.1, ack.2] := by
  simp [ackWords]

/-- The array is allocated with its size, and the entries are its first words. -/
structure AckList.Holds (a : AckList) (acks : List (UInt32 × UInt32)) : Prop where
  count : a.ackcount = acks.length
  room : acks.length ≤ a.ackblock
  absent : a.acklist = none → a.ackblock = 0
  size : ∀ words, a.acklist = some words → words.length = 2 * a.ackblock
  stored : ∀ words, a.acklist = some words → ackWords acks <+: words

theorem AckList.Holds.start : ({} : AckList).Holds [] where
  count := rfl
  room := Nat.le_refl 0
  absent := fun _ => rfl
  size := by simp
  stored := by simp

/-- `kcp->ackcount = 0`. -/
theorem AckList.Holds.reset {a : AckList} {acks : List (UInt32 × UInt32)} (h : a.Holds acks) :
    ({ a with ackcount := 0 } : AckList).Holds [] where
  count := rfl
  room := Nat.zero_le _
  absent := h.absent
  size := h.size
  stored := fun _ _ => List.nil_prefix

/-! ## Growing -/

theorem newblockLoop_ge {newsize fuel newblock : Nat} (hpos : 0 < newblock)
    (hfuel : newsize ≤ newblock + fuel) : newsize ≤ newblockLoop newsize fuel newblock := by
  induction fuel generalizing newblock with
  | zero => simpa [newblockLoop] using hfuel
  | succ fuel ih =>
      unfold newblockLoop
      split
      · exact ih (by omega) (by omega)
      · omega

theorem newblockFor_ge (newsize : Nat) : newsize ≤ newblockFor newsize :=
  newblockLoop_ge (by omega) (by omega)

/-- Words written one entry at a time behind a prefix. -/
theorem setWords {words front : List UInt32} (hfront : front <+: words) {sn ts : UInt32} {i : Nat}
    (hi : front.length = i) (hroom : i + 1 < words.length) :
    ∃ words₁ words₂, setWord words i sn = some words₁ ∧ setWord words₁ (i + 1) ts = some words₂ ∧
      words₂.length = words.length ∧ front ++ [sn, ts] <+: words₂ := by
  obtain ⟨back, rfl⟩ := hfront
  subst hi
  rw [List.length_append] at hroom
  match back, hroom with
  | [], hroom => exact absurd hroom (by simp only [List.length_nil]; omega)
  | [_], hroom => exact absurd hroom (by simp only [List.length_singleton]; omega)
  | x :: y :: back, _ =>
      refine ⟨front ++ sn :: y :: back, front ++ sn :: ts :: back, ?_, ?_, by simp, ⟨back, by simp⟩⟩
      · simp [setWord]
      · simp [setWord]

theorem ackWords_getElem {acks : List (UInt32 × UInt32)} {words : List UInt32}
    (h : ackWords acks <+: words) {p : Nat} {ack : UInt32 × UInt32} (hp : acks[p]? = some ack) :
    words[p * 2]? = some ack.1 ∧ words[p * 2 + 1]? = some ack.2 := by
  obtain ⟨back, rfl⟩ := h
  induction acks generalizing p with
  | nil => simp at hp
  | cons first acks ih =>
      cases p with
      | zero =>
          obtain rfl : first = ack := by simpa using hp
          simp [ackWords]
      | succ p =>
          have hrest := ih (by simpa using hp)
          have htwo : (p + 1) * 2 = p * 2 + 2 := by omega
          simpa [ackWords, htwo] using hrest

theorem copyLoop_eq {old : List UInt32} {done todo : List (UInt32 × UInt32)}
    (hold : ackWords (done ++ todo) <+: old) {new : List UInt32} (hnew : ackWords done <+: new)
    (hroom : 2 * (done.length + todo.length) ≤ new.length) :
    ∃ words, copyLoop old todo.length done.length new = some words ∧
      words.length = new.length ∧ ackWords (done ++ todo) <+: words := by
  induction todo generalizing done new with
  | nil => exact ⟨new, rfl, rfl, by simpa using hnew⟩
  | cons ack todo ih =>
      have hat : (done ++ ack :: todo)[done.length]? = some ack := by simp
      have hget := ackWords_getElem hold hat
      have hi : (ackWords done).length = done.length * 2 := by simp [Nat.mul_comm]
      rw [List.length_cons] at hroom
      obtain ⟨words₁, words₂, hset₁, hset₂, hlen, hpre⟩ :=
        @setWords new (ackWords done) hnew ack.1 ack.2 _ hi (by omega)
      have hsplit : done ++ ack :: todo = (done ++ [ack]) ++ todo := by simp
      have hdone : (done ++ [ack]).length = done.length + 1 := by simp
      rw [hsplit] at hold ⊢
      obtain ⟨words, hcopy, hwords, hall⟩ := ih hold (by simpa using hpre)
        (by rw [hdone, hlen]; omega)
      refine ⟨words, ?_, hwords.trans hlen, hall⟩
      simp only [List.length_cons, copyLoop, hget.1, hget.2, hset₁, hset₂, Option.bind_eq_bind,
        Option.bind_some]
      rw [← hdone]
      exact hcopy

/-! ## Pushing and reading -/

theorem AckList.Holds.grow {a : AckList} {acks : List (UInt32 × UInt32)} (h : a.Holds acks)
    {newsize : Nat} (hsize : acks.length ≤ newsize) :
    ∃ a', a.grow newsize = some a' ∧ a'.Holds acks ∧ a'.ackblock = newblockFor newsize := by
  have hge := newblockFor_ge newsize
  have hfresh : (List.replicate (newblockFor newsize * 2) (0 : UInt32)).length =
      2 * newblockFor newsize := by
    simp [Nat.mul_comm]
  cases hold : a.acklist with
  | none =>
      have hblock := h.absent hold
      have hroom := h.room
      have hnil : acks = [] := List.length_eq_zero_iff.mp (by omega)
      subst hnil
      refine ⟨{ a with
        acklist := some (List.replicate (newblockFor newsize * 2) 0)
        ackblock := newblockFor newsize }, ?_, ⟨h.count, Nat.zero_le _, by simp, ?_, ?_⟩, rfl⟩
      · simp [AckList.grow, hold]
      · intro words hwords
        rw [← Option.some.inj hwords]
        exact hfresh
      · exact fun _ _ => List.nil_prefix
  | some old =>
      obtain ⟨words, hcopy, hlen, hpre⟩ := @copyLoop_eq old [] acks (h.stored old hold) _
        List.nil_prefix (by rw [hfresh, List.length_nil]; omega)
      refine ⟨{ a with acklist := some words, ackblock := newblockFor newsize }, ?_,
        ⟨h.count, Nat.le_trans hsize hge, by simp, ?_, ?_⟩, rfl⟩
      · rw [List.length_nil] at hcopy
        simp [AckList.grow, hold, h.count, hcopy]
      · intro w hw
        rw [← Option.some.inj hw]
        exact hlen.trans hfresh
      · intro w hw
        rw [← Option.some.inj hw]
        exact hpre

theorem AckList.Holds.reserve {a : AckList} {acks : List (UInt32 × UInt32)} (h : a.Holds acks) :
    ∃ a', a.reserve = some a' ∧ a'.Holds acks ∧ acks.length + 1 ≤ a'.ackblock := by
  have hcount := h.count
  unfold AckList.reserve
  dsimp only
  split
  · obtain ⟨a', hgrow, h', hblock⟩ := h.grow (show acks.length ≤ a.ackcount + 1 by omega)
    exact ⟨a', hgrow, h', by rw [hblock, ← hcount]; exact newblockFor_ge _⟩
  · exact ⟨a, rfl, h, by omega⟩

/-- One entry pushed, inside the array, whether it had to grow or not. -/
theorem AckList.Holds.push {a : AckList} {acks : List (UInt32 × UInt32)} (h : a.Holds acks)
    (sn ts : UInt32) : ∃ a', a.push sn ts = some a' ∧ a'.Holds (acks ++ [(sn, ts)]) := by
  obtain ⟨a₁, ha₁, h₁, hroom⟩ := h.reserve
  cases hwords : a₁.acklist with
  | none =>
      have hblock := h₁.absent hwords
      omega
  | some words =>
      have hsize := h₁.size words hwords
      have hi : (ackWords acks).length = acks.length * 2 := by simp [Nat.mul_comm]
      obtain ⟨words₁, words₂, hset₁, hset₂, hlen, hpre⟩ :=
        @setWords words (ackWords acks) (h₁.stored words hwords) sn ts _ hi (by omega)
      refine ⟨{ a₁ with acklist := some words₂, ackcount := a₁.ackcount + 1 }, ?_,
        ⟨?_, by simpa using hroom, by simp, ?_, ?_⟩⟩
      · simp only [AckList.push, ha₁, hwords, h₁.count, hset₁, hset₂, Option.bind_eq_bind,
          Option.bind_some]
      · simp [h₁.count]
      · intro w hw
        rw [← Option.some.inj hw]
        exact hlen.trans hsize
      · intro w hw
        rw [← Option.some.inj hw]
        simpa using hpre

theorem AckList.Holds.get {a : AckList} {acks : List (UInt32 × UInt32)} (h : a.Holds acks)
    {p : Nat} {ack : UInt32 × UInt32} (hp : acks[p]? = some ack) : a.get p = some ack := by
  obtain ⟨hlt, -⟩ := List.getElem?_eq_some_iff.mp hp
  have hroom := h.room
  cases hwords : a.acklist with
  | none =>
      have hblock := h.absent hwords
      omega
  | some words =>
      have hget := ackWords_getElem (h.stored words hwords) hp
      simp [AckList.get, hwords, hget.1, hget.2]

end UdpKcp.Memory
