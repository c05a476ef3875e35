import Mathlib.Data.List.Infix
import Mathlib.Tactic.Common

/-! # Filling a buffer

Items put one after the other into a buffer of fixed size, up to the first one
that does not fit the room left. Once the buffer is full no further item is
looked at, not even an empty one.
-/

namespace Filling

variable {α : Type}

/-- The items that go in. -/
def filled : ℕ → List (List α) → List (List α)
  | _, [] => []
  | room, item :: rest =>
      if 0 < room ∧ item.length ≤ room then item :: filled (room - item.length) rest else []

/-- Together the items are not longer than the room, and where they use it up the last
one has a share in it. -/
def Fits (room : ℕ) (items : List (List α)) : Prop :=
  items.flatten.length ≤ room ∧ (items.flatten.length = room → items.getLast? ≠ some [])

instance [DecidableEq α] (room : ℕ) (items : List (List α)) : Decidable (Fits room items) :=
  inferInstanceAs (Decidable (_ ∧ (_ → _)))

@[simp] theorem filled_nil (room : ℕ) : filled room ([] : List (List α)) = [] := by
  simp [filled]

@[simp] theorem filled_zero (items : List (List α)) : filled 0 items = [] := by
  cases items <;> simp [filled]

theorem filled_cons {room : ℕ} {item : List α} (hroom : 0 < room) (hfit : item.length ≤ room)
    (rest : List (List α)) :
    filled room (item :: rest) = item :: filled (room - item.length) rest := by
  simp [filled, hroom, hfit]

theorem filled_long {room : ℕ} {item : List α} (hlong : room < item.length)
    (rest : List (List α)) : filled room (item :: rest) = [] := by
  have hnot : ¬ (0 < room ∧ item.length ≤ room) := by omega
  rw [filled, if_neg hnot]

theorem filled_prefix (room : ℕ) (items : List (List α)) : filled room items <+: items := by
  induction items generalizing room with
  | nil => simp
  | cons item rest ih =>
      unfold filled
      split
      · exact List.cons_prefix_cons.mpr ⟨rfl, ih _⟩
      · exact List.nil_prefix

theorem filled_length_le (room : ℕ) (items : List (List α)) :
    (filled room items).flatten.length ≤ room := by
  induction items generalizing room with
  | nil => simp
  | cons item rest ih =>
      unfold filled
      split
      · have hrest := ih (room - item.length)
        simp only [List.flatten_cons, List.length_append]
        omega
      · simp

theorem fits_cons {room : ℕ} {item : List α} {rest : List (List α)} :
    Fits room (item :: rest) ↔
      (0 < room ∧ item.length ≤ room) ∧ Fits (room - item.length) rest := by
  unfold Fits
  rw [List.flatten_cons, List.length_append]
  cases rest with
  | nil =>
      have hitem : item = [] ↔ item.length = 0 := List.length_eq_zero_iff.symm
      simp only [List.flatten_nil, List.length_nil, Nat.add_zero, List.getLast?_singleton, ne_eq,
        Option.some.injEq, List.getLast?_nil, reduceCtorEq, not_false_eq_true, implies_true,
        Nat.zero_le, and_true, hitem]
      omega
  | cons next rest =>
      have hlast : (item :: next :: rest).getLast? = (next :: rest).getLast? := by simp
      rw [hlast]
      -- with no room at all every item is empty, the last one too
      have hempty : (next :: rest).flatten.length = 0 → (next :: rest).getLast? = some [] := by
        intro hzero
        have hall := List.flatten_eq_nil_iff.mp (List.length_eq_zero_iff.mp hzero)
        rw [List.getLast?_eq_some_getLast (by simp)]
        exact congrArg some (hall _ (List.getLast_mem _))
      constructor
      · rintro ⟨hle, hfull⟩
        refine ⟨⟨?_, by omega⟩, by omega, fun heq => hfull (by omega)⟩
        by_contra hnone
        exact hfull (by omega) (hempty (by omega))
      · rintro ⟨⟨hroom, hfit⟩, hle, hfull⟩
        exact ⟨by omega, fun heq => hfull (by omega)⟩

/-- Everything goes in exactly when it fits. -/
theorem filled_eq_self_iff {room : ℕ} {items : List (List α)} :
    filled room items = items ↔ Fits room items := by
  induction items generalizing room with
  | nil => simp [Fits]
  | cons item rest ih =>
      rw [fits_cons, ← ih, filled]
      by_cases hfit : 0 < room ∧ item.length ≤ room
      · simp [hfit]
      · simp [hfit]

/-- The buffer is filled to its end exactly when some of the items, from the first one on,
add up to its size. -/
theorem filled_full_iff {room : ℕ} (hroom : 0 < room) {items : List (List α)} :
    (filled room items).flatten.length = room ↔
      ∃ front, front <+: items ∧ front.flatten.length = room := by
  constructor
  · exact fun hfull => ⟨_, filled_prefix room items, hfull⟩
  · rintro ⟨front, hfront, hfull⟩
    induction items generalizing room front with
    | nil =>
        rw [List.prefix_nil.mp hfront] at hfull
        simp only [List.flatten_nil, List.length_nil] at hfull
        omega
    | cons item rest ih =>
        cases front with
        | nil =>
            simp only [List.flatten_nil, List.length_nil] at hfull
            omega
        | cons first front =>
            obtain ⟨rfl, hprefix⟩ := List.cons_prefix_cons.mp hfront
            rw [List.flatten_cons, List.length_append] at hfull
            rw [filled_cons hroom (by omega), List.flatten_cons, List.length_append]
            by_cases hmore : 0 < room - first.length
            · rw [ih hmore front hprefix (by omega)]
              omega
            · have hzero : room - first.length = 0 := by omega
              rw [hzero, filled_zero, List.flatten_nil, List.length_nil]
              omega

end Filling
