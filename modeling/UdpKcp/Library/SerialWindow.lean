import UdpKcp.Library.Serial
import Mathlib.Data.List.Sort

/-! # Windows on the circle

The distance from a base forward to a counter turns a stretch of the circle into
an interval of natural numbers. A window is a list of counters in ascending
order at distances below its size. It stays one when counters are deleted, when
the base moves up to the first of them, and when counters are added behind it;
where the zero of the circle lies does not matter.
-/

namespace Serial

/-! ## Distances -/

/-- Steps from `base` forward to `x`. -/
def offset (base x : UInt32) : ℕ := (x - base).toNat

theorem offset_eq (base x : UInt32) :
    offset base x = (2 ^ 32 - base.toNat + x.toNat) % 2 ^ 32 :=
  UInt32.toNat_sub x base

theorem offset_lt (base x : UInt32) : offset base x < 2 ^ 32 := UInt32.toNat_lt _

@[simp] theorem offset_self (base : UInt32) : offset base base = 0 := by
  unfold offset
  rw [UInt32.sub_self]
  rfl

/-- Counters below half the circle are their own distances from zero. -/
@[simp] theorem offset_zero (x : UInt32) : offset 0 x = x.toNat := by
  unfold offset
  rw [UInt32.sub_zero]

theorem offset_inj {base x y : UInt32} (h : offset base x = offset base y) : x = y := by
  have hsub : x - base = y - base := UInt32.toNat_inj.mp h
  rw [← UInt32.sub_add_cancel x base, hsub, UInt32.sub_add_cancel]

/-- Seen from a point on the way, the way behind that point is left. -/
theorem offset_rebase {base mid x : UInt32} (h : offset base mid ≤ offset base x) :
    offset mid x = offset base x - offset base mid := by
  have hbase := base.toNat_lt
  have hmid := mid.toNat_lt
  have hx := x.toNat_lt
  simp only [offset_eq] at *
  omega

theorem offset_add {base x : UInt32} {k : ℕ} (h : offset base x + k < 2 ^ 32) :
    offset base (x + UInt32.ofNat k) = offset base x + k := by
  have hx := x.toNat_lt
  have hbase := base.toNat_lt
  have hk : (UInt32.ofNat k).toNat = k % 2 ^ 32 := UInt32.toNat_ofNat'
  have hsum := UInt32.toNat_add x (UInt32.ofNat k)
  simp only [offset_eq] at *
  rw [hsum, hk]
  omega

theorem offset_base_add {base : UInt32} {k : ℕ} (h : k < 2 ^ 32) :
    offset base (base + UInt32.ofNat k) = k := by
  rw [offset_add (by simpa using h), offset_self, Nat.zero_add]

theorem offset_add_self (base d : UInt32) : offset base (base + d) = d.toNat := by
  have hd := @offset_base_add base d.toNat d.toNat_lt
  rwa [UInt32.ofNat_toNat] at hd

theorem add_ofNat_succ (x : UInt32) (k : ℕ) :
    x + UInt32.ofNat (k + 1) = x + 1 + UInt32.ofNat k := by
  rw [UInt32.ofNat_add, UInt32.add_comm (UInt32.ofNat k), ← UInt32.add_assoc]
  rfl

/-- Less than half the circle from a common base, counters compare as their distances. -/
theorem diff_eq_offset (base : UInt32) {x y : UInt32} (hx : offset base x < 2 ^ 31)
    (hy : offset base y < 2 ^ 31) : diff x y = (offset base x : Int) - offset base y := by
  have hbase := base.toNat_lt
  have hxlt := x.toNat_lt
  have hylt := y.toNat_lt
  rw [diff_eq_bmod]
  unfold Int.bmod
  simp only [offset_eq] at *
  split <;> omega

/-- The comparison with the base itself. -/
theorem diff_base (base x : UInt32) :
    diff x base = if offset base x < 2 ^ 31 then (offset base x : Int)
      else offset base x - 2 ^ 32 := by
  have hbase := base.toNat_lt
  have hxlt := x.toNat_lt
  rw [diff_eq_bmod]
  unfold Int.bmod
  simp only [offset_eq] at *
  split <;> split <;> omega

/-- A point is not behind one less than half the circle before it. -/
theorem diff_of_offset_lt {base x : UInt32} (h : offset base x < 2 ^ 31) :
    diff x base = offset base x := by
  rw [diff_base, if_pos h]

/-! ## Windows -/

/-- Counters in ascending order, all less than `size` steps ahead of `base`. -/
structure Window (base : UInt32) (size : ℕ) (xs : List UInt32) : Prop where
  ascending : xs.Pairwise fun x y => offset base x < offset base y
  inside : ∀ x ∈ xs, offset base x < size

theorem Window.nil (base : UInt32) (size : ℕ) : Window base size [] :=
  ⟨List.Pairwise.nil, List.forall_mem_nil _⟩

theorem Window.sublist {base : UInt32} {size : ℕ} {xs ys : List UInt32}
    (h : Window base size xs) (hsub : ys.Sublist xs) : Window base size ys :=
  ⟨h.ascending.sublist hsub, fun y hy => h.inside y (hsub.mem hy)⟩

theorem Window.mono {base : UInt32} {size size' : ℕ} {xs : List UInt32}
    (h : Window base size xs) (hle : size ≤ size') : Window base size' xs :=
  ⟨h.ascending, fun x hx => Nat.lt_of_lt_of_le (h.inside x hx) hle⟩

theorem Window.tail {base : UInt32} {size : ℕ} {x : UInt32} {xs : List UInt32}
    (h : Window base size (x :: xs)) : Window base size xs :=
  h.sublist (List.sublist_cons_self x xs)

theorem Window.head_lt {base : UInt32} {size : ℕ} {x : UInt32} {xs : List UInt32}
    (h : Window base size (x :: xs)) {y : UInt32} (hy : y ∈ xs) : offset base x < offset base y :=
  (List.pairwise_cons.mp h.ascending).1 y hy

/-- The base moves up to a point that no counter lies behind. -/
theorem Window.rebase {base : UInt32} {size : ℕ} {xs : List UInt32}
    (h : Window base size xs) {mid : UInt32} (hmid : ∀ x ∈ xs, offset base mid ≤ offset base x) :
    Window mid (size - offset base mid) xs := by
  constructor
  · apply h.ascending.imp_of_mem
    intro x y hx hy hlt
    rw [offset_rebase (hmid x hx), offset_rebase (hmid y hy)]
    have hle := hmid x hx
    omega
  · intro x hx
    have hle := hmid x hx
    have hlt := h.inside x hx
    rw [offset_rebase hle]
    omega

/-- Two ways that together stay below one turn add up. -/
theorem offset_trans {base mid x : UInt32} (h : offset base mid + offset mid x < 2 ^ 32) :
    offset base x = offset base mid + offset mid x := by
  have hbase := base.toNat_lt
  have hmid := mid.toNat_lt
  have hx := x.toNat_lt
  simp only [offset_eq] at *
  omega

/-- A window seen from a point before its base. -/
theorem Window.behind {base mid : UInt32} {size : ℕ} {xs : List UInt32} (h : Window mid size xs)
    (hfit : offset base mid + size ≤ 2 ^ 32) : Window base (offset base mid + size) xs := by
  have htrans : ∀ x ∈ xs, offset base x = offset base mid + offset mid x := by
    intro x hx
    have hin := h.inside x hx
    exact offset_trans (by omega)
  constructor
  · apply h.ascending.imp_of_mem
    intro x y hx hy hlt
    rw [htrans x hx, htrans y hy]
    omega
  · intro x hx
    have hin := h.inside x hx
    rw [htrans x hx]
    omega

/-- A window that lies behind another is appended to it. -/
theorem Window.append {base : UInt32} {size : ℕ} {xs ys : List UInt32}
    (hx : Window base size xs) (hy : Window base size ys)
    (hlt : ∀ x ∈ xs, ∀ y ∈ ys, offset base x < offset base y) :
    Window base size (xs ++ ys) := by
  refine ⟨List.pairwise_append.mpr ⟨hx.ascending, hy.ascending, hlt⟩, ?_⟩
  intro x hmem
  rcases List.mem_append.mp hmem with h | h
  · exact hx.inside x h
  · exact hy.inside x h

/-- A window is known from its members. -/
theorem Window.eq_of_mem_iff {base : UInt32} {size size' : ℕ} {xs ys : List UInt32}
    (hx : Window base size xs) (hy : Window base size' ys) (h : ∀ x, x ∈ xs ↔ x ∈ ys) :
    xs = ys := by
  have hirrefl : Std.Irrefl fun x y : UInt32 => offset base x < offset base y :=
    ⟨fun x => Nat.lt_irrefl _⟩
  have hantisymm : Std.Antisymm fun x y : UInt32 => offset base x < offset base y :=
    ⟨fun x y hlt hgt => absurd hgt (Nat.lt_asymm hlt)⟩
  exact hx.ascending.eq_of_mem_iff hy.ascending h

/-- No window holds more counters than it has places. -/
theorem Window.length_le {base : UInt32} {size : ℕ} {xs : List UInt32}
    (h : Window base size xs) : xs.length ≤ size := by
  have hfrom : ∀ (xs : List UInt32) (low : ℕ), Window base size xs →
      (∀ x ∈ xs, low ≤ offset base x) → xs.length ≤ size - low := by
    intro xs
    induction xs with
    | nil => exact fun low _ _ => Nat.zero_le _
    | cons x xs ih =>
        intro low hwin hlow
        have hrest := ih (offset base x + 1) hwin.tail fun y hy => hwin.head_lt hy
        have hin := hwin.inside x List.mem_cons_self
        have hge := hlow x List.mem_cons_self
        rw [List.length_cons]
        omega
  simpa using hfrom xs 0 h fun x _ => Nat.zero_le _

/-! ## Consecutive counters -/

/-- `count` counters from `start` on. -/
def run (start : UInt32) : ℕ → List UInt32
  | 0 => []
  | count + 1 => start :: run (start + 1) count

@[simp] theorem run_length (start : UInt32) (count : ℕ) : (run start count).length = count := by
  induction count generalizing start with
  | zero => rfl
  | succ count ih => rw [run, List.length_cons, ih]

theorem run_append (start : UInt32) (m n : ℕ) :
    run start (m + n) = run start m ++ run (start + UInt32.ofNat m) n := by
  induction m generalizing start with
  | zero => simp [run]
  | succ m ih => rw [Nat.succ_add, run, run, ih, add_ofNat_succ, List.cons_append]

theorem run_drop (start : UInt32) (m n : ℕ) :
    (run start (m + n)).drop m = run (start + UInt32.ofNat m) n := by
  rw [run_append, List.drop_left' (run_length start m)]

theorem mem_run (base : UInt32) {start x : UInt32} {count : ℕ}
    (hfit : offset base start + count ≤ 2 ^ 32) (hx : x ∈ run start count) :
    offset base start ≤ offset base x ∧ offset base x < offset base start + count := by
  induction count generalizing start with
  | zero => exact absurd hx List.not_mem_nil
  | succ count ih =>
      rcases List.mem_cons.mp hx with rfl | hx
      · omega
      · have hone : offset base (start + 1) = offset base start + 1 ∨ count = 0 := by
          by_cases hzero : count = 0
          · exact Or.inr hzero
          · exact Or.inl (offset_add (k := 1) (by omega))
        rcases hone with hone | rfl
        · have hrest := @ih (start + 1) (by omega) hx
          omega
        · exact absurd hx List.not_mem_nil

theorem mem_run_iff {base start x : UInt32} {count : ℕ}
    (hfit : offset base start + count ≤ 2 ^ 32) :
    x ∈ run start count ↔
      offset base start ≤ offset base x ∧ offset base x < offset base start + count := by
  refine ⟨mem_run base hfit, ?_⟩
  rintro ⟨hle, hlt⟩
  induction count generalizing start with
  | zero => omega
  | succ count ih =>
      by_cases heq : offset base x = offset base start
      · rw [offset_inj heq]
        exact List.mem_cons_self
      · have hone : offset base (start + 1) = offset base start + 1 :=
          offset_add (k := 1) (by omega)
        exact List.mem_cons_of_mem _ (ih (by omega) (by omega) (by omega))

/-- Consecutive counters are a window wherever they do not come round to the base. -/
theorem Window.run {base start : UInt32} {count : ℕ} (hfit : offset base start + count ≤ 2 ^ 32) :
    Window base (offset base start + count) (run start count) := by
  refine ⟨?_, fun x hx => (mem_run base hfit hx).2⟩
  induction count generalizing start with
  | zero => exact List.Pairwise.nil
  | succ count ih =>
      by_cases hzero : count = 0
      · subst hzero
        exact List.pairwise_singleton _ _
      · have hone : offset base (start + 1) = offset base start + 1 :=
          offset_add (k := 1) (by omega)
        refine List.pairwise_cons.mpr ⟨?_, ih (by omega)⟩
        intro x hx
        have hge := (mem_run base (by omega) hx).1
        omega

/-! ## Serial order -/

/-- In a window of less than half the circle the serial comparison is the order. -/
theorem Window.serial {base : UInt32} {size : ℕ} {xs : List UInt32} (h : Window base size xs)
    (hsize : size ≤ 2 ^ 31) : xs.Pairwise fun x y => diff x y < 0 := by
  apply h.ascending.imp_of_mem
  intro x y hx hy hlt
  have hxin := h.inside x hx
  have hyin := h.inside y hy
  rw [diff_eq_offset base (by omega) (by omega)]
  omega

theorem Window.ahead {base : UInt32} {size : ℕ} {xs : List UInt32} (h : Window base size xs)
    (hsize : size ≤ 2 ^ 31) {x : UInt32} (hx : x ∈ xs) : 0 ≤ diff x base := by
  have hin := h.inside x hx
  rw [diff_of_offset_lt (by omega)]
  omega

/-- Counters of a window lie before its end. -/
theorem Window.before {base limit : UInt32} {size : ℕ} {xs : List UInt32}
    (h : Window base size xs) (hlimit : offset base limit = size) (hsize : size < 2 ^ 31)
    {x : UInt32} (hx : x ∈ xs) : diff x limit < 0 := by
  have hin := h.inside x hx
  rw [diff_eq_offset base (by omega) (by omega)]
  omega

end Serial
