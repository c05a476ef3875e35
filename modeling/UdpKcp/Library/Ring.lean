import Mathlib.Data.List.Nodup
import Mathlib.Logic.Function.Basic

/-! # Intrusive rings

Circular doubly linked lists whose links are fields of the nodes themselves. A
node may only be read or written while it is live, and a null link is never
followed: every operation is partial, and has a result exactly when it stays
inside live memory. The links are kept field by field, so that a write to one
field leaves every read of the other alone.

A ring is a head and the nodes behind it, each linked to its neighbours both
ways. It has no first node of its own: any node can serve as the head, and an
insertion or a removal is done at the head and rotated to its place.
-/

namespace Intrusive

variable {α : Type*}

/-- The link fields of the nodes; `none` is a null pointer. -/
structure Links (α : Type*) where
  live : α → Bool
  next : α → Option α
  prev : α → Option α

/-! ## Checked accesses -/

def Links.getNext (m : Links α) (p : α) : Option α := if m.live p then m.next p else none

def Links.getPrev (m : Links α) (p : α) : Option α := if m.live p then m.prev p else none

section Access

variable [DecidableEq α]

def Links.setNext (m : Links α) (p : α) (target : Option α) : Option (Links α) :=
  if m.live p then some { m with next := Function.update m.next p target } else none

def Links.setPrev (m : Links α) (p : α) (target : Option α) : Option (Links α) :=
  if m.live p then some { m with prev := Function.update m.prev p target } else none

/-- Make a node a ring of its own. -/
def Links.init (m : Links α) (node : α) : Option (Links α) := do
  let m ← m.setNext node (some node)
  m.setPrev node (some node)

/-- Link a node in behind `head`. -/
def Links.add (m : Links α) (node head : α) : Option (Links α) := do
  let m ← m.setPrev node (some head)
  let first ← m.getNext head
  let m ← m.setNext node (some first)
  let first ← m.getNext head
  let m ← m.setPrev first (some node)
  m.setNext head (some node)

/-- Link a node in before `head`. -/
def Links.addTail (m : Links α) (node head : α) : Option (Links α) := do
  let last ← m.getPrev head
  let m ← m.setPrev node (some last)
  let m ← m.setNext node (some head)
  let last ← m.getPrev head
  let m ← m.setNext last (some node)
  m.setPrev head (some node)

/-- Unlink a node and clear its links. -/
def Links.del (m : Links α) (entry : α) : Option (Links α) := do
  let next ← m.getNext entry
  let prev ← m.getPrev entry
  let m ← m.setPrev next (some prev)
  let prev ← m.getPrev entry
  let next ← m.getNext entry
  let m ← m.setNext prev (some next)
  let m ← m.setNext entry none
  m.setPrev entry none

/-- Unlink a node and make it a ring of its own. -/
def Links.delInit (m : Links α) (entry : α) : Option (Links α) := do
  let m ← m.del entry
  m.init entry

end Access

/-! ## Neighbours -/

/-- `b` follows `a`, and both know it. -/
structure Linked (m : Links α) (a b : α) : Prop where
  live_left : m.live a
  live_right : m.live b
  next : m.next a = some b
  prev : m.prev b = some a

/-- The links with `e` put between `p` and `n`. -/
def Links.insert [DecidableEq α] (m : Links α) (p e n : α) : Links α :=
  { m with
    next := Function.update (Function.update m.next e (some n)) p (some e)
    prev := Function.update (Function.update m.prev e (some p)) n (some e) }

/-- The links with `e` taken out from between `p` and `n`. -/
def Links.remove [DecidableEq α] (m : Links α) (p e n : α) : Links α :=
  { m with
    next := Function.update (Function.update m.next p (some n)) e none
    prev := Function.update (Function.update m.prev n (some p)) e none }

section Neighbours

variable {m : Links α} {p e n : α}

theorem Linked.getNext_eq (h : Linked m p n) : m.getNext p = some n := by
  simp [Links.getNext, h.live_left, h.next]

theorem Linked.getPrev_eq (h : Linked m p n) : m.getPrev n = some p := by
  simp [Links.getPrev, h.live_right, h.prev]

variable [DecidableEq α]

theorem Links.add_eq (h : Linked m p n) (he : m.live e) (hne : e ≠ p) :
    m.add e p = some (m.insert p e n) := by
  simp [Links.add, Links.setPrev, Links.setNext, Links.getNext, Links.insert, he, h.live_left,
    h.live_right, h.next, Function.update_of_ne hne.symm]

theorem Links.addTail_eq (h : Linked m p n) (he : m.live e) (hne : e ≠ n) :
    m.addTail e n = some (m.insert p e n) := by
  simp [Links.addTail, Links.setPrev, Links.setNext, Links.getPrev, Links.insert, he, h.live_left,
    h.live_right, h.prev, Function.update_of_ne hne.symm]

theorem Links.del_eq (hp : Linked m p e) (hn : Linked m e n) (hen : e ≠ n) :
    m.del e = some (m.remove p e n) := by
  simp [Links.del, Links.setPrev, Links.setNext, Links.getPrev, Links.getNext, Links.remove,
    hp.live_left, hp.live_right, hn.live_right, hn.next, hp.prev, Function.update_of_ne hen]

theorem Links.init_eq (he : m.live e) :
    m.init e =
      some { m with
        next := Function.update m.next e (some e)
        prev := Function.update m.prev e (some e) } := by
  simp [Links.init, Links.setNext, Links.setPrev, he]

end Neighbours

/-! ## Paths -/

/-- The nodes `xs` are linked one after the other, from `a` to `b`. -/
def Path (m : Links α) : α → List α → α → Prop
  | a, [], b => Linked m a b
  | a, x :: xs, b => Linked m a x ∧ Path m x xs b

@[simp] theorem path_nil (m : Links α) (a b : α) : Path m a [] b ↔ Linked m a b := Iff.rfl

@[simp] theorem path_cons (m : Links α) (a x b : α) (xs : List α) :
    Path m a (x :: xs) b ↔ Linked m a x ∧ Path m x xs b := Iff.rfl

theorem path_append (m : Links α) (a x b : α) (xs ys : List α) :
    Path m a (xs ++ x :: ys) b ↔ Path m a xs x ∧ Path m x ys b := by
  induction xs generalizing a with
  | nil => simp
  | cons y xs ih => simp [ih, and_assoc]

/-- A path only depends on the links along it. -/
theorem Path.congr {m m' : Links α} {a b : α} {xs : List α} (h : Path m a xs b)
    (hlive : ∀ x ∈ a :: (xs ++ [b]), m'.live x = m.live x)
    (hnext : ∀ x ∈ a :: xs, m'.next x = m.next x)
    (hprev : ∀ x ∈ xs ++ [b], m'.prev x = m.prev x) : Path m' a xs b := by
  induction xs generalizing a with
  | nil =>
      have hl := h.live_left
      have hr := h.live_right
      refine ⟨?_, ?_, ?_, ?_⟩
      · rwa [hlive a (by simp)]
      · rwa [hlive b (by simp)]
      · rw [hnext a (by simp), h.next]
      · rw [hprev b (by simp), h.prev]
  | cons x xs ih =>
      obtain ⟨hax, hrest⟩ := h
      have hl := hax.live_left
      have hr := hax.live_right
      refine ⟨⟨?_, ?_, ?_, ?_⟩, ih hrest ?_ ?_ ?_⟩
      · rwa [hlive a (by simp)]
      · rwa [hlive x (by simp)]
      · rw [hnext a (by simp), hax.next]
      · rw [hprev x (by simp), hax.prev]
      · intro y hy
        exact hlive y (List.mem_cons_of_mem _ hy)
      · intro y hy
        exact hnext y (List.mem_cons_of_mem _ hy)
      · intro y hy
        exact hprev y (List.mem_cons_of_mem _ hy)

theorem Path.linked_head {m : Links α} {a b : α} {xs : List α} (h : Path m a xs b) :
    Linked m a (xs.headD b) := by
  cases xs with
  | nil => exact h
  | cons x xs => exact h.1

theorem Path.live_of_mem {m : Links α} {a b : α} {xs : List α} (h : Path m a xs b) {x : α}
    (hx : x ∈ xs) : m.live x := by
  obtain ⟨front, back, rfl⟩ := List.append_of_mem hx
  exact ((path_append m a x b front back).mp h).2.linked_head.live_left

/-! ## Rings -/

/-- The nodes `xs` form a ring with `head`. -/
structure Ring (m : Links α) (head : α) (xs : List α) : Prop where
  nodup : (head :: xs).Nodup
  path : Path m head xs head

section Rings

variable {m m' : Links α} {h e : α} {xs ys : List α}

theorem Ring.live_of_mem (r : Ring m h xs) {x : α} (hx : x ∈ xs) : m.live x :=
  r.path.live_of_mem hx

/-- Any node of a ring can be its head. -/
theorem Ring.rotate (r : Ring m h (xs ++ e :: ys)) : Ring m e (ys ++ h :: xs) where
  nodup := by
    have hn := r.nodup
    have hp : (h :: (xs ++ e :: ys)).Perm (e :: (ys ++ h :: xs)) := by
      rw [← List.cons_append, ← List.cons_append]
      exact List.perm_append_comm
    exact hp.nodup_iff.mp hn
  path := by
    obtain ⟨hxs, hys⟩ := (path_append m h e h xs ys).mp r.path
    exact (path_append m e h e ys xs).mpr ⟨hys, hxs⟩

/-- The neighbours on either side of a place in the ring. -/
theorem Ring.linked (r : Ring m h (xs ++ ys)) : Linked m (xs.getLastD h) (ys.headD h) := by
  rcases List.eq_nil_or_concat xs with rfl | ⟨xs, x, rfl⟩
  · exact r.path.linked_head
  · have hpath := r.path
    rw [List.concat_eq_append, List.append_assoc, List.singleton_append, path_append] at hpath
    simpa using hpath.2.linked_head

/-- A ring only depends on the links of its own nodes. -/
theorem Ring.congr (r : Ring m h xs)
    (hkeep : ∀ x ∈ h :: xs, m'.live x = m.live x ∧ m'.next x = m.next x ∧ m'.prev x = m.prev x) :
    Ring m' h xs where
  nodup := r.nodup
  path := by
    have hend : ∀ x ∈ xs ++ [h], x ∈ h :: xs := by
      intro x hx
      rcases List.mem_append.mp hx with hx | hx
      · exact List.mem_cons_of_mem _ hx
      · exact List.mem_cons.mpr (.inl (List.mem_singleton.mp hx))
    refine r.path.congr ?_ (fun x hx => (hkeep x hx).2.1) (fun x hx => (hkeep x (hend x hx)).2.2)
    intro x hx
    rcases List.mem_cons.mp hx with rfl | hx
    · exact (hkeep x (by simp)).1
    · exact (hkeep x (hend x hx)).1

variable [DecidableEq α]

theorem Ring.insert_head (r : Ring m h xs) (hlive : m.live e) (hfresh : e ∉ h :: xs) :
    Ring (m.insert h e (xs.headD h)) h (e :: xs) := by
  rw [List.mem_cons, not_or] at hfresh
  obtain ⟨heh, hexs⟩ := hfresh
  have hnodup := r.nodup
  have hpath := r.path
  refine ⟨by simp_all [Ne.symm], ?_⟩
  cases xs with
  | nil =>
      have hl := hpath.live_left
      have hne := Ne.symm heh
      refine ⟨⟨hl, hlive, ?_, ?_⟩, ⟨hlive, hl, ?_, ?_⟩⟩
        <;> simp [Links.insert, Function.update_of_ne, heh]
  | cons x xs =>
      obtain ⟨hhx, hrest⟩ := hpath
      have hne := Ne.symm heh
      have hex : e ≠ x := fun hex => hexs (by simp [hex])
      simp only [List.headD_cons]
      refine ⟨⟨hhx.live_left, hlive, ?_, ?_⟩, ⟨hlive, hhx.live_right, ?_, ?_⟩, hrest.congr ?_ ?_ ?_⟩
      · simp [Links.insert]
      · simp [Links.insert, Function.update_of_ne hex]
      · simp [Links.insert, Function.update_of_ne heh]
      · simp [Links.insert]
      · exact fun _ _ => rfl
      · intro y hy
        have hyh : y ≠ h := fun hyh => by simp_all
        have hye : y ≠ e := fun hye => by simp_all
        simp [Links.insert, hyh, hye]
      · intro y hy
        have hyx : y ≠ x := fun hyx => by simp_all
        have hye : y ≠ e := fun hye => by simp_all
        simp [Links.insert, hyx, hye]

theorem Ring.remove_head (r : Ring m h (e :: xs)) :
    Ring (m.remove h e (xs.headD h)) h xs := by
  have hnodup := r.nodup
  obtain ⟨hhe, hpath⟩ := r.path
  refine ⟨by simp_all, ?_⟩
  cases xs with
  | nil =>
      have hne : h ≠ e := by simp_all
      refine ⟨hhe.live_left, hhe.live_left, ?_, ?_⟩ <;> simp [Links.remove, hne]
  | cons x xs =>
      obtain ⟨hex, hrest⟩ := hpath
      have hhe' : h ≠ e := by simp_all
      have hxe : x ≠ e := by
        rintro rfl
        simp_all
      simp only [List.headD_cons]
      refine ⟨⟨hhe.live_left, hex.live_right, ?_, ?_⟩, hrest.congr ?_ ?_ ?_⟩
      · simp [Links.remove, hhe']
      · simp [Links.remove, hxe]
      · exact fun _ _ => rfl
      · intro y hy
        have hyh : y ≠ h := fun hyh => by simp_all
        have hye : y ≠ e := fun hye => by simp_all
        simp [Links.remove, hyh, hye]
      · intro y hy
        have hyx : y ≠ x := fun hyx => by simp_all
        have hye : y ≠ e := fun hye => by simp_all
        simp [Links.remove, hyx, hye]

/-- Insertion at any place of a ring. -/
theorem Ring.insert (r : Ring m h (xs ++ ys)) (hlive : m.live e) (hfresh : e ∉ h :: (xs ++ ys)) :
    Ring (m.insert (xs.getLastD h) e (ys.headD h)) h (xs ++ e :: ys) := by
  rcases List.eq_nil_or_concat xs with rfl | ⟨xs, x, rfl⟩
  · exact r.insert_head hlive hfresh
  · rw [List.concat_eq_append, List.append_assoc, List.singleton_append] at r
    have hrot := r.rotate.insert_head hlive (by simp_all)
    have hhead : (ys ++ h :: xs).headD x = ys.headD h := by cases ys <;> rfl
    rw [hhead] at hrot
    have hturn : e :: (ys ++ h :: xs) = (e :: ys) ++ h :: xs := rfl
    rw [hturn] at hrot
    simpa using hrot.rotate

/-- Removal at any place of a ring. -/
theorem Ring.remove (r : Ring m h (xs ++ e :: ys)) :
    Ring (m.remove (xs.getLastD h) e (ys.headD h)) h (xs ++ ys) := by
  rcases List.eq_nil_or_concat xs with rfl | ⟨xs, x, rfl⟩
  · exact r.remove_head
  · rw [List.concat_eq_append, List.append_assoc, List.singleton_append] at r
    have hturn := r.rotate
    rw [List.cons_append] at hturn
    have hrot := hturn.remove_head
    have hhead : (ys ++ h :: xs).headD x = ys.headD h := by cases ys <;> rfl
    rw [hhead] at hrot
    simpa using hrot.rotate

end Rings

end Intrusive
