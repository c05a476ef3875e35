import Mathlib.Data.List.Basic

/-! # Greedy packing under a capacity

Items are appended to an open buffer; when the next item would push the buffer
past the capacity, the buffer is handed out first. An empty buffer is never
handed out. The result is a grouping of the items in order: nothing is lost,
repeated or split, and every group fits as long as every single item does.
-/

namespace Packing

variable {β : Type*}

/-- Buffers already handed out, and the one being filled. -/
structure Packer (β : Type*) where
  sent : List (List β) := []
  buffer : List β := []

/-- Hand the buffer out unless it is empty. -/
def Packer.output (p : Packer β) : List (List β) :=
  if p.buffer.length = 0 then p.sent else p.sent ++ [p.buffer]

theorem Packer.output_of_ne_zero (p : Packer β) (h : p.buffer.length ≠ 0) :
    p.output = p.sent ++ [p.buffer] := if_neg h

/-- Append one item, emptying the buffer first when the item does not fit. -/
def Packer.put (capacity : Nat) (p : Packer β) (item : List β) : Packer β :=
  if p.buffer.length + item.length > capacity then
    { sent := p.output, buffer := item }
  else { p with buffer := p.buffer ++ item }

theorem Packer.le_put (capacity : Nat) (p : Packer β) (item : List β) :
    item.length ≤ (p.put capacity item).buffer.length := by
  unfold Packer.put
  split
  · exact Nat.le_refl _
  · simp

/-- The open buffer grows past the capacity only for an item that is longer itself. -/
theorem Packer.put_le (capacity : Nat) (p : Packer β) (item : List β) :
    (p.put capacity item).buffer.length ≤ max capacity item.length := by
  unfold Packer.put
  split
  · exact Nat.le_max_right _ _
  · rw [List.length_append]
    omega

def Packer.putAll (capacity : Nat) (p : Packer β) (items : List (List β)) : Packer β :=
  items.foldl (Packer.put capacity) p

@[simp] theorem Packer.putAll_nil (capacity : Nat) (p : Packer β) :
    p.putAll capacity [] = p := rfl

@[simp] theorem Packer.putAll_cons (capacity : Nat) (p : Packer β) (item : List β)
    (items : List (List β)) :
    p.putAll capacity (item :: items) = (p.put capacity item).putAll capacity items := rfl

theorem Packer.putAll_append (capacity : Nat) (p : Packer β) (xs ys : List (List β)) :
    p.putAll capacity (xs ++ ys) = (p.putAll capacity xs).putAll capacity ys := by
  simp [Packer.putAll]

/-- Everything packed and handed out, starting from an empty packer. -/
def pack (capacity : Nat) (items : List (List β)) : List (List β) :=
  (({} : Packer β).putAll capacity items).output

/-- The groups already closed and the group still open, as lists of items. -/
structure Grouping (capacity : Nat) (p : Packer β) (items : List (List β)) where
  closed : List (List (List β))
  current : List (List β)
  items_eq : closed.flatten ++ current = items
  sent_eq : p.sent = closed.map List.flatten
  buffer_eq : p.buffer = current.flatten
  closed_ne_nil : ∀ g ∈ closed, g ≠ []
  closed_fits : ∀ g ∈ closed, g.flatten.length ≤ capacity
  current_fits : current.flatten.length ≤ capacity

def Grouping.empty (capacity : Nat) : Grouping capacity ({} : Packer β) [] where
  closed := []
  current := []
  items_eq := rfl
  sent_eq := rfl
  buffer_eq := rfl
  closed_ne_nil := by simp
  closed_fits := by simp
  current_fits := by simp

/-- One more item keeps the packed buffers a grouping of the items so far. -/
theorem Grouping.put {capacity : Nat} {p : Packer β} {items : List (List β)}
    (g : Grouping capacity p items) {item : List β} (hpos : item ≠ [])
    (hfit : item.length ≤ capacity) :
    Nonempty (Grouping capacity (p.put capacity item) (items ++ [item])) := by
  have hlen : 0 < item.length := List.length_pos_iff.mpr hpos
  unfold Packer.put
  split
  · rename_i hfull
    by_cases hempty : p.buffer.length = 0
    · omega
    · refine ⟨⟨g.closed ++ [g.current], [item], ?_, ?_, by simp, ?_, ?_, by simpa using hfit⟩⟩
      · simp [g.items_eq]
      · simp [p.output_of_ne_zero hempty, g.sent_eq, g.buffer_eq]
      · intro group hg
        rcases List.mem_append.mp hg with hg | hg
        · exact g.closed_ne_nil group hg
        · rintro rfl
          have hcur : g.current = [] := (List.mem_singleton.mp hg).symm
          exact hempty (by rw [g.buffer_eq, hcur]; rfl)
      · intro group hg
        rcases List.mem_append.mp hg with hg | hg
        · exact g.closed_fits group hg
        · rw [List.mem_singleton.mp hg]
          exact g.current_fits
  · rename_i hroom
    refine ⟨⟨g.closed, g.current ++ [item], ?_, g.sent_eq, ?_, g.closed_ne_nil,
      g.closed_fits, ?_⟩⟩
    · simp [← g.items_eq]
    · simp [g.buffer_eq]
    · rw [g.buffer_eq] at hroom
      simp only [List.flatten_append, List.flatten_singleton, List.length_append]
      omega

theorem grouping_putAll {capacity : Nat} {p : Packer β} {before items : List (List β)}
    (g : Grouping capacity p before) (hpos : ∀ item ∈ items, item ≠ [])
    (hfit : ∀ item ∈ items, item.length ≤ capacity) :
    Nonempty (Grouping capacity (p.putAll capacity items) (before ++ items)) := by
  induction items generalizing p before with
  | nil => simpa using ⟨g⟩
  | cons item items ih =>
      obtain ⟨g'⟩ := g.put (hpos item (by simp)) (hfit item (by simp))
      have h := ih g' (fun x hx => hpos x (by simp [hx])) (fun x hx => hfit x (by simp [hx]))
      simpa using h

/-- The packed buffers are the items in order, in non-empty groups that fit. -/
theorem pack_groups {capacity : Nat} {items : List (List β)}
    (hpos : ∀ item ∈ items, item ≠ []) (hfit : ∀ item ∈ items, item.length ≤ capacity) :
    ∃ groups : List (List (List β)), groups.flatten = items ∧
      pack capacity items = groups.map List.flatten ∧ (∀ g ∈ groups, g ≠ []) ∧
      ∀ g ∈ groups, g.flatten.length ≤ capacity := by
  obtain ⟨g⟩ := grouping_putAll (Grouping.empty capacity) hpos hfit
  have hitems : g.closed.flatten ++ g.current = items := by simpa using g.items_eq
  by_cases hcur : g.current = []
  · refine ⟨g.closed, by simpa [hcur] using hitems, ?_, g.closed_ne_nil, g.closed_fits⟩
    simp [pack, Packer.output, g.buffer_eq, g.sent_eq, hcur]
  · have hbuf : (({} : Packer β).putAll capacity items).buffer.length ≠ 0 := by
      obtain ⟨item, rest, hsplit⟩ := List.exists_cons_of_ne_nil hcur
      have hmem : item ∈ items := by
        rw [← hitems, hsplit]
        simp
      have hlen := List.length_pos_iff.mpr (hpos item hmem)
      rw [g.buffer_eq, hsplit]
      simp only [List.flatten_cons, List.length_append]
      omega
    refine ⟨g.closed ++ [g.current], by simpa using hitems, ?_, ?_, ?_⟩
    · rw [pack, Packer.output_of_ne_zero _ hbuf, g.buffer_eq, g.sent_eq]
      simp
    · intro group hg
      rcases List.mem_append.mp hg with hg | hg
      · exact g.closed_ne_nil group hg
      · rw [List.mem_singleton.mp hg]
        exact hcur
    · intro group hg
      rcases List.mem_append.mp hg with hg | hg
      · exact g.closed_fits group hg
      · rw [List.mem_singleton.mp hg]
        exact g.current_fits

theorem exists_groups_of_map {α : Type*} {f : α → List β} {groups : List (List (List β))}
    {xs : List α} (h : groups.flatten = xs.map f) :
    ∃ gs : List (List α), gs.flatten = xs ∧ gs.map (List.map f) = groups := by
  induction groups generalizing xs with
  | nil => exact ⟨[], by simpa using h.symm, rfl⟩
  | cons g groups ih =>
      rw [List.flatten_cons] at h
      obtain ⟨front, back, hxs, hfront, hback⟩ := List.map_eq_append_iff.mp h.symm
      obtain ⟨gs, hflat, hmap⟩ := ih hback.symm
      exact ⟨front :: gs, by simp [hflat, hxs], by simp [hfront, hmap]⟩

/-- The same grouping, for items that encode values of another type. -/
theorem pack_map_groups {α : Type*} {f : α → List β} {capacity : Nat} {xs : List α}
    (hpos : ∀ x ∈ xs, f x ≠ []) (hfit : ∀ x ∈ xs, (f x).length ≤ capacity) :
    ∃ groups : List (List α), groups.flatten = xs ∧
      pack capacity (xs.map f) = groups.map (List.flatMap f) ∧ (∀ g ∈ groups, g ≠ []) ∧
      ∀ g ∈ groups, (g.flatMap f).length ≤ capacity := by
  have hpos' : ∀ item ∈ xs.map f, item ≠ [] := by
    intro item hi
    obtain ⟨x, hx, rfl⟩ := List.mem_map.mp hi
    exact hpos x hx
  have hfit' : ∀ item ∈ xs.map f, item.length ≤ capacity := by
    intro item hi
    obtain ⟨x, hx, rfl⟩ := List.mem_map.mp hi
    exact hfit x hx
  obtain ⟨groups, hflat, hpack, hne, hcap⟩ := pack_groups hpos' hfit'
  obtain ⟨gs, hgs, rfl⟩ := exists_groups_of_map hflat
  refine ⟨gs, hgs, ?_, ?_, ?_⟩
  · rw [hpack, List.map_map]
    rfl
  · intro g hg hnil
    exact hne _ (List.mem_map_of_mem hg) (by rw [hnil]; rfl)
  · intro g hg
    have h := hcap _ (List.mem_map_of_mem hg)
    rwa [← List.flatMap_def] at h

/-! ## Two encodings of the same items -/

section Alike

variable {α : Type*} {f g : α → List β}

/-- Two packers that have packed the same groups of values, each in its own encoding. -/
structure Alike (f g : α → List β) (xs : List α) (p q : Packer β) (closed : List (List α))
    (current : List α) : Prop where
  closed_mem : ∀ group ∈ closed, ∀ x ∈ group, x ∈ xs
  current_mem : ∀ x ∈ current, x ∈ xs
  sent_left : p.sent = closed.map (List.flatMap f)
  sent_right : q.sent = closed.map (List.flatMap g)
  buffer_left : p.buffer = current.flatMap f
  buffer_right : q.buffer = current.flatMap g

theorem flatMap_length_eq (hlen : ∀ x, (f x).length = (g x).length) (xs : List α) :
    (xs.flatMap f).length = (xs.flatMap g).length := by
  rw [List.length_flatMap, List.length_flatMap]
  simp only [hlen]

/-- Handing out closes the same group on both sides. -/
theorem Alike.output (hlen : ∀ x, (f x).length = (g x).length) {xs : List α} {p q : Packer β}
    {closed : List (List α)} {current : List α} (h : Alike f g xs p q closed current) :
    ∃ groups : List (List α), (∀ group ∈ groups, ∀ x ∈ group, x ∈ xs) ∧
      p.output = groups.map (List.flatMap f) ∧ q.output = groups.map (List.flatMap g) := by
  have hsame := flatMap_length_eq hlen current
  unfold Packer.output
  rw [h.buffer_left, h.buffer_right, hsame, h.sent_left, h.sent_right]
  split
  · exact ⟨closed, h.closed_mem, rfl, rfl⟩
  · refine ⟨closed ++ [current], ?_, by simp, by simp⟩
    intro group hg
    rcases List.mem_append.mp hg with hg | hg
    · exact h.closed_mem group hg
    · rw [List.mem_singleton.mp hg]
      exact h.current_mem

theorem Alike.put (hlen : ∀ x, (f x).length = (g x).length) {xs : List α} {p q : Packer β}
    {closed : List (List α)} {current : List α} (h : Alike f g xs p q closed current)
    (capacity : ℕ) {x : α} (hx : x ∈ xs) :
    ∃ closed current,
      Alike f g xs (p.put capacity (f x)) (q.put capacity (g x)) closed current := by
  have hsame := flatMap_length_eq hlen current
  have hmem : ∀ y ∈ [x], y ∈ xs := fun y hy => List.mem_singleton.mp hy ▸ hx
  obtain ⟨groups, hgroups, hleft, hright⟩ := h.output hlen
  unfold Packer.put
  rw [h.buffer_left, h.buffer_right, hsame, hlen x]
  split
  · exact ⟨groups, [x], hgroups, hmem, hleft, hright, by simp, by simp⟩
  · refine ⟨closed, current ++ [x], h.closed_mem, ?_, h.sent_left, h.sent_right, by simp, by simp⟩
    intro y hy
    rcases List.mem_append.mp hy with hy | hy
    · exact h.current_mem y hy
    · exact hmem y hy

theorem alike_putAll (hlen : ∀ x, (f x).length = (g x).length) {xs ys : List α} {p q : Packer β}
    {closed : List (List α)} {current : List α} (h : Alike f g xs p q closed current)
    (capacity : ℕ) (hys : ∀ y ∈ ys, y ∈ xs) :
    ∃ closed current,
      Alike f g xs (p.putAll capacity (ys.map f)) (q.putAll capacity (ys.map g)) closed
        current := by
  induction ys generalizing p q closed current with
  | nil => exact ⟨closed, current, h⟩
  | cons y ys ih =>
      obtain ⟨closed', current', h'⟩ := h.put hlen capacity (hys y List.mem_cons_self)
      exact ih h' fun z hz => hys z (List.mem_cons_of_mem y hz)

/-- Encodings of the same lengths are packed in the same groups. -/
theorem pack_alike (hlen : ∀ x, (f x).length = (g x).length) (capacity : ℕ) (xs : List α) :
    ∃ groups : List (List α), (∀ group ∈ groups, ∀ x ∈ group, x ∈ xs) ∧
      pack capacity (xs.map f) = groups.map (List.flatMap f) ∧
      pack capacity (xs.map g) = groups.map (List.flatMap g) := by
  have hempty : Alike f g xs ({} : Packer β) {} [] [] :=
    ⟨List.forall_mem_nil _, List.forall_mem_nil _, rfl, rfl, rfl, rfl⟩
  obtain ⟨closed, current, h⟩ := alike_putAll hlen hempty capacity fun x hx => hx
  exact h.output hlen

end Alike

end Packing
