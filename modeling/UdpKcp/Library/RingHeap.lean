import UdpKcp.Library.Ring
import Mathlib.Data.List.Perm.Subperm

/-! # A heap of nodes spread over rings

Nodes with a value are allocated one at a time, linked into one of several rings
or held loose, moved between rings and freed. `Rings` says which node is where:
every ring is well linked, no node is in two places, and the live nodes are
exactly the ones accounted for. Each operation has one rule, which gives its
result and the account afterwards.
-/

namespace Intrusive

/-- What a link can point to: the head of a ring, or a node. -/
inductive Place (ι : Type*) where
  | head (i : ι)
  | node (a : Nat)
  deriving DecidableEq

/-- Addresses from `top` on have never been handed out. -/
structure Heap (ι β : Type*) where
  links : Links (Place ι)
  val : Nat → β
  top : Nat

variable {ι β : Type*}

/-! ## Operations -/

section Operations

variable [DecidableEq ι]

/-- The value at a place; a head has none. -/
def Heap.read (h : Heap ι β) : Place ι → Option β
  | .head _ => none
  | .node a => if h.links.live (.node a) then some (h.val a) else none

def Heap.write (h : Heap ι β) (p : Place ι) (v : β) : Option (Heap ι β) :=
  match p with
  | .head _ => none
  | .node a =>
      if h.links.live (.node a) then some { h with val := Function.update h.val a v } else none

def Heap.alloc (h : Heap ι β) (v : β) : Place ι × Heap ι β :=
  (.node h.top,
    { links := { h.links with live := Function.update h.links.live (.node h.top) true }
      val := Function.update h.val h.top v
      top := h.top + 1 })

def Heap.free (h : Heap ι β) (p : Place ι) : Option (Heap ι β) :=
  match p with
  | .head _ => none
  | .node a =>
      if h.links.live (.node a) then
        some { h with
          links := { h.links with live := Function.update h.links.live (.node a) false } }
      else none

def Heap.getNext (h : Heap ι β) (p : Place ι) : Option (Place ι) := h.links.getNext p

def Heap.getPrev (h : Heap ι β) (p : Place ι) : Option (Place ι) := h.links.getPrev p

/-- An operation on the links alone. -/
def Heap.relink (h : Heap ι β) (links : Option (Links (Place ι))) : Option (Heap ι β) :=
  links.map fun links => { h with links := links }

def Heap.init (h : Heap ι β) (node : Place ι) : Option (Heap ι β) := h.relink (h.links.init node)

def Heap.add (h : Heap ι β) (node head : Place ι) : Option (Heap ι β) :=
  h.relink (h.links.add node head)

def Heap.addTail (h : Heap ι β) (node head : Place ι) : Option (Heap ι β) :=
  h.relink (h.links.addTail node head)

def Heap.del (h : Heap ι β) (node : Place ι) : Option (Heap ι β) := h.relink (h.links.del node)

def Heap.delInit (h : Heap ι β) (node : Place ι) : Option (Heap ι β) :=
  h.relink (h.links.delInit node)

end Operations

/-! ## The account -/

/-- The places of some nodes. -/
def places (xs : List (Nat × β)) : List (Place ι) := xs.map fun x => .node x.1

@[simp] theorem places_nil : places ([] : List (Nat × β)) = ([] : List (Place ι)) := rfl

@[simp] theorem places_cons (x : Nat × β) (xs : List (Nat × β)) :
    places (x :: xs) = (.node x.1 : Place ι) :: places xs := rfl

@[simp] theorem places_append (xs ys : List (Nat × β)) :
    places (xs ++ ys) = (places xs ++ places ys : List (Place ι)) := List.map_append

/-- The place in front of the rest of a ring: where a walk of `xs` goes on. -/
def front (i : ι) (xs : List (Nat × β)) : Place ι := (places xs).headD (.head i)

/-- The place behind the start of a ring: where a walk backwards of `xs` goes on. -/
def back (i : ι) (xs : List (Nat × β)) : Place ι := (places xs).getLastD (.head i)

@[simp] theorem front_nil {i : ι} : front i ([] : List (Nat × β)) = .head i := rfl

@[simp] theorem front_cons (i : ι) (x : Nat × β) (xs : List (Nat × β)) :
    front i (x :: xs) = .node x.1 := rfl

@[simp] theorem back_nil {i : ι} : back i ([] : List (Nat × β)) = .head i := rfl

@[simp] theorem back_concat (i : ι) (x : Nat × β) (xs : List (Nat × β)) :
    back i (xs ++ [x]) = .node x.1 := by
  simp [back]

theorem mem_places {xs : List (Nat × β)} {p : Place ι} :
    p ∈ places xs ↔ ∃ x ∈ xs, p = .node x.1 := by
  simp [places, eq_comm]

theorem back_mem (i : ι) (xs : List (Nat × β)) : back i xs ∈ Place.head i :: places xs := by
  rcases List.eq_nil_or_concat xs with rfl | ⟨xs, x, rfl⟩
  · simp
  · rw [List.concat_eq_append, back_concat]
    simp

theorem front_mem (i : ι) (xs : List (Nat × β)) : front i xs ∈ Place.head i :: places xs := by
  cases xs <;> simp

/-- Which node is in which ring, and which are in none. -/
structure Rings (h : Heap ι β) (own : ι → List (Nat × β)) (loose : List (Nat × β)) : Prop where
  ring : ∀ i, Ring h.links (.head i) (places (own i))
  value : ∀ i, ∀ x ∈ own i, h.val x.1 = x.2
  apart : ∀ i j, ∀ x ∈ own i, ∀ y ∈ own j, x.1 = y.1 → i = j
  loose_nodup : (loose.map Prod.fst).Nodup
  loose_apart : ∀ x ∈ loose, ∀ i, ∀ y ∈ own i, x.1 ≠ y.1
  loose_live : ∀ x ∈ loose, h.links.live (.node x.1)
  loose_value : ∀ x ∈ loose, h.val x.1 = x.2
  accounted : ∀ a, h.links.live (.node a) →
    (∃ i, ∃ x ∈ own i, x.1 = a) ∨ ∃ x ∈ loose, x.1 = a
  below : ∀ a, h.links.live (.node a) → a < h.top

section Account

variable {h : Heap ι β} {own : ι → List (Nat × β)} {loose : List (Nat × β)}
  {i : ι} {x : Nat × β} {xs ys : List (Nat × β)}

theorem Rings.live (r : Rings h own loose) {i : ι} (hx : x ∈ own i) :
    h.links.live (.node x.1) :=
  (r.ring i).live_of_mem (mem_places.mpr ⟨x, hx, rfl⟩)

theorem Rings.read_own (r : Rings h own loose) (hx : x ∈ own i) :
    h.read (.node x.1) = some x.2 := by
  simp [Heap.read, r.live hx, r.value i x hx]

theorem Rings.read_loose (r : Rings h own loose) (hx : x ∈ loose) :
    h.read (.node x.1) = some x.2 := by
  simp [Heap.read, r.loose_live x hx, r.loose_value x hx]

/-- The place in front of the rest and the place behind the start are neighbours. -/
theorem Rings.linked (r : Rings h own loose) (hown : own i = xs ++ ys) :
    Linked h.links (back i xs) (front i ys) := by
  have hring := r.ring i
  rw [hown, places_append] at hring
  exact hring.linked

theorem Rings.next_eq (r : Rings h own loose) (hown : own i = xs ++ ys) :
    h.getNext (back i xs) = some (front i ys) :=
  (r.linked hown).getNext_eq

theorem Rings.prev_eq (r : Rings h own loose) (hown : own i = xs ++ ys) :
    h.getPrev (front i ys) = some (back i xs) :=
  (r.linked hown).getPrev_eq

theorem Rings.next_head (r : Rings h own loose) (i : ι) :
    h.getNext (.head i) = some (front i (own i)) :=
  r.next_eq (List.nil_append _).symm

theorem Rings.next_node (r : Rings h own loose) (hown : own i = xs ++ x :: ys) :
    h.getNext (.node x.1) = some (front i ys) := by
  have hsplit : own i = (xs ++ [x]) ++ ys := by simp [hown]
  have hnext := r.next_eq hsplit
  rwa [back_concat] at hnext

theorem Rings.prev_node (r : Rings h own loose) (hown : own i = xs ++ x :: ys) :
    h.getPrev (.node x.1) = some (back i xs) := r.prev_eq hown

theorem Rings.addresses_nodup (r : Rings h own loose) (i : ι) :
    ((own i).map Prod.fst).Nodup := by
  have hn := (List.nodup_cons.mp (r.ring i).nodup).2
  have hp : places (own i) = ((own i).map Prod.fst).map (Place.node (ι := ι)) := by
    simp [places]
  rw [hp] at hn
  exact hn.of_map _

/-- A ring is never longer than the number of addresses handed out. -/
theorem Rings.length_le (r : Rings h own loose) (i : ι) : (own i).length ≤ h.top := by
  have hsub : (own i).map Prod.fst ⊆ List.range h.top := by
    intro a ha
    obtain ⟨x, hx, rfl⟩ := List.mem_map.mp ha
    exact List.mem_range.mpr (r.below x.1 (r.live hx))
  have hlen := (List.subperm_of_subset (r.addresses_nodup i) hsub).length_le
  simpa using hlen

theorem Rings.nodup (r : Rings h own loose) (i : ι) :
    ((own i ++ loose).map Prod.fst).Nodup := by
  rw [List.map_append, List.nodup_append]
  refine ⟨r.addresses_nodup i, r.loose_nodup, ?_⟩
  intro a ha b hb hab
  obtain ⟨x, hx, rfl⟩ := List.mem_map.mp ha
  obtain ⟨y, hy, rfl⟩ := List.mem_map.mp hb
  exact r.loose_apart y hy i x hx hab.symm

theorem Rings.loose_ne (r : Rings h own (x :: loose)) {zs : List (Nat × β)}
    (hzs : ∀ z ∈ zs, z ∈ own i) {p : Place ι} (hp : p ∈ Place.head i :: places zs) :
    Place.node x.1 ≠ p := by
  rintro rfl
  simp only [List.mem_cons, mem_places, reduceCtorEq, false_or, Place.node.injEq] at hp
  obtain ⟨z, hz, hxz⟩ := hp
  exact r.loose_apart x (by simp) i z (hzs z hz) hxz

theorem Rings.fresh (r : Rings h own loose) :
    (∀ i, ∀ y ∈ own i, y.1 ≠ h.top) ∧ ∀ y ∈ loose, y.1 ≠ h.top :=
  ⟨fun _ y hy => Nat.ne_of_lt (r.below y.1 (r.live hy)),
    fun y hy => Nat.ne_of_lt (r.below y.1 (r.loose_live y hy))⟩

end Account

theorem perm_moved (xs ys zs : List (Nat × β)) (x : Nat × β) :
    ((xs ++ ys) ++ x :: zs).Perm ((xs ++ x :: ys) ++ zs) :=
  List.perm_middle.trans (List.perm_middle.symm.append_right zs)

/-! ## Moving nodes between a ring and the loose ones -/

section Moving

variable [DecidableEq ι] {h : Heap ι β} {own : ι → List (Nat × β)} {loose : List (Nat × β)}
  {i : ι} {x : Nat × β} {xs ys : List (Nat × β)}

/-- Relinking one ring, with nodes taken from the loose ones or left to them. -/
theorem Rings.relink (r : Rings h own loose) {links : Links (Place ι)} {zs rest : List (Nat × β)}
    (hlive : links.live = h.links.live)
    (hkeep : ∀ p, p ∉ Place.head i :: places (own i) → p ∉ places loose →
      links.next p = h.links.next p ∧ links.prev p = h.links.prev p)
    (hring : Ring links (.head i) (places zs))
    (hperm : (zs ++ rest).Perm (own i ++ loose)) :
    Rings { h with links := links } (Function.update own i zs) rest := by
  have hnodup := (hperm.map Prod.fst).nodup_iff.mpr (r.nodup i)
  rw [List.map_append, List.nodup_append] at hnodup
  obtain ⟨-, hrest, hdisjoint⟩ := hnodup
  have hcame : ∀ y, y ∈ zs ∨ y ∈ rest → y ∈ own i ∨ y ∈ loose := by
    intro y hy
    simpa using hperm.mem_iff.mp (List.mem_append.mpr hy)
  have hwent : ∀ y, y ∈ own i ∨ y ∈ loose → y ∈ zs ∨ y ∈ rest := by
    intro y hy
    simpa using hperm.mem_iff.mpr (List.mem_append.mpr hy)
  have hof : ∀ j, ∀ y ∈ Function.update own i zs j, y ∈ own j ∨ j = i ∧ y ∈ loose := by
    intro j y hy
    by_cases hj : j = i
    · subst hj
      rw [Function.update_self] at hy
      rcases hcame y (.inl hy) with hy | hy
      · exact .inl hy
      · exact .inr ⟨rfl, hy⟩
    · rw [Function.update_of_ne hj] at hy
      exact .inl hy
  refine ⟨?_, ?_, ?_, hrest, ?_, ?_, ?_, ?_, ?_⟩
  · intro j
    by_cases hj : j = i
    · subst hj
      rwa [Function.update_self]
    · rw [Function.update_of_ne hj]
      refine (r.ring j).congr ?_
      intro p hp
      refine ⟨by simp [hlive], hkeep p ?_ ?_⟩
      · intro hmem
        simp only [List.mem_cons, mem_places] at hp hmem
        rcases hp with rfl | ⟨y, hy, rfl⟩ <;> rcases hmem with hmem | ⟨z, hz, hyz⟩
        · exact hj (Place.head.inj hmem)
        · cases hyz
        · cases hmem
        · exact hj (r.apart j i y hy z hz (Place.node.inj hyz))
      · intro hmem
        simp only [List.mem_cons, mem_places] at hp hmem
        obtain ⟨z, hz, rfl⟩ := hmem
        rcases hp with hp | ⟨y, hy, hyz⟩
        · cases hp
        · exact r.loose_apart z hz j y hy (Place.node.inj hyz)
  · intro j y hy
    rcases hof j y hy with hy | ⟨-, hy⟩
    · exact r.value j y hy
    · exact r.loose_value y hy
  · intro j k y hy z hz hyz
    rcases hof j y hy with hy' | ⟨rfl, hy'⟩ <;> rcases hof k z hz with hz' | ⟨rfl, hz'⟩
    · exact r.apart j k y hy' z hz' hyz
    · exact (r.loose_apart z hz' j y hy' hyz.symm).elim
    · exact (r.loose_apart y hy' k z hz' hyz).elim
    · rfl
  · intro y hy j z hz hyz
    by_cases hj : j = i
    · subst hj
      rw [Function.update_self] at hz
      exact hdisjoint z.1 (List.mem_map_of_mem hz) y.1 (List.mem_map_of_mem hy) hyz.symm
    · rw [Function.update_of_ne hj] at hz
      rcases hcame y (.inr hy) with hy | hy
      · exact hj (r.apart j i z hz y hy hyz.symm)
      · exact r.loose_apart y hy j z hz hyz
  · intro y hy
    rw [hlive]
    rcases hcame y (.inr hy) with hy | hy
    · exact r.live hy
    · exact r.loose_live y hy
  · intro y hy
    rcases hcame y (.inr hy) with hy | hy
    · exact r.value i y hy
    · exact r.loose_value y hy
  · intro a ha
    rw [hlive] at ha
    have hplace : ∀ y, y ∈ own i ∨ y ∈ loose → y.1 = a →
        (∃ j, ∃ x ∈ Function.update own i zs j, x.1 = a) ∨ ∃ x ∈ rest, x.1 = a := by
      intro y hy hya
      rcases hwent y hy with hy | hy
      · exact .inl ⟨i, y, by rwa [Function.update_self], hya⟩
      · exact .inr ⟨y, hy, hya⟩
    rcases r.accounted a ha with ⟨j, y, hy, hya⟩ | ⟨y, hy, hya⟩
    · by_cases hj : j = i
      · subst hj
        exact hplace y (.inl hy) hya
      · exact .inl ⟨j, y, by rwa [Function.update_of_ne hj], hya⟩
    · exact hplace y (.inr hy) hya
  · intro a ha
    exact r.below a (by rwa [hlive] at ha)

theorem Rings.del (r : Rings h own loose) (hown : own i = xs ++ x :: ys) :
    ∃ h', h.del (.node x.1) = some h' ∧
      Rings h' (Function.update own i (xs ++ ys)) (x :: loose) := by
  have hring := r.ring i
  rw [hown, places_append, places_cons] at hring
  have hleft : Linked h.links (back i xs) (.node x.1) := hring.linked
  have hsplit : own i = (xs ++ [x]) ++ ys := by simp [hown]
  have hright := r.linked hsplit
  rw [back_concat] at hright
  have hx : x.1 ∉ ys.map Prod.fst := by
    have hn := r.addresses_nodup i
    rw [hown] at hn
    simp only [List.map_append, List.map_cons] at hn
    exact (List.nodup_cons.mp (List.nodup_append.mp hn).2.1).1
  have hne : (.node x.1 : Place ι) ≠ front i ys := by
    cases ys with
    | nil => simp
    | cons y ys => simpa using fun hxy => hx (by simp [hxy])
  refine ⟨_, by rw [Heap.del, Links.del_eq hleft hright hne]; rfl, ?_⟩
  refine r.relink rfl ?_ ?_ (hown ▸ perm_moved xs ys loose x)
  swap
  · rw [places_append]
    exact hring.remove
  intro p hp _
  rw [hown] at hp
  have hback := back_mem i xs
  have hfront := front_mem i ys
  simp only [places_append, places_cons, List.mem_cons, List.mem_append, not_or] at hp hback hfront
  have hpx : p ≠ .node x.1 := hp.2.2.1
  have hpb : p ≠ back i xs := by
    rintro rfl
    rcases hback with hback | hback
    · exact hp.1 hback
    · exact hp.2.1 hback
  have hpf : p ≠ front i ys := by
    rintro rfl
    rcases hfront with hfront | hfront
    · exact hp.1 hfront
    · exact hp.2.2.2 hfront
  simp [Links.remove, hpx, hpb, hpf]

/-- Insertion between two neighbours of a ring. -/
theorem Rings.insert (r : Rings h own (x :: loose)) (hown : own i = xs ++ ys) :
    Rings { h with links := h.links.insert (back i xs) (.node x.1) (front i ys) }
      (Function.update own i (xs ++ x :: ys)) loose := by
  have hring := r.ring i
  rw [hown, places_append] at hring
  have hlive := r.loose_live x (by simp)
  have hfresh : (.node x.1 : Place ι) ∉ Place.head i :: (places xs ++ places ys) := by
    rw [← places_append, ← hown]
    simp only [List.mem_cons, mem_places, not_or, not_exists, not_and]
    refine ⟨by simp, ?_⟩
    intro y hy hxy
    exact r.loose_apart x (by simp) i y hy (Place.node.inj hxy)
  refine r.relink rfl ?_ ?_ (hown ▸ (perm_moved xs ys loose x).symm)
  swap
  · rw [places_append, places_cons]
    exact hring.insert hlive hfresh
  intro p hp hloose
  rw [hown] at hp
  have hback := back_mem i xs
  have hfront := front_mem i ys
  rw [places_cons, List.mem_cons, not_or] at hloose
  simp only [places_append, List.mem_cons, List.mem_append, not_or] at hp hback hfront
  have hpb : p ≠ back i xs := by
    rintro rfl
    rcases hback with hback | hback
    · exact hp.1 hback
    · exact hp.2.1 hback
  have hpf : p ≠ front i ys := by
    rintro rfl
    rcases hfront with hfront | hfront
    · exact hp.1 hfront
    · exact hp.2.2 hfront
  simp [Links.insert, hloose.1, hpb, hpf]

theorem Rings.add (r : Rings h own (x :: loose)) (hown : own i = xs ++ ys) :
    ∃ h', h.add (.node x.1) (back i xs) = some h' ∧
      Rings h' (Function.update own i (xs ++ x :: ys)) loose := by
  have hne := r.loose_ne (fun z hz => by simp [hown, hz]) (back_mem i xs)
  refine ⟨_, ?_, r.insert hown⟩
  rw [Heap.add, Links.add_eq (r.linked hown) (r.loose_live x (by simp)) hne]
  rfl

theorem Rings.addTail (r : Rings h own (x :: loose)) (i : ι) :
    ∃ h', h.addTail (.node x.1) (.head i) = some h' ∧
      Rings h' (Function.update own i (own i ++ [x])) loose := by
  have hown : own i = own i ++ [] := (List.append_nil _).symm
  refine ⟨_, ?_, r.insert hown⟩
  rw [Heap.addTail]
  have hlinked := r.linked hown
  rw [front_nil] at hlinked
  rw [Links.addTail_eq hlinked (r.loose_live x (by simp)) (by simp)]
  rfl

/-- Writing to a node leaves it where it is. -/
theorem Rings.write (r : Rings h own loose) (hown : own i = xs ++ x :: ys) (v : β) :
    ∃ h', h.write (.node x.1) v = some h' ∧
      Rings h' (Function.update own i (xs ++ (x.1, v) :: ys)) loose := by
  have hx : x ∈ own i := by simp [hown]
  refine ⟨_, by simp only [Heap.write, r.live hx, if_true]; rfl, ?_⟩
  have hother : ∀ j, ∀ y ∈ Function.update own i (xs ++ (x.1, v) :: ys) j,
      y = (x.1, v) ∧ j = i ∨ y ∈ own j ∧ y.1 ≠ x.1 := by
    intro j y hy
    by_cases hj : j = i
    · subst hj
      rw [Function.update_self] at hy
      have hn := r.addresses_nodup j
      simp only [hown, List.map_append, List.map_cons, List.nodup_append, List.nodup_cons] at hn
      rcases List.mem_append.mp hy with hy | hy
      · refine .inr ⟨by simp [hown, hy], ?_⟩
        exact hn.2.2 y.1 (List.mem_map_of_mem hy) x.1 (by simp)
      · rcases List.mem_cons.mp hy with rfl | hy
        · exact .inl ⟨rfl, rfl⟩
        · refine .inr ⟨by simp [hown, hy], ?_⟩
          intro hyx
          exact hn.2.1.1 (hyx ▸ List.mem_map_of_mem hy)
    · rw [Function.update_of_ne hj] at hy
      exact .inr ⟨hy, fun hyx => hj (r.apart j i y hy x hx hyx)⟩
  have hof : ∀ j, ∀ y ∈ Function.update own i (xs ++ (x.1, v) :: ys) j,
      ∃ z ∈ own j, z.1 = y.1 := by
    intro j y hy
    rcases hother j y hy with ⟨rfl, rfl⟩ | ⟨hy, -⟩
    · exact ⟨x, hx, rfl⟩
    · exact ⟨y, hy, rfl⟩
  refine ⟨?_, ?_, ?_, r.loose_nodup, ?_, r.loose_live, ?_, ?_, r.below⟩
  · intro j
    have hring := r.ring j
    by_cases hj : j = i
    · subst hj
      rw [Function.update_self]
      rw [hown, places_append, places_cons] at hring
      rw [places_append, places_cons]
      exact hring
    · rwa [Function.update_of_ne hj]
  · intro j y hy
    rcases hother j y hy with ⟨rfl, rfl⟩ | ⟨hy, hne⟩
    · simp
    · simp [hne, r.value j y hy]
  · intro j k y hy z hz hyz
    obtain ⟨y', hy', hyy⟩ := hof j y hy
    obtain ⟨z', hz', hzz⟩ := hof k z hz
    exact r.apart j k y' hy' z' hz' (by rw [hyy, hzz, hyz])
  · intro y hy j z hz
    obtain ⟨z', hz', hzz⟩ := hof j z hz
    exact hzz ▸ r.loose_apart y hy j z' hz'
  · intro y hy
    simp [r.loose_apart y hy i x hx, r.loose_value y hy]
  · intro a ha
    rcases r.accounted a ha with ⟨j, y, hy, hya⟩ | hloose
    · by_cases hj : j = i
      · subst hj
        rw [hown] at hy
        rcases List.mem_append.mp hy with hy | hy
        · exact .inl ⟨j, y, by simp [hy], hya⟩
        · rcases List.mem_cons.mp hy with rfl | hy
          · exact .inl ⟨j, (y.1, v), by simp, hya⟩
          · exact .inl ⟨j, y, by simp [hy], hya⟩
      · exact .inl ⟨j, y, by rwa [Function.update_of_ne hj], hya⟩
    · exact .inr hloose

/-! ## Operations on loose nodes -/

theorem Rings.init (r : Rings h own (x :: loose)) :
    ∃ h', h.init (.node x.1) = some h' ∧ Rings h' own (x :: loose) := by
  refine ⟨_, by rw [Heap.init, Links.init_eq (r.loose_live x (by simp))]; rfl, ?_⟩
  refine { r with ring := fun i => (r.ring i).congr ?_ }
  intro p hp
  have hne := (r.loose_ne (fun z hz => hz) hp).symm
  simp [Function.update_of_ne hne]

theorem Rings.delInit (r : Rings h own loose) (hown : own i = xs ++ x :: ys) :
    ∃ h', h.delInit (.node x.1) = some h' ∧
      Rings h' (Function.update own i (xs ++ ys)) (x :: loose) := by
  obtain ⟨h₁, hdel, r₁⟩ := r.del hown
  obtain ⟨h₂, hinit, r₂⟩ := r₁.init
  refine ⟨h₂, ?_, r₂⟩
  simp only [Heap.del, Heap.relink, Option.map_eq_some_iff] at hdel
  obtain ⟨links, hlinks, rfl⟩ := hdel
  simp only [Heap.delInit, Links.delInit, Heap.relink, hlinks, Option.bind_eq_bind,
    Option.bind_some]
  exact hinit

theorem Rings.alloc (r : Rings h own loose) (v : β) :
    Rings (h.alloc v).2 own ((h.top, v) :: loose) := by
  obtain ⟨hown, hloose⟩ := r.fresh
  have hlive : ∀ a, a ≠ h.top →
      Function.update h.links.live (.node h.top) true (.node a) = h.links.live (.node a) := by
    intro a ha
    simp [ha]
  refine ⟨?_, ?_, r.apart, ?_, ?_, ?_, ?_, ?_, ?_⟩
  · intro i
    refine (r.ring i).congr ?_
    intro p hp
    refine ⟨?_, rfl, rfl⟩
    rcases List.mem_cons.mp hp with rfl | hp
    · simp [Heap.alloc]
    · obtain ⟨y, hy, rfl⟩ := mem_places.mp hp
      exact hlive y.1 (hown i y hy)
  · intro i y hy
    simp [Heap.alloc, hown i y hy, r.value i y hy]
  · refine List.nodup_cons.mpr ⟨?_, r.loose_nodup⟩
    intro hmem
    obtain ⟨y, hy, hytop⟩ := List.mem_map.mp hmem
    exact hloose y hy hytop
  · intro y hy i z hz
    rcases List.mem_cons.mp hy with rfl | hy
    · exact (hown i z hz).symm
    · exact r.loose_apart y hy i z hz
  · intro y hy
    rcases List.mem_cons.mp hy with rfl | hy
    · simp [Heap.alloc]
    · exact (hlive y.1 (hloose y hy)).trans (r.loose_live y hy)
  · intro y hy
    rcases List.mem_cons.mp hy with rfl | hy
    · simp [Heap.alloc]
    · simp [Heap.alloc, hloose y hy, r.loose_value y hy]
  · intro a ha
    by_cases htop : a = h.top
    · exact .inr ⟨(h.top, v), by simp, htop.symm⟩
    · rcases r.accounted a ((hlive a htop).symm.trans ha) with hacc | ⟨y, hy, hya⟩
      · exact .inl hacc
      · exact .inr ⟨y, List.mem_cons_of_mem _ hy, hya⟩
  · intro a ha
    by_cases htop : a = h.top
    · exact htop ▸ Nat.lt_succ_self _
    · exact Nat.lt_succ_of_lt (r.below a ((hlive a htop).symm.trans ha))

theorem Rings.free (r : Rings h own (x :: loose)) :
    ∃ h', h.free (.node x.1) = some h' ∧ Rings h' own loose := by
  have hlive := r.loose_live x (by simp)
  have hapart := r.loose_apart x (by simp)
  obtain ⟨hx, hnodup⟩ := List.nodup_cons.mp r.loose_nodup
  refine ⟨_, by simp only [Heap.free, hlive, if_true]; rfl, ?_⟩
  have hkeep : ∀ a, a ≠ x.1 →
      Function.update h.links.live (.node x.1) false (.node a) = h.links.live (.node a) := by
    intro a ha
    simp [ha]
  have hrest : ∀ y ∈ loose, y.1 ≠ x.1 := fun y hy hyx => hx (hyx ▸ List.mem_map_of_mem hy)
  refine ⟨?_, r.value, r.apart, hnodup, ?_, ?_, ?_, ?_, ?_⟩
  · intro i
    refine (r.ring i).congr ?_
    intro p hp
    refine ⟨?_, rfl, rfl⟩
    rcases List.mem_cons.mp hp with rfl | hp
    · simp
    · obtain ⟨y, hy, rfl⟩ := mem_places.mp hp
      exact hkeep y.1 (hapart i y hy).symm
  · exact fun y hy => r.loose_apart y (List.mem_cons_of_mem _ hy)
  · intro y hy
    exact (hkeep y.1 (hrest y hy)).trans (r.loose_live y (List.mem_cons_of_mem _ hy))
  · exact fun y hy => r.loose_value y (List.mem_cons_of_mem _ hy)
  · intro a ha
    have hax : a ≠ x.1 := by
      rintro rfl
      simp at ha
    rcases r.accounted a ((hkeep a hax).symm.trans ha) with hacc | ⟨y, hy, hya⟩
    · exact .inl hacc
    · rcases List.mem_cons.mp hy with rfl | hy
      · exact (hax hya.symm).elim
      · exact .inr ⟨y, hy, hya⟩
  · intro a ha
    have hax : a ≠ x.1 := by
      rintro rfl
      simp at ha
    exact r.below a ((hkeep a hax).symm.trans ha)

end Moving

end Intrusive
