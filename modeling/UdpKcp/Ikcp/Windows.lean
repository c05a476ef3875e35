import UdpKcp.Ikcp.Outgoing
import UdpKcp.Library.SerialWindow

/-! # The queues as windows

The numbers of `snd_buf` are a window from `snd_una`, those of `rcv_buf` a window
from `rcv_nxt`, anywhere on the circle. This module says what the list walks of
`ikcp.c` do to them; none of it depends on what the network delivers.
-/

namespace UdpKcp.Ikcp

open ByteCodec (Bytes)
open Serial (Window offset)

/-- The sequence numbers of a list of segments. -/
def numbers (segs : List IKCPSEG) : List UInt32 := segs.map (·.sn)

@[simp] theorem numbers_nil : numbers [] = [] := rfl

@[simp] theorem numbers_cons (seg : IKCPSEG) (segs : List IKCPSEG) :
    numbers (seg :: segs) = seg.sn :: numbers segs := rfl

@[simp] theorem numbers_append (xs ys : List IKCPSEG) :
    numbers (xs ++ ys) = numbers xs ++ numbers ys := List.map_append

@[simp] theorem numbers_length (segs : List IKCPSEG) : (numbers segs).length = segs.length :=
  List.length_map _

theorem numbers_cores (segs : List IKCPSEG) : numbers (cores segs) = numbers segs := by
  unfold numbers cores
  rw [List.map_map]
  rfl

theorem mem_numbers {segs : List IKCPSEG} {seg : IKCPSEG} (h : seg ∈ segs) :
    seg.sn ∈ numbers segs :=
  List.mem_map_of_mem h

/-! ## Opening the window -/

/-- The opened segments are numbered from `snd_nxt` on. -/
theorem openWindow_numbers (kcp : IKCPCB) (wnd limit sndNxt : UInt32) (queue : List IKCPSEG) :
    numbers (openWindow kcp wnd limit sndNxt queue).1 =
      Serial.run sndNxt (openWindow kcp wnd limit sndNxt queue).1.length := by
  induction queue generalizing sndNxt with
  | nil => rfl
  | cons newseg queue ih =>
      unfold openWindow
      split
      · dsimp only [List.length_cons]
        rw [numbers_cons, ih, Serial.run]
        rfl
      · rfl

/-- The loop stops at the end of the window. -/
theorem openWindow_fits {kcp : IKCPCB} {wnd cwnd sndNxt base : UInt32} {queue : List IKCPSEG}
    (hcwnd : cwnd.toNat < 2 ^ 30) (hnxt : offset base sndNxt < 2 ^ 30) :
    offset base sndNxt + (openWindow kcp wnd (base + cwnd) sndNxt queue).1.length ≤
      max (offset base sndNxt) cwnd.toNat := by
  induction queue generalizing sndNxt with
  | nil => exact Nat.le_max_left _ _
  | cons newseg queue ih =>
      have hend : offset base (base + cwnd) = cwnd.toNat := Serial.offset_add_self base cwnd
      have hdiff : itimediff sndNxt (base + cwnd) = (offset base sndNxt : Int) - cwnd.toNat := by
        rw [← hend]
        exact Serial.diff_eq_offset base (by omega) (by omega)
      unfold openWindow
      split
      · have hone : offset base (sndNxt + 1) = offset base sndNxt + 1 :=
          Serial.offset_add (k := 1) (by omega)
        have hrest := @ih (sndNxt + 1) (by omega)
        dsimp only [List.length_cons]
        omega
      · exact Nat.le_max_left _ _

/-- The head of the buffer is unacknowledged, before and after segments are opened. -/
theorem moveSndQueue_una {kcp : IKCPCB} (wnd cwnd : UInt32)
    (h : kcp.sndUna = (ikcpShrinkBuf kcp).sndUna) :
    (moveSndQueue kcp wnd cwnd).sndUna = (ikcpShrinkBuf (moveSndQueue kcp wnd cwnd)).sndUna := by
  show kcp.sndUna = _
  unfold ikcpShrinkBuf moveSndQueue at *
  dsimp only at *
  cases hbuf : kcp.sndBuf with
  | cons seg segs =>
      rw [hbuf] at h
      exact h
  | nil =>
      rw [hbuf] at h
      cases hopen : (openWindow kcp wnd (kcp.sndUna + cwnd) kcp.sndNxt kcp.sndQueue).1 with
      | nil => simpa using h
      | cons seg segs =>
          have hget : (openWindow kcp wnd (kcp.sndUna + cwnd) kcp.sndNxt kcp.sndQueue).1[0]? =
              some seg := by rw [hopen]; rfl
          obtain ⟨newseg, -, rfl⟩ := openWindow_get hget
          show kcp.sndUna = kcp.sndNxt + UInt32.ofNat 0
          simpa using h

theorem sn_of_core {a b : IKCPSEG} (h : a.core = b.core) : a.sn = b.sn := by
  have hsn := congrArg IKCPSEG.sn h
  exact hsn

/-- The head of a buffer is known from the cores. -/
theorem shrink_una_cores {kcp kcp' : IKCPCB} (hnxt : kcp'.sndNxt = kcp.sndNxt)
    (hbuf : cores kcp'.sndBuf = cores kcp.sndBuf) :
    (ikcpShrinkBuf kcp').sndUna = (ikcpShrinkBuf kcp).sndUna := by
  unfold ikcpShrinkBuf
  cases hnew : kcp'.sndBuf with
  | nil =>
      cases hold : kcp.sndBuf with
      | nil => exact hnxt
      | cons seg segs =>
          rw [hnew, hold] at hbuf
          cases hbuf
  | cons seg' segs' =>
      cases hold : kcp.sndBuf with
      | nil =>
          rw [hnew, hold] at hbuf
          cases hbuf
      | cons seg segs =>
          rw [hnew, hold] at hbuf
          exact sn_of_core (List.cons.inj hbuf).1

/-! ## Insertion into rcv_buf -/

/-- The walk from the tail finds the number, or adds the segment at its place. -/
theorem insertFromTail_cases {base : UInt32} {newseg : IKCPSEG} {rev : List IKCPSEG}
    (hnew : offset base newseg.sn < 2 ^ 31)
    (hsmall : ∀ n ∈ numbers rev, offset base n < 2 ^ 31)
    (hdesc : (numbers rev).Pairwise fun x y => offset base y < offset base x) :
    (insertFromTail newseg rev = none ∧ newseg.sn ∈ numbers rev) ∨
      ∃ out, insertFromTail newseg rev = some out ∧ newseg.sn ∉ numbers rev ∧
        out.Perm (newseg :: rev) ∧
        (numbers out).Pairwise fun x y => offset base y < offset base x := by
  induction rev with
  | nil => exact Or.inr ⟨[newseg], rfl, by simp, List.Perm.refl _, List.pairwise_singleton _ _⟩
  | cons seg prev ih =>
      obtain ⟨hhead, htail⟩ := List.pairwise_cons.mp hdesc
      have hseg : offset base seg.sn < 2 ^ 31 := hsmall _ List.mem_cons_self
      have hrec := ih (fun n hn => hsmall n (List.mem_cons_of_mem _ hn)) htail
      unfold insertFromTail
      by_cases heq : seg.sn = newseg.sn
      · rw [if_pos heq, ← heq]
        exact Or.inl ⟨rfl, List.mem_cons_self⟩
      · have hne : offset base seg.sn ≠ offset base newseg.sn := fun h => heq (Serial.offset_inj h)
        have hdiff : itimediff newseg.sn seg.sn =
            (offset base newseg.sn : Int) - offset base seg.sn :=
          Serial.diff_eq_offset base hnew hseg
        rw [if_neg heq, hdiff]
        by_cases hgt : offset base seg.sn < offset base newseg.sn
        · rw [if_pos (by omega)]
          have habove : ∀ n ∈ numbers (seg :: prev), offset base n < offset base newseg.sn := by
            intro n hn
            rcases List.mem_cons.mp hn with rfl | hn
            · exact hgt
            · exact Nat.lt_trans (hhead n hn) hgt
          refine Or.inr ⟨_, rfl, ?_, List.Perm.refl _, List.pairwise_cons.mpr ⟨habove, hdesc⟩⟩
          intro hmem
          exact Nat.lt_irrefl _ (habove _ hmem)
        · rw [if_neg (by omega)]
          rcases hrec with ⟨hnone, hmem⟩ | ⟨out, hsome, hnot, hperm, hout⟩
          · rw [hnone]
            exact Or.inl ⟨rfl, List.mem_cons_of_mem _ hmem⟩
          · rw [hsome]
            refine Or.inr ⟨seg :: out, rfl, ?_, ?_, ?_⟩
            · intro hmem
              rcases List.mem_cons.mp hmem with h | h
              · exact heq h.symm
              · exact hnot h
            · exact (hperm.cons seg).trans (List.Perm.swap newseg seg prev)
            · refine List.pairwise_cons.mpr ⟨fun n hn => ?_, hout⟩
              have hn' : n ∈ numbers (newseg :: prev) := (hperm.map _).mem_iff.mp hn
              rcases List.mem_cons.mp hn' with rfl | hn'
              · show offset base newseg.sn < offset base seg.sn
                omega
              · exact hhead n hn'

theorem numbers_reverse (segs : List IKCPSEG) : numbers segs.reverse = (numbers segs).reverse :=
  List.map_reverse

/-- Inserting inside a window of less than half the circle gives a window again. -/
theorem insert_window {base : UInt32} {size : ℕ} {newseg : IKCPSEG} {buf : List IKCPSEG}
    (h : Window base size (numbers buf)) (hsize : size ≤ 2 ^ 31)
    (hnew : offset base newseg.sn < size) :
    (insertFromTail newseg buf.reverse = none ∧ newseg.sn ∈ numbers buf) ∨
      ∃ out, insertFromTail newseg buf.reverse = some out ∧ newseg.sn ∉ numbers buf ∧
        out.reverse.Perm (newseg :: buf) ∧ Window base size (numbers out.reverse) := by
  have hmem : ∀ n, n ∈ numbers buf.reverse ↔ n ∈ numbers buf := by
    intro n
    rw [numbers_reverse, List.mem_reverse]
  have hsmall : ∀ n ∈ numbers buf.reverse, offset base n < 2 ^ 31 := fun n hn =>
    Nat.lt_of_lt_of_le (h.inside n ((hmem n).mp hn)) hsize
  have hdesc : (numbers buf.reverse).Pairwise fun x y => offset base y < offset base x := by
    rw [numbers_reverse, List.pairwise_reverse]
    exact h.ascending
  rcases insertFromTail_cases (Nat.lt_of_lt_of_le hnew hsize) hsmall hdesc with
    ⟨hnone, hin⟩ | ⟨out, hsome, hnot, hperm, hout⟩
  · exact Or.inl ⟨hnone, (hmem _).mp hin⟩
  · have hperm' : out.reverse.Perm (newseg :: buf) :=
      (List.reverse_perm out).trans (hperm.trans ((List.reverse_perm buf).cons newseg))
    refine Or.inr ⟨out, hsome, fun hin => hnot ((hmem _).mpr hin), hperm', ?_, ?_⟩
    · rw [numbers_reverse, List.pairwise_reverse]
      exact hout
    · intro n hn
      have hn' : n ∈ numbers (newseg :: buf) := (hperm'.map _).mem_iff.mp hn
      rcases List.mem_cons.mp hn' with rfl | hn'
      · exact hnew
      · exact h.inside n hn'

/-! ## rcv_buf -> rcv_queue -/

/-- What the move loop takes from the front of the buffer, and why it stops. -/
structure Taken (wnd rcvNxt : UInt32) (count : ℕ) (moved : List IKCPSEG × List IKCPSEG) :
    Prop where
  count_le : count + moved.1.length ≤ wnd.toNat
  numbers : numbers moved.1 = Serial.run rcvNxt moved.1.length
  ready : ∀ seg ∈ moved.2.head?, seg.sn = rcvNxt + UInt32.ofNat moved.1.length →
    count + moved.1.length = wnd.toNat

theorem moveAvailable_taken {wnd : UInt32} (rcvNxt : UInt32) {count : ℕ} (buf : List IKCPSEG)
    (hcount : count ≤ wnd.toNat) :
    Taken wnd rcvNxt count (moveAvailable wnd rcvNxt count buf) := by
  induction buf generalizing rcvNxt count with
  | nil => exact ⟨hcount, rfl, by simp [moveAvailable]⟩
  | cons seg rest ih =>
      unfold moveAvailable
      by_cases hmove : seg.sn = rcvNxt ∧ count < wnd.toNat
      · obtain ⟨rfl, hroom⟩ := hmove
        obtain ⟨hle, hnum, hready⟩ := @ih (seg.sn + 1) (count + 1) hroom
        rw [if_pos ⟨rfl, hroom⟩]
        refine ⟨?_, ?_, ?_⟩
        · dsimp only [List.length_cons]
          omega
        · dsimp only [List.length_cons]
          rw [numbers_cons, hnum, Serial.run]
        · intro s hs heq
          dsimp only [List.length_cons] at heq ⊢
          rw [Serial.add_ofNat_succ] at heq
          have hfull := hready s hs heq
          omega
      · rw [if_neg hmove]
        refine ⟨hcount, rfl, ?_⟩
        intro s hs heq
        simp only [List.head?_cons, Option.mem_some_iff] at hs
        subst hs
        have hnroom : ¬ count < wnd.toNat := fun h => hmove ⟨by simpa using heq, h⟩
        dsimp only [List.length_nil]
        omega

/-- What the move loop leaves lies ahead of the new `rcv_nxt`. -/
theorem moveAvailable_window {wnd rcvNxt : UInt32} {count size : ℕ} {buf : List IKCPSEG}
    (hcount : count ≤ wnd.toNat) (h : Window rcvNxt size (numbers buf)) (hsize : size < 2 ^ 32) :
    Window (rcvNxt + UInt32.ofNat (moveAvailable wnd rcvNxt count buf).1.length)
      (size - (moveAvailable wnd rcvNxt count buf).1.length)
      (numbers (moveAvailable wnd rcvNxt count buf).2) := by
  have htaken := moveAvailable_taken rcvNxt buf hcount
  have happend := moveAvailable_append wnd rcvNxt count buf
  generalize moveAvailable wnd rcvNxt count buf = moved at *
  rw [← happend, numbers_append, htaken.numbers] at h
  have hlen := h.length_le
  rw [List.length_append, Serial.run_length] at hlen
  have hmid : offset rcvNxt (rcvNxt + UInt32.ofNat moved.1.length) = moved.1.length :=
    Serial.offset_base_add (by omega)
  have hbehind : ∀ n ∈ numbers moved.2, moved.1.length ≤ offset rcvNxt n := by
    intro n hn
    by_cases hzero : moved.1.length = 0
    · omega
    · -- the last number taken lies just before the new base
      have hlast : rcvNxt + UInt32.ofNat (moved.1.length - 1) ∈
          Serial.run rcvNxt moved.1.length := by
        have hsplit : moved.1.length = (moved.1.length - 1) + 1 := by omega
        rw [hsplit, Serial.run_append]
        exact List.mem_append_right _ List.mem_cons_self
      have hlt := (List.pairwise_append.mp h.ascending).2.2 _ hlast n hn
      rw [Serial.offset_base_add (by omega)] at hlt
      omega
  rw [← hmid] at hbehind
  have hrebase := (h.sublist (List.sublist_append_right _ _)).rebase hbehind
  rwa [hmid] at hrebase

end UdpKcp.Ikcp
