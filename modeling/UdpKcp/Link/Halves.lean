import UdpKcp.Link.View

/-! # The two halves of a block

What the list walks of `ikcp.c` do to the layout of the sending and of the
receiving half, and which of the moves of a peer they are.
-/

namespace UdpKcp.Link

open ByteCodec (Bytes)
open Framing (Piece)
open SelectiveRepeat (Fact Peer Move Moves)
open Ikcp Plug

theorem itimediff_small {a b : UInt32} (ha : a.toNat < halfCircle) (hb : b.toNat < halfCircle) :
    itimediff a b = (a.toNat : Int) - b.toNat :=
  Serial.diff_of_lt_half ha hb

/-! ## The sending half -/

/-- `ikcp_parse_una` keeps exactly the numbers from `una` on. -/
theorem mem_dropUnacked {una : UInt32} {segs : List IKCPSEG} (huna : una.toNat < halfCircle)
    (hasc : Ascending segs) (hsmall : ∀ n ∈ sns segs, n < halfCircle) {n : ℕ} :
    n ∈ sns (dropUnacked una segs) ↔ n ∈ sns segs ∧ una.toNat ≤ n := by
  induction segs with
  | nil => simp [dropUnacked]
  | cons seg next ih =>
      obtain ⟨hhead, htail⟩ := ascending_cons.mp hasc
      have hseg : seg.sn.toNat < halfCircle := hsmall _ List.mem_cons_self
      have hrest := ih htail fun m hm => hsmall m (List.mem_cons_of_mem _ hm)
      unfold dropUnacked
      rw [itimediff_small huna hseg]
      by_cases hlt : seg.sn.toNat < una.toNat
      · rw [if_pos (by omega), hrest, sns_cons, List.mem_cons]
        constructor
        · exact fun h => ⟨Or.inr h.1, h.2⟩
        · rintro ⟨rfl | hn, hle⟩
          · omega
          · exact ⟨hn, hle⟩
      · rw [if_neg (by omega), sns_cons, List.mem_cons]
        constructor
        · rintro (rfl | hn)
          · exact ⟨Or.inl rfl, by omega⟩
          · have hgt := hhead n hn
            exact ⟨Or.inr hn, by omega⟩
        · exact fun h => h.1

/-- `ikcp_parse_ack` deletes exactly its number. -/
theorem mem_removeAcked {sn : UInt32} {segs : List IKCPSEG} (hsn : sn.toNat < halfCircle)
    (hasc : Ascending segs) (hsmall : ∀ n ∈ sns segs, n < halfCircle) {n : ℕ} :
    n ∈ sns (removeAcked sn segs) ↔ n ∈ sns segs ∧ n ≠ sn.toNat := by
  induction segs with
  | nil => simp [removeAcked]
  | cons seg next ih =>
      obtain ⟨hhead, htail⟩ := ascending_cons.mp hasc
      have hseg : seg.sn.toNat < halfCircle := hsmall _ List.mem_cons_self
      have hrest := ih htail fun m hm => hsmall m (List.mem_cons_of_mem _ hm)
      unfold removeAcked
      by_cases heq : sn = seg.sn
      · rw [if_pos heq, sns_cons, List.mem_cons, heq]
        constructor
        · intro hn
          have hgt := hhead n hn
          exact ⟨Or.inr hn, by omega⟩
        · rintro ⟨hn | hn, hne⟩
          · exact absurd hn hne
          · exact hn
      · have hne : sn.toNat ≠ seg.sn.toNat := fun h => heq (UInt32.toNat_inj.mp h)
        rw [if_neg heq, itimediff_small hsn hseg]
        by_cases hlt : sn.toNat < seg.sn.toNat
        · rw [if_pos (by omega), sns_cons, List.mem_cons]
          constructor
          · rintro (rfl | hn)
            · exact ⟨Or.inl rfl, by omega⟩
            · have hgt := hhead n hn
              exact ⟨Or.inr hn, by omega⟩
          · exact fun h => h.1
        · rw [if_neg (by omega), sns_cons, sns_cons, List.mem_cons, List.mem_cons, hrest]
          constructor
          · rintro (rfl | hn)
            · exact ⟨Or.inl rfl, by omega⟩
            · exact ⟨Or.inr hn.1, hn.2⟩
          · rintro ⟨rfl | hn, hne⟩
            · exact Or.inl rfl
            · exact Or.inr ⟨hn, hne⟩

theorem SendShape.small {stream : List (Piece UInt8)} {kcp : IKCPCB} (h : SendShape stream kcp)
    {n : ℕ} (hn : n ∈ sns kcp.sndBuf) : n < halfCircle :=
  Nat.lt_trans (h.below n hn) h.nxt_lt

theorem sns_sublist {kcp kcp' : IKCPCB} (h : SendKept kcp kcp') :
    (sns kcp'.sndBuf).Sublist (sns kcp.sndBuf) := by
  rw [sns_eq_cores, sns_eq_cores kcp.sndBuf]
  exact h.buf.map _

/-- `snd_una` after `ikcp_shrink_buf`: a number of the buffer, or `snd_nxt` without one. -/
theorem shrink_una_cases (kcp : IKCPCB) :
    (ikcpShrinkBuf kcp).sndUna.toNat ∈ sns kcp.sndBuf ∨
      (kcp.sndBuf = [] ∧ (ikcpShrinkBuf kcp).sndUna = kcp.sndNxt) := by
  unfold ikcpShrinkBuf
  cases hbuf : kcp.sndBuf with
  | nil => exact Or.inr ⟨rfl, rfl⟩
  | cons seg segs => exact Or.inl List.mem_cons_self

theorem SendShape.una_le {stream : List (Piece UInt8)} {kcp : IKCPCB} (h : SendShape stream kcp)
    {n : ℕ} (hn : n ∈ sns kcp.sndBuf) : kcp.sndUna.toNat ≤ n := by
  have huna := h.una
  have hasc := h.ascending
  unfold ikcpShrinkBuf at huna
  cases hbuf : kcp.sndBuf with
  | nil =>
      rw [hbuf] at hn
      exact absurd hn List.not_mem_nil
  | cons seg segs =>
      rw [hbuf] at hn huna hasc
      have hhead : kcp.sndUna = seg.sn := huna
      rcases List.mem_cons.mp hn with rfl | hn
      · rw [hhead]
      · have hlt := (ascending_cons.mp hasc).1 n hn
        rw [hhead]
        omega

theorem SendShape.una_le_nxt {stream : List (Piece UInt8)} {kcp : IKCPCB}
    (h : SendShape stream kcp) : kcp.sndUna.toNat ≤ kcp.sndNxt.toNat := by
  have huna := h.una
  rcases shrink_una_cases kcp with hmem | ⟨-, heq⟩
  · rw [← huna] at hmem
    have hlt := h.below _ hmem
    omega
  · rw [huna, heq]

/-- Deleting from the buffer and resetting `snd_una` keeps the layout. -/
theorem SendShape.kept {stream : List (Piece UInt8)} {kcp kcp' : IKCPCB}
    (h : SendShape stream kcp) (hk : SendKept kcp kcp')
    (hu : kcp'.sndUna = (ikcpShrinkBuf kcp').sndUna) : SendShape stream kcp' where
  queue := by
    rw [hk.queue, hk.nxt]
    exact h.queue
  nxt_le := by
    rw [hk.nxt]
    exact h.nxt_le
  nxt_lt := by
    rw [hk.nxt]
    exact h.nxt_lt
  ascending := h.ascending.sublist (sns_sublist hk)
  below := by
    intro n hn
    rw [hk.nxt]
    exact h.below n ((sns_sublist hk).mem hn)
  content := fun seg hs => h.content seg (hk.buf.mem hs)
  una := hu
  window := by
    have hwindow := h.window
    have hnxt := h.una_le_nxt
    rw [hk.nxt, hu]
    rcases shrink_una_cases kcp' with hmem | ⟨-, heq⟩
    · have hle := h.una_le ((sns_sublist hk).mem hmem)
      omega
    · rw [heq, hk.nxt]
      omega

/-- The fields of the receiving half are the same. -/
structure RecvSame (old new : IKCPCB) : Prop where
  wnd : new.rcvWnd = old.rcvWnd
  nxt : new.rcvNxt = old.rcvNxt
  queue : new.rcvQueue = old.rcvQueue
  count : new.nrcvQue = old.nrcvQue
  buf : new.rcvBuf = old.rcvBuf
  acks : new.acklist = old.acklist

theorem RecvSame.trans {a b c : IKCPCB} (hab : RecvSame a b) (hbc : RecvSame b c) :
    RecvSame a c :=
  ⟨hbc.wnd.trans hab.wnd, hbc.nxt.trans hab.nxt, hbc.queue.trans hab.queue,
    hbc.count.trans hab.count, hbc.buf.trans hab.buf, hbc.acks.trans hab.acks⟩

theorem RecvShape.same {taken : List (Piece UInt8)} {kcp kcp' : IKCPCB}
    (h : RecvShape taken kcp) (hs : RecvSame kcp kcp') : RecvShape taken kcp' := by
  obtain ⟨hwnd, hnxt, hqueue, hcount, hbuf, hacks⟩ := hs
  refine ⟨⟨?_, ?_, ?_, ?_, ?_, ?_, ?_, ?_⟩, ?_⟩
  · rw [hwnd]; exact h.wnd
  · rw [hnxt, hqueue]; exact h.nxt
  · rw [hnxt]; exact h.nxt_lt
  · rw [hcount, hqueue]; exact h.count
  · rw [hcount]; exact h.count_le
  · rw [hbuf]; exact h.ascending
  · rw [hbuf, hnxt]; exact h.ahead
  · rw [hacks, hbuf, hnxt]; exact h.acks
  · rw [hbuf, hnxt, hcount]; exact h.ready

/-- The fields of the sending half are the same, up to time stamps and counters. -/
structure SendSame (old new : IKCPCB) : Prop where
  queue : new.sndQueue = old.sndQueue
  nxt : new.sndNxt = old.sndNxt
  una : new.sndUna = old.sndUna
  buf : cores new.sndBuf = cores old.sndBuf

theorem SendSame.trans {a b c : IKCPCB} (hab : SendSame a b) (hbc : SendSame b c) :
    SendSame a c :=
  ⟨hbc.queue.trans hab.queue, hbc.nxt.trans hab.nxt, hbc.una.trans hab.una,
    hbc.buf.trans hab.buf⟩

theorem SendShape.same {stream : List (Piece UInt8)} {kcp kcp' : IKCPCB}
    (h : SendShape stream kcp) (hs : SendSame kcp kcp') : SendShape stream kcp' := by
  apply h.kept ⟨hs.queue, hs.nxt, hs.buf ▸ List.Sublist.refl _⟩
  rw [hs.una, h.una, shrink_una_cores hs.nxt hs.buf]

section Views

variable {stream taken : List (Piece UInt8)} {said : Set (Fact (Piece UInt8))}
  {kcp kcp' : IKCPCB}

theorem view_same (hsend : SendSame kcp kcp') (hrecv : RecvSame kcp kcp') :
    view stream taken said kcp' = view stream taken said kcp := by
  have hsns : sns kcp'.sndBuf = sns kcp.sndBuf := by
    rw [sns_eq_cores, sns_eq_cores kcp.sndBuf, hsend.buf]
  unfold view
  rw [hsend.nxt, hsns, hrecv.queue, hrecv.buf]

/-- Only the pending numbers of the view change. -/
theorem view_pending (hnxt : kcp'.sndNxt = kcp.sndNxt) (hrecv : RecvSame kcp kcp')
    {pending : Set ℕ} (hp : ∀ n, n ∈ sns kcp'.sndBuf ↔ n ∈ pending) :
    view stream taken said kcp' = { view stream taken said kcp with pending := pending } := by
  have hset : {n | n ∈ sns kcp'.sndBuf} = pending := Set.ext hp
  unfold view
  rw [hset, hnxt, hrecv.queue, hrecv.buf]

end Views

/-! ## The receiving half -/

/-- What the move loop leaves, counted from where it started. -/
structure Moved (wnd rcvNxt : UInt32) (count : ℕ) (moved : List IKCPSEG × List IKCPSEG) :
    Prop where
  nxt : (rcvNxt + UInt32.ofNat moved.1.length).toNat = rcvNxt.toNat + moved.1.length
  nxt_lt : rcvNxt.toNat + moved.1.length < halfCircle
  count_le : count + moved.1.length ≤ wnd.toNat
  numbers : sns moved.1 = List.range' rcvNxt.toNat moved.1.length
  ascending : Ascending moved.2
  ahead : ∀ n ∈ sns moved.2, rcvNxt.toNat + moved.1.length ≤ n ∧ n + 1 < halfCircle
  ready : ∀ seg ∈ moved.2.head?, seg.sn = rcvNxt + UInt32.ofNat moved.1.length →
    count + moved.1.length = wnd.toNat

theorem succ_toNat {x : UInt32} (h : x.toNat + 1 < halfCircle) :
    (x + 1).toNat = x.toNat + 1 := by
  rw [UInt32.toNat_add]
  unfold halfCircle at h
  change (x.toNat + 1) % 2 ^ 32 = _
  omega

/-- Behind the number that is moved, the buffer lies ahead of the next one. -/
theorem ahead_tail {seg : IKCPSEG} {rest : List IKCPSEG} (hasc : Ascending (seg :: rest))
    (hahead : ∀ n ∈ sns (seg :: rest), seg.sn.toNat ≤ n ∧ n + 1 < halfCircle) :
    ∀ n ∈ sns rest, (seg.sn + 1).toNat ≤ n ∧ n + 1 < halfCircle := by
  intro n hn
  have hgt := (ascending_cons.mp hasc).1 n hn
  have hone := succ_toNat (hahead seg.sn.toNat List.mem_cons_self).2
  exact ⟨by omega, (hahead n (List.mem_cons_of_mem _ hn)).2⟩

/-- One more segment in front. -/
theorem Moved.cons {wnd : UInt32} {count : ℕ} {seg : IKCPSEG}
    {moved : List IKCPSEG × List IKCPSEG} (hseg : seg.sn.toNat + 1 < halfCircle)
    (h : Moved wnd (seg.sn + 1) (count + 1) moved) :
    Moved wnd seg.sn count (seg :: moved.1, moved.2) := by
  obtain ⟨hnxt, hnlt, hle, hnum, hasc, hahead, hready⟩ := h
  have hone := succ_toNat hseg
  have hlen : seg.sn + UInt32.ofNat (moved.1.length + 1) =
      seg.sn + 1 + UInt32.ofNat moved.1.length := by
    rw [UInt32.ofNat_add, UInt32.add_assoc, UInt32.add_comm (UInt32.ofNat _)]
    rfl
  refine ⟨?_, ?_, ?_, ?_, hasc, ?_, ?_⟩
  · dsimp only [List.length_cons]
    rw [hlen, hnxt]
    omega
  · dsimp only [List.length_cons]
    omega
  · dsimp only [List.length_cons]
    omega
  · dsimp only [List.length_cons]
    rw [sns_cons, hnum, hone, List.range'_succ]
  · intro n hn
    have hn' := hahead n hn
    dsimp only [List.length_cons]
    omega
  · intro s hs heq
    dsimp only [List.length_cons] at heq ⊢
    rw [hlen] at heq
    have hfull := hready s hs heq
    omega

theorem moveAvailable_moved {wnd rcvNxt : UInt32} {count : ℕ} {buf : List IKCPSEG}
    (hlt : rcvNxt.toNat < halfCircle) (hcount : count ≤ wnd.toNat) (hasc : Ascending buf)
    (hahead : ∀ n ∈ sns buf, rcvNxt.toNat ≤ n ∧ n + 1 < halfCircle) :
    Moved wnd rcvNxt count (moveAvailable wnd rcvNxt count buf) := by
  induction buf generalizing rcvNxt count with
  | nil => exact ⟨by simp [moveAvailable], hlt, hcount, rfl, hasc, hahead, by simp [moveAvailable]⟩
  | cons seg rest ih =>
      have hseg := (hahead seg.sn.toNat List.mem_cons_self).2
      unfold moveAvailable
      by_cases hmove : seg.sn = rcvNxt ∧ count < wnd.toNat
      · obtain ⟨rfl, hroom⟩ := hmove
        have hone := succ_toNat hseg
        rw [if_pos ⟨rfl, hroom⟩]
        exact Moved.cons hseg
          (ih (by omega) hroom (ascending_cons.mp hasc).2 (ahead_tail hasc hahead))
      · rw [if_neg hmove]
        refine ⟨by simp, hlt, hcount, rfl, hasc, hahead, ?_⟩
        intro s hs heq
        simp only [List.head?_cons, Option.mem_some_iff] at hs
        subst hs
        have hnroom : ¬ count < wnd.toNat := fun h => hmove ⟨by simpa using heq, h⟩
        simp only [List.length_nil]
        omega

theorem items_diff_head {seg : IKCPSEG} {rest : List IKCPSEG} (hasc : Ascending (seg :: rest)) :
    {e | e ∈ items (seg :: rest)} \ {(seg.sn.toNat, piece seg)} = {e | e ∈ items rest} := by
  obtain ⟨hhead, -⟩ := ascending_cons.mp hasc
  ext ⟨n, x⟩
  simp only [Set.mem_sdiff, Set.mem_ofPred_eq, Set.mem_singleton_iff, items_cons, List.mem_cons]
  constructor
  · rintro ⟨heq | hmem, hne⟩
    · exact absurd heq hne
    · exact hmem
  · intro hmem
    have hgt := hhead n (mem_sns_of_items hmem)
    refine ⟨Or.inr hmem, fun heq => ?_⟩
    have hn := congrArg Prod.fst heq
    dsimp only at hn
    omega

/-- The move loop promotes its pieces one after the other. -/
theorem promote_moves {heard : Set (Fact (Piece UInt8))} {p : Peer (Piece UInt8)}
    {wnd rcvNxt : UInt32} {count : ℕ} {buf : List IKCPSEG} {received : List (Piece UInt8)}
    (hlen : received.length = rcvNxt.toNat) (hasc : Ascending buf)
    (hahead : ∀ n ∈ sns buf, rcvNxt.toNat ≤ n ∧ n + 1 < halfCircle) :
    Moves heard { p with received := received, early := {e | e ∈ items buf} }
      { p with
        received := received ++ (moveAvailable wnd rcvNxt count buf).1.map piece
        early := {e | e ∈ items (moveAvailable wnd rcvNxt count buf).2} } := by
  induction buf generalizing rcvNxt count received with
  | nil =>
      simp only [moveAvailable, List.map_nil, List.append_nil]
      exact Relation.ReflTransGen.refl
  | cons seg rest ih =>
      unfold moveAvailable
      by_cases hmove : seg.sn = rcvNxt ∧ count < wnd.toNat
      · obtain ⟨rfl, hroom⟩ := hmove
        have hone := succ_toNat (hahead seg.sn.toNat List.mem_cons_self).2
        have hmem : (received.length, piece seg) ∈ items (seg :: rest) := by
          rw [hlen]
          exact List.mem_cons_self
        have hfirst : Move heard
            { p with received := received, early := {e | e ∈ items (seg :: rest)} }
            { p with received := received ++ [piece seg], early := {e | e ∈ items rest} } := by
          rw [← items_diff_head hasc, ← hlen]
          exact Move.promote { p with received := received, early := _ } (piece seg) hmem
        have hmore := @ih (seg.sn + 1) (count + 1) (received ++ [piece seg]) (by simp [hlen, hone])
          (ascending_cons.mp hasc).2 (ahead_tail hasc hahead)
        rw [if_pos ⟨rfl, hroom⟩]
        refine Relation.ReflTransGen.head hfirst ?_
        simpa using hmore
      · rw [if_neg hmove]
        simp only [List.map_nil, List.append_nil]
        exact Relation.ReflTransGen.refl

/-- `rcv_buf -> rcv_queue` is a run of promotions and settles the layout. -/
theorem moveRcvBuf_moves {taken : List (Piece UInt8)} {kcp : IKCPCB}
    (h : RecvLoose taken kcp) (stream : List (Piece UInt8))
    (heard said : Set (Fact (Piece UInt8))) :
    Moves heard (view stream taken said kcp) (view stream taken said (moveRcvBuf kcp)) ∧
      RecvShape taken (moveRcvBuf kcp) := by
  have hroom : kcp.nrcvQue ≤ kcp.rcvWnd.toNat := by
    rw [h.wnd]
    exact h.count_le
  have hmoved := moveAvailable_moved h.nxt_lt hroom h.ascending h.ahead
  have happend := moveAvailable_append kcp.rcvWnd kcp.rcvNxt kcp.nrcvQue kcp.rcvBuf
  have hlen : (taken ++ kcp.rcvQueue.map piece).length = kcp.rcvNxt.toNat := by
    rw [h.nxt]
    simp
  constructor
  · have hrun := @promote_moves heard (view stream taken said kcp) kcp.rcvWnd _ kcp.nrcvQue _ _
      hlen h.ascending h.ahead
    simpa [view, moveRcvBuf] using hrun
  · refine ⟨⟨h.wnd, ?_, ?_, ?_, ?_, hmoved.ascending, ?_, ?_⟩, ?_⟩
    · unfold moveRcvBuf
      dsimp only
      rw [hmoved.nxt, h.nxt, List.length_append]
      omega
    · unfold moveRcvBuf
      dsimp only
      rw [hmoved.nxt]
      exact hmoved.nxt_lt
    · unfold moveRcvBuf
      dsimp only
      rw [h.count, List.length_append]
    · unfold moveRcvBuf
      dsimp only
      rw [← h.wnd]
      exact hmoved.count_le
    · intro n hn
      have hn' := hmoved.ahead n hn
      unfold moveRcvBuf
      dsimp only
      rw [hmoved.nxt]
      exact hn'
    · intro ack hack
      unfold moveRcvBuf
      dsimp only
      rw [hmoved.nxt]
      rcases h.acks ack hack with hold | hold
      · exact Or.inl (by omega)
      · rw [← happend, sns_append, List.mem_append, hmoved.numbers, List.mem_range'_1] at hold
        exact hold.imp_left fun hn => hn.2
    · intro seg hs heq
      have hfull := hmoved.ready seg hs heq
      unfold moveRcvBuf
      dsimp only
      rw [hfull, h.wnd]

end UdpKcp.Link
