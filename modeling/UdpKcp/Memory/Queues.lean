import UdpKcp.Memory.Input

/-! # Sending and receiving through the pointers

`ikcp_send`, `ikcp_peeksize` and `ikcp_recv` on the queues in memory.
-/

namespace UdpKcp.Memory

open ByteCodec (Bytes)
open Ikcp
open Intrusive (front back front_nil front_cons back_concat)
open Triples (Triple)

/-! ## ikcp_send -/

/-- The stream-mode prelude: a new segment takes the place of the last one, with
its bytes and as much of the buffer as fits. Returns what is left of the buffer. -/
def extendTail (buffer : Bytes) : M Bytes := do
  if ← iqueueIsEmpty .sndQueue then return buffer
  else do
    let p ← prevOf (.head .sndQueue)
    let old ← iqueueEntry p
    let kcp ← getKcp
    if old.data.length < kcp.mss.toNat then do
      let capacity := kcp.mss.toNat - old.data.length
      let extend := if buffer.length < capacity then buffer.length else capacity
      let seg ← segmentNew { frg := 0, data := old.data ++ buffer.take extend }
      iqueueAddTail seg (.head .sndQueue)
      iqueueDelInit p
      segmentDelete p
      return buffer.drop extend
    else return buffer

/-- The fragment loop. -/
def fragmentLoop (mss : Nat) (stream : Int) : Nat → Bytes → M Unit
  | 0, _ => pure ()
  | count + 1, buffer => do
      let size := if buffer.length > mss then mss else buffer.length
      let seg ← segmentNew
        { frg := if stream = 0 then UInt32.ofNat count else 0, data := buffer.take size }
      iqueueInit seg
      iqueueAddTail seg (.head .sndQueue)
      setKcp fun kcp => { kcp with nsndQue := kcp.nsndQue + 1 }
      fragmentLoop mss stream count (buffer.drop size)

/-- The part of `ikcp_send` that cuts what is left of the buffer. -/
def sendRest (buffer : Bytes) : M Int := do
  let kcp ← getKcp
  if kcp.stream ≠ 0 ∧ buffer.length = 0 then return 0
  else do
    let count := sendCount kcp.mss.toNat buffer.length
    if count ≥ ikcpWndRcv.toNat then return -2
    else do
      let count := if count = 0 then 1 else count
      fragmentLoop kcp.mss.toNat kcp.stream count buffer
      return 0

/-- `ikcp_send`: `len` bytes at `buffer`. -/
def send (buffer : Bytes) (len : Int) : M Int := do
  if len < 0 then return -1
  else do
    let buffer := buffer.take len.toNat
    let kcp ← getKcp
    if kcp.stream ≠ 0 then do
      let rest ← extendTail buffer
      sendRest rest
    else sendRest buffer

/-! ## ikcp_peeksize and ikcp_recv -/

/-- The walk of `ikcp_peeksize`. -/
def peekLoop : Nat → Ptr → Int → M Int
  | 0, _, _ => failure
  | fuel + 1, p, length =>
      if p = .head .rcvQueue then return length
      else do
        let seg ← iqueueEntry p
        let length := length + seg.data.length
        if seg.frg = 0 then return length
        else do
          let next ← nextOf p
          peekLoop fuel next length

/-- `ikcp_peeksize`. -/
def peeksize : M Int := do
  if ← iqueueIsEmpty .rcvQueue then return -1
  else do
    let p ← nextOf (.head .rcvQueue)
    let seg ← iqueueEntry p
    let kcp ← getKcp
    if seg.frg = 0 then return seg.data.length
    else if kcp.nrcvQue < (seg.frg + 1).toNat then return -1
    else do
      let p ← nextOf (.head .rcvQueue)
      let fuel ← walkFuel
      peekLoop fuel p 0

/-- Unlink and free a merged segment, unless this is a peek. -/
def dropMerged (ispeek : Bool) (p : Ptr) : M Unit :=
  if ispeek then pure ()
  else do
    iqueueDel p
    segmentDelete p
    setKcp fun kcp => { kcp with nrcvQue := kcp.nrcvQue - 1 }

/-- The merge loop of `ikcp_recv`, with the bytes stored so far. -/
def mergeLoop (ispeek : Bool) : Nat → Ptr → Bytes → M Bytes
  | 0, _, _ => failure
  | fuel + 1, p, out =>
      if p = .head .rcvQueue then return out
      else do
        let seg ← iqueueEntry p
        let next ← nextOf p
        dropMerged ispeek p
        if seg.frg = 0 then return out ++ seg.data
        else mergeLoop ispeek fuel next (out ++ seg.data)

/-- The part of `ikcp_recv` behind its checks. -/
def recvMessage (ispeek : Bool) : M Bytes := do
  let kcp ← getKcp
  let recover := decide (kcp.nrcvQue ≥ kcp.rcvWnd.toNat)
  let p ← nextOf (.head .rcvQueue)
  let fuel ← walkFuel
  let out ← mergeLoop ispeek fuel p []
  moveAll
  setKcp fun kcp =>
    if kcp.nrcvQue < kcp.rcvWnd.toNat ∧ recover then
      { kcp with probe := kcp.probe ||| ikcpAskTell }
    else kcp
  return out

/-- `ikcp_recv`: the error code, or the bytes stored. `len` is not `INT_MIN`, which the
source could not negate. -/
def recv (len : Int) : M (Except Int Bytes) := do
  if ← iqueueIsEmpty .rcvQueue then return .error (-1)
  else do
    let size ← peeksize
    if size < 0 then return .error (-2)
    else if size > len.natAbs then return .error (-3)
    else do
      let out ← recvMessage (decide (len < 0))
      return .ok out

/-! ## The send queue -/

section Queues

variable {own : Queue → List (Nat × IKCPSEG)} {kcp k : IKCPCB} {acks : List (UInt32 × UInt32)}

theorem getKcp_stands {α : Type} (f : IKCPCB → α)
    (hf : ∀ own kcp acks, f (blockOf own kcp acks) = f kcp) :
    Triple (Stands [] k) getKcp fun kcp b => f kcp = f k ∧ Stands [] k b := by
  refine Stands.triple fun own kcp acks hk => getKcp_triple.post ?_
  rintro _ b ⟨rfl, hb⟩
  rw [hk, hf]
  exact ⟨rfl, hb.stands⟩

theorem fragmentLoop_triple (mss : Nat) (stream : Int) {count : Nat} (buffer : Bytes) :
    Triple (Stands [] k) (fragmentLoop mss stream count buffer) fun _ =>
      Stands [] { k with
        sndQueue := k.sndQueue ++ sendFragments mss stream count buffer
        nsndQue := k.nsndQue + count } := by
  induction count generalizing k buffer with
  | zero =>
      refine Triple.pure fun b hb => ?_
      simpa [sendFragments] using hb
  | succ count ih =>
      refine Stands.triple fun own kcp acks hk => ?_
      subst hk
      rw [fragmentLoop]
      refine (new_triple _).bind fun p => Triple.exists fun a => Triple.and fun hp => ?_
      subst hp
      refine init_triple.bind fun _ => (addTail_triple .sndQueue).bind fun _ => ?_
      refine (setKcp_triple rfl).bind fun _ => ?_
      generalize hsize : (if buffer.length > mss then mss else buffer.length) = size
      generalize hfrg : (if stream = 0 then UInt32.ofNat count else 0) = frg
      have hrec := ih (k := { blockOf own kcp acks with
        sndQueue := (own .sndQueue).map Prod.snd ++ [{ frg := frg, data := buffer.take size }]
        nsndQue := kcp.nsndQue + 1 }) (buffer.drop size)
      refine (hrec.pre fun b hb => ?_).post fun _ b hb => ?_
      · have hstands := hb.stands
        rw [blockOf_update_sndQueue] at hstands
        simpa [blockOf] using hstands
      · simp only [sendFragments, hsize, hfrg]
        simpa [blockOf, Nat.add_assoc, Nat.add_comm 1] using hb

/-- The block after the stream-mode prelude. -/
theorem extendTail_triple (buffer : Bytes) :
    Triple (Stands [] k) (extendTail buffer) fun r b =>
      r = (extendLast k buffer).2 ∧ Stands [] { k with sndQueue := (extendLast k buffer).1 } b := by
  refine Stands.triple fun own kcp acks hk => ?_
  subst hk
  refine (isEmpty_triple .sndQueue).bind_eq _ ?_
  rcases List.eq_nil_or_concat (own .sndQueue) with hnil | ⟨front, x, hlast⟩
  · have hsame : extendLast (blockOf own kcp acks) buffer = ([], buffer) := by
      simp [extendLast, blockOf, hnil]
    simp only [hnil, decide_true, if_true, hsame]
    refine Triple.pure fun b hb => ⟨rfl, ?_⟩
    simpa [blockOf, hnil] using hb.stands
  · rw [List.concat_eq_append] at hlast
    have hx : x ∈ own .sndQueue := by simp [hlast]
    have hblock : (blockOf own kcp acks).sndQueue = front.map Prod.snd ++ [x.2] := by
      simp [blockOf, hlast]
    have hne : decide (own .sndQueue = []) = false := by simp [hlast]
    simp only [hne, Bool.false_eq_true, if_false]
    refine (prev_head_triple .sndQueue).bind_eq _ ?_
    rw [hlast, back_concat]
    refine (entry_triple hx).bind_eq _ ?_
    refine getKcp_triple.bind_eq _ ?_
    refine Triple.ite (fun hroom => ?_) (fun hfull => ?_)
    · have hmss : x.2.data.length < (blockOf own kcp acks).mss.toNat := hroom
      generalize hextend : (if buffer.length < kcp.mss.toNat - x.2.data.length then buffer.length
        else kcp.mss.toNat - x.2.data.length) = extend
      have hext : extendLast (blockOf own kcp acks) buffer =
          (front.map Prod.snd ++ [{ frg := 0, data := x.2.data ++ buffer.take extend }],
            buffer.drop extend) := by
        rw [← hextend]
        simp only [extendLast, hblock, List.getLast?_append, List.getLast?_singleton,
          Option.some_or, if_pos hmss, List.dropLast_concat]
        rfl
      generalize ({ frg := 0, data := x.2.data ++ buffer.take extend } : IKCPSEG) = seg at hext ⊢
      refine (new_triple seg).bind fun p => Triple.exists fun a => Triple.and fun hp => ?_
      subst hp
      refine (addTail_triple .sndQueue).bind fun _ => ?_
      have hsplit : Function.update own .sndQueue (own .sndQueue ++ [(a, seg)]) .sndQueue =
          front ++ x :: [(a, seg)] := by
        simp [hlast]
      refine (delInit_triple hsplit).bind fun _ => delete_triple.bind fun _ => ?_
      refine Triple.pure fun b hb => ?_
      have hstands := hb.stands
      rw [blockOf_update_sndQueue, blockOf_update_sndQueue] at hstands
      rw [hext]
      exact ⟨rfl, by simpa using hstands⟩
    · refine Triple.pure fun b hb => ?_
      have hext : extendLast (blockOf own kcp acks) buffer =
          ((blockOf own kcp acks).sndQueue, buffer) := by
        have hmss : ¬ x.2.data.length < (blockOf own kcp acks).mss.toNat := hfull
        simp [extendLast, hblock, hmss]
      rw [hext]
      exact ⟨rfl, hb.stands⟩

/-- The block and the result of `sendRest`. -/
def cutRest (k : IKCPCB) (buffer : Bytes) : IKCPCB × Int :=
  if k.stream ≠ 0 ∧ buffer.length = 0 then (k, 0)
  else if sendCount k.mss.toNat buffer.length ≥ ikcpWndRcv.toNat then (k, -2)
  else
    let count := sendCount k.mss.toNat buffer.length
    let count := if count = 0 then 1 else count
    ({ k with
        sndQueue := k.sndQueue ++ sendFragments k.mss.toNat k.stream count buffer
        nsndQue := k.nsndQue + count }, 0)

/-- The block and the result of `ikcp_send`. When cutting fails in stream mode, the
bytes that went into the last queued segment stay there. -/
def sendOutcome (k : IKCPCB) (buffer : Bytes) (len : Int) : IKCPCB × Int :=
  if len < 0 then (k, -1)
  else if k.stream ≠ 0 then
    cutRest { k with sndQueue := (extendLast k (buffer.take len.toNat)).1 }
      (extendLast k (buffer.take len.toNat)).2
  else cutRest k (buffer.take len.toNat)

theorem sendRest_triple (buffer : Bytes) :
    Triple (Stands [] k) (sendRest buffer) fun r b =>
      r = (cutRest k buffer).2 ∧ Stands [] (cutRest k buffer).1 b := by
  have hread := getKcp_stands (k := k) (fun kcp => (kcp.stream, kcp.mss)) fun _ _ _ => rfl
  refine hread.bind fun kcp => Triple.and fun hsame => ?_
  obtain ⟨hstream, hmss⟩ := Prod.mk.inj hsame
  rw [hstream, hmss]
  unfold cutRest
  dsimp only
  refine Triple.ite (fun hdone => ?_) (fun hmore => Triple.ite (fun hmany => ?_) (fun hfew => ?_))
  · rw [if_pos hdone]
    exact Triple.pure fun b hb => ⟨rfl, hb⟩
  · rw [if_neg hmore, if_pos hmany]
    exact Triple.pure fun b hb => ⟨rfl, hb⟩
  · rw [if_neg hmore, if_neg hfew]
    exact (fragmentLoop_triple _ _ _).bind fun _ => Triple.pure fun b hb => ⟨rfl, hb⟩

theorem send_triple (buffer : Bytes) (len : Int) :
    Triple (Stands [] k) (send buffer len) fun r b =>
      r = (sendOutcome k buffer len).2 ∧ Stands [] (sendOutcome k buffer len).1 b := by
  unfold send sendOutcome
  refine Triple.ite (fun hneg => ?_) (fun hpos => ?_)
  · rw [if_pos hneg]
    exact Triple.pure fun b hb => ⟨rfl, hb⟩
  · rw [if_neg hpos]
    have hread := getKcp_stands (k := k) IKCPCB.stream fun _ _ _ => rfl
    refine hread.bind fun kcp => Triple.and fun hstream => ?_
    rw [hstream]
    refine Triple.ite (fun hstr => ?_) (fun hstr => ?_)
    · rw [if_pos hstr]
      refine (extendTail_triple _).bind fun rest => Triple.and fun hrest => ?_
      rw [hrest]
      exact sendRest_triple _
    · rw [if_neg hstr]
      exact sendRest_triple _

/-- The list model's `ikcp_send` gives the block of a successful call only. -/
theorem sendOutcome_ikcpSend (k : IKCPCB) (buffer : Bytes) (len : Int) :
    ikcpSend k buffer len =
      if (sendOutcome k buffer len).2 = 0 then .ok (sendOutcome k buffer len).1
      else .error (sendOutcome k buffer len).2 := by
  unfold ikcpSend sendOutcome cutRest
  split_ifs <;> simp_all

/-- Outside stream mode a failed `ikcp_send` leaves the block alone. -/
theorem sendOutcome_failed {buffer : Bytes} {len : Int} (hstream : k.stream = 0)
    (hfail : (sendOutcome k buffer len).2 ≠ 0) : (sendOutcome k buffer len).1 = k := by
  unfold sendOutcome cutRest at hfail ⊢
  split_ifs at hfail ⊢ <;> simp_all

/-! ## The receive queue -/

theorem peekLoop_triple {done rest : List (Nat × IKCPSEG)} (hown : own .rcvQueue = done ++ rest)
    {fuel : Nat} (hfuel : rest.length < fuel) (length : Int) :
    Triple (Holds own [] kcp acks) (peekLoop fuel (front .rcvQueue rest) length) fun r b =>
      r = length + peekLength (rest.map Prod.snd) ∧ Holds own [] kcp acks b := by
  induction rest generalizing done fuel length with
  | nil =>
      obtain ⟨fuel, rfl⟩ := Nat.exists_eq_succ_of_ne_zero (Nat.ne_of_gt (Nat.zero_lt_of_lt hfuel))
      rw [peekLoop, if_pos front_nil]
      exact Triple.pure fun b hb => ⟨(Int.add_zero length).symm, hb⟩
  | cons x rest ih =>
      obtain ⟨fuel, rfl⟩ := Nat.exists_eq_succ_of_ne_zero (Nat.ne_of_gt (Nat.zero_lt_of_lt hfuel))
      have hx : x ∈ own .rcvQueue := by simp [hown]
      rw [peekLoop, if_neg front_ne_head, front_cons]
      refine (entry_triple hx).bind_eq _ ?_
      refine Triple.ite (fun hfrg => ?_) (fun hfrg => ?_)
      · refine Triple.pure fun b hb => ⟨?_, hb⟩
        simp [peekLength, hfrg]
      · have hnext : own .rcvQueue = (done ++ [x]) ++ rest := by simp [hown]
        refine (next_triple hown).bind_eq _ ?_
        refine (ih hnext (by simpa using hfuel) _).post fun r b hb => ?_
        simpa [peekLength, hfrg, Int.add_assoc] using hb

theorem peeksize_triple :
    Triple (Stands [] k) peeksize fun r b => r = ikcpPeeksize k ∧ Stands [] k b := by
  refine Stands.triple fun own kcp acks hk => ?_
  subst hk
  refine (isEmpty_triple .rcvQueue).bind_eq _ ?_
  cases hque : own .rcvQueue with
  | nil =>
      simp only [decide_true, if_true]
      refine Triple.pure fun b hb => ⟨?_, hb.stands⟩
      simp [ikcpPeeksize, blockOf, hque]
  | cons x rest =>
      have hx : x ∈ own .rcvQueue := by simp [hque]
      have hblock : (blockOf own kcp acks).rcvQueue = x.2 :: rest.map Prod.snd := by
        simp [blockOf, hque]
      have hnque : (blockOf own kcp acks).nrcvQue = kcp.nrcvQue := rfl
      simp only [reduceCtorEq, decide_false, Bool.false_eq_true, if_false]
      refine (next_head_triple .rcvQueue).bind_eq _ ?_
      rw [hque, front_cons]
      refine (entry_triple hx).bind_eq _ ?_
      refine getKcp_triple.bind_eq _ ?_
      refine Triple.ite (fun hfrg => ?_) (fun hfrg => Triple.ite (fun hfew => ?_) (fun hall => ?_))
      · refine Triple.pure fun b hb => ⟨?_, hb.stands⟩
        simp [ikcpPeeksize, hblock, hfrg]
      · refine Triple.pure fun b hb => ⟨?_, hb.stands⟩
        simp only [ikcpPeeksize, hblock, if_neg hfrg, hnque, if_pos hfew]
      · refine (next_head_triple .rcvQueue).bind_eq _ ?_
        refine walkFuel_triple.bind fun fuel => Triple.and fun hfuel => ?_
        refine (peekLoop_triple (List.nil_append _).symm (hfuel .rcvQueue) 0).post ?_
        rintro r b ⟨rfl, hb⟩
        refine ⟨?_, hb.stands⟩
        simp only [ikcpPeeksize, hblock, if_neg hfrg, hnque, if_neg hall, hque, List.map_cons]
        omega

theorem dropMessage_last {seg : IKCPSEG} {rest : List IKCPSEG} (hque : k.rcvQueue = seg :: rest)
    (hfrg : seg.frg = 0) :
    dropMessage k = { k with rcvQueue := rest, nrcvQue := k.nrcvQue - 1 } := by
  simp [dropMessage, hque, mergeFragments, hfrg]

theorem dropMessage_more {seg : IKCPSEG} {rest : List IKCPSEG} (hque : k.rcvQueue = seg :: rest)
    (hfrg : seg.frg ≠ 0) :
    dropMessage k = dropMessage { k with rcvQueue := rest, nrcvQue := k.nrcvQue - 1 } := by
  simp only [dropMessage, hque, mergeFragments, if_neg hfrg, List.length_cons]
  congr 1
  omega

/-- Merging without a peek takes the merged segments out of the queue. -/
theorem mergeLoop_triple {fuel : Nat} (hfuel : (own .rcvQueue).length < fuel) (out : Bytes) :
    Triple (Holds own [] kcp acks) (mergeLoop false fuel (front .rcvQueue (own .rcvQueue)) out)
      fun r b =>
        r = out ++ (mergeFragments (blockOf own kcp acks).rcvQueue).1.flatMap (·.data) ∧
          Stands [] (dropMessage (blockOf own kcp acks)) b := by
  generalize hxs : own .rcvQueue = xs at hfuel ⊢
  induction xs generalizing own kcp fuel out with
  | nil =>
      obtain ⟨fuel, rfl⟩ := Nat.exists_eq_succ_of_ne_zero (Nat.ne_of_gt (Nat.zero_lt_of_lt hfuel))
      rw [mergeLoop, if_pos front_nil]
      refine Triple.pure fun b hb => ?_
      simpa [dropMessage, blockOf, hxs, mergeFragments] using hb.stands
  | cons x xs ih =>
      obtain ⟨fuel, rfl⟩ := Nat.exists_eq_succ_of_ne_zero (Nat.ne_of_gt (Nat.zero_lt_of_lt hfuel))
      have hx : x ∈ own .rcvQueue := by simp [hxs]
      have hsplit : own .rcvQueue = [] ++ x :: xs := hxs
      have hblock : (blockOf own kcp acks).rcvQueue = x.2 :: xs.map Prod.snd := by
        simp [blockOf, hxs]
      rw [mergeLoop, if_neg front_ne_head]
      refine (entry_triple hx).bind_eq _ ?_
      refine (next_triple hsplit).bind_eq _ ?_
      have hdrop : Triple (Holds own [] kcp acks) (dropMerged false (.node x.1)) fun _ =>
          Holds (Function.update own .rcvQueue xs) []
            { kcp with nrcvQue := kcp.nrcvQue - 1 } acks :=
        (del_triple hsplit).bind fun _ => delete_triple.bind fun _ => setKcp_triple rfl
      refine hdrop.bind fun _ => ?_
      refine Triple.ite (fun hfrg => ?_) (fun hfrg => ?_)
      · refine Triple.pure fun b hb => ⟨?_, ?_⟩
        · simp [hblock, mergeFragments, hfrg]
        · have hstands := hb.stands
          rw [blockOf_update_rcvQueue] at hstands
          rw [dropMessage_last hblock hfrg]
          exact hstands
      · refine (ih _ (Function.update_self _ _ _) (by simpa using hfuel)).post ?_
        rintro r b ⟨rfl, hb⟩
        rw [blockOf_update_rcvQueue] at hb ⊢
        rw [dropMessage_more hblock hfrg]
        refine ⟨?_, hb⟩
        simp [hblock, mergeFragments, hfrg]

/-- A peek only reads. -/
theorem mergeLoop_peek_triple {done rest : List (Nat × IKCPSEG)}
    (hown : own .rcvQueue = done ++ rest) {fuel : Nat} (hfuel : rest.length < fuel) (out : Bytes) :
    Triple (Holds own [] kcp acks) (mergeLoop true fuel (front .rcvQueue rest) out) fun r b =>
      r = out ++ (mergeFragments (rest.map Prod.snd)).1.flatMap (·.data) ∧
        Holds own [] kcp acks b := by
  induction rest generalizing done fuel out with
  | nil =>
      obtain ⟨fuel, rfl⟩ := Nat.exists_eq_succ_of_ne_zero (Nat.ne_of_gt (Nat.zero_lt_of_lt hfuel))
      rw [mergeLoop, if_pos front_nil]
      exact Triple.pure fun b hb => ⟨by simp [mergeFragments], hb⟩
  | cons x rest ih =>
      obtain ⟨fuel, rfl⟩ := Nat.exists_eq_succ_of_ne_zero (Nat.ne_of_gt (Nat.zero_lt_of_lt hfuel))
      have hx : x ∈ own .rcvQueue := by simp [hown]
      have hnext : own .rcvQueue = (done ++ [x]) ++ rest := by simp [hown]
      rw [mergeLoop, if_neg front_ne_head]
      refine (entry_triple hx).bind_eq _ ?_
      refine (next_triple hown).bind_eq _ ?_
      have hkeep : Triple (Holds own [] kcp acks) (dropMerged true (.node x.1)) fun _ =>
          Holds own [] kcp acks := Triple.pure fun b hb => hb
      refine hkeep.bind fun _ => ?_
      refine Triple.ite (fun hfrg => ?_) (fun hfrg => ?_)
      · refine Triple.pure fun b hb => ⟨?_, hb⟩
        simp [mergeFragments, hfrg]
      · refine (ih hnext (by simpa using hfuel) _).post ?_
        rintro r b ⟨rfl, hb⟩
        refine ⟨?_, hb⟩
        simp [mergeFragments, hfrg]

theorem recvMessage_triple (ispeek : Bool) :
    Triple (Stands [] k) (recvMessage ispeek) fun r b =>
      r = (mergeFragments k.rcvQueue).1.flatMap (·.data) ∧
        Stands []
          (let kcp := moveRcvBuf (if ispeek then k else dropMessage k)
          if kcp.nrcvQue < kcp.rcvWnd.toNat ∧ k.nrcvQue ≥ k.rcvWnd.toNat then
            { kcp with probe := kcp.probe ||| ikcpAskTell }
          else kcp) b := by
  refine Stands.triple fun own kcp acks hk => ?_
  have hcounts : kcp.nrcvQue = k.nrcvQue ∧ kcp.rcvWnd = k.rcvWnd := by
    rw [hk]
    exact ⟨rfl, rfl⟩
  refine getKcp_triple.bind_eq _ ?_
  rw [hcounts.1, hcounts.2]
  refine (next_head_triple .rcvQueue).bind_eq _ ?_
  refine walkFuel_triple.bind fun fuel => Triple.and fun hfuel => ?_
  have hmerge : Triple (Holds own [] kcp acks)
      (mergeLoop ispeek fuel (front .rcvQueue (own .rcvQueue)) []) fun r b =>
        r = (mergeFragments k.rcvQueue).1.flatMap (·.data) ∧
          Stands [] (if ispeek then k else dropMessage k) b := by
    rw [hk]
    cases ispeek with
    | true =>
        refine (mergeLoop_peek_triple (List.nil_append _).symm (hfuel .rcvQueue) []).post ?_
        exact fun r b hb => ⟨hb.1, hb.2.stands⟩
    | false => exact mergeLoop_triple (hfuel .rcvQueue) []
  refine hmerge.bind fun out => Triple.and fun hout => ?_
  refine moveAll_triple.bind fun _ => ?_
  simp only [decide_eq_true_eq, ite_probe]
  have hprobe := @Stands.setKcp [] (fun kcp => { kcp with
    probe := if kcp.nrcvQue < kcp.rcvWnd.toNat ∧ k.nrcvQue ≥ k.rcvWnd.toNat then
      kcp.probe ||| ikcpAskTell else kcp.probe }) (moveRcvBuf (if ispeek then k else dropMessage k))
    (fun _ => rfl) fun _ _ _ => rfl
  exact hprobe.bind fun _ => Triple.pure fun b hb => ⟨hout, hb⟩

/-- `ikcp_recv` through the pointers. A refused call leaves the block alone. -/
theorem recv_triple (len : Int) :
    Triple (Stands [] k) (recv len) fun r b =>
      match ikcpRecv k len with
      | .error code => r = .error code ∧ Stands [] k b
      | .ok (bytes, k') => r = .ok bytes ∧ Stands [] k' b := by
  have hempty : Triple (Stands [] k) (iqueueIsEmpty .rcvQueue) fun r b =>
      r = decide (k.rcvQueue = []) ∧ Stands [] k b := by
    refine Stands.triple fun own kcp acks hk => (isEmpty_triple .rcvQueue).post ?_
    rintro r b ⟨rfl, hb⟩
    rw [hk]
    exact ⟨by simp [blockOf], hb.stands⟩
  unfold ikcpRecv
  refine hempty.bind_eq _ ?_
  by_cases hnil : k.rcvQueue = []
  · simp only [hnil, decide_true, if_true]
    exact Triple.pure fun b hb => ⟨rfl, hb⟩
  · simp only [hnil, decide_false, Bool.false_eq_true, if_false]
    refine peeksize_triple.bind_eq _ ?_
    refine Triple.ite (fun hneg => ?_) (fun hpos => Triple.ite (fun hlong => ?_) (fun hfits => ?_))
    · rw [if_pos hneg]
      exact Triple.pure fun b hb => ⟨rfl, hb⟩
    · rw [if_neg hpos, if_pos hlong]
      exact Triple.pure fun b hb => ⟨rfl, hb⟩
    · rw [if_neg hpos, if_neg hfits]
      refine (recvMessage_triple _).bind fun out => Triple.and fun hout => ?_
      refine Triple.pure fun b hb => ⟨congrArg _ hout, ?_⟩
      by_cases hlen : len < 0
      · simpa [hlen] using hb
      · simpa [hlen, dropMessage] using hb

end Queues

end UdpKcp.Memory
