import UdpKcp.Memory.Queues
import UdpKcp.Plug.Blocks

/-! # Flushing through the pointers

`ikcp_flush` reads the ack array, moves segments between the two send queues and
walks over `snd_buf`, while it writes into the scratch buffer of the block. A
write past the end of that buffer has no outcome; the bytes behind the writing
pointer are the open buffer of the packer.
-/

namespace UdpKcp.Memory

open ByteCodec (Bytes)
open Ikcp
open Intrusive (front back front_nil front_cons)
open Packing (Packer)
open Triples (Fails Triple)

/-- Write one segment at the pointer, inside the scratch buffer. With MTUs below `2 ^ 30`
the sum `size + need` is an `int`. -/
def writeSeg (out : Packer UInt8) (seg : IKCPSEG) : M (Packer UInt8) :=
  fun b =>
    let out := Ikcp.writeSeg b.kcp.mtu out seg
    if out.buffer.length ≤ b.bufsize then some (out, b) else none

/-- The acknowledgement loop, from entry `i` on: `count` entries are left. -/
def flushAckLoop : Nat → Nat → IKCPSEG → Packer UInt8 → M (IKCPSEG × Packer UInt8)
  | 0, _, seg, out => return (seg, out)
  | count + 1, i, seg, out => do
      let ack ← ackGet i
      let seg := { seg with sn := ack.1, ts := ack.2 }
      let out ← writeSeg out seg
      flushAckLoop count (i + 1) seg out

def getAckcount : M Nat := do return (← get).acks.ackcount

def resetAckcount : M Unit := modify fun b => { b with acks := { b.acks with ackcount := 0 } }

/-- All pending acknowledgements; the count is reset. -/
def flushAcks (seg : IKCPSEG) : M (IKCPSEG × Packer UInt8) := do
  let count ← getAckcount
  let acc ← flushAckLoop count 0 seg {}
  resetAckcount
  return acc

/-- One pending probe command, if its bit is set. -/
def flushProbe (probe bit cmd : UInt32) (acc : IKCPSEG × Packer UInt8) :
    M (IKCPSEG × Packer UInt8) :=
  if probe &&& bit ≠ 0 then do
    let seg := { acc.1 with cmd := cmd }
    let out ← writeSeg acc.2 seg
    return (seg, out)
  else return acc

/-- The loop that moves segments from `snd_queue` to `snd_buf`. -/
def openLoop (wnd cwnd : UInt32) : Nat → M Unit
  | 0 => failure
  | fuel + 1 => do
      let kcp ← getKcp
      if itimediff kcp.sndNxt (kcp.sndUna + cwnd) < 0 then do
        if ← iqueueIsEmpty .sndQueue then pure ()
        else do
          let p ← nextOf (.head .sndQueue)
          iqueueDel p
          iqueueAddTail p (.head .sndBuf)
          setKcp fun kcp => { kcp with nsndQue := kcp.nsndQue - 1, nsndBuf := kcp.nsndBuf + 1 }
          let newseg ← iqueueEntry p
          setEntry p (Ikcp.openSegment kcp wnd kcp.sndNxt newseg)
          setKcp fun kcp => { kcp with sndNxt := kcp.sndNxt + 1 }
          openLoop wnd cwnd fuel
      else pure ()

/-- The locals of the data loop. -/
structure Sending where
  out : Packer UInt8
  change : Nat := 0
  lost : Bool := false

/-- What the data loop does for a segment it transmits. -/
def transmit (reason : SendReason) (segment : IKCPSEG) (st : Sending) : M Sending :=
  if reason = .idle then return st
  else do
    let out ← writeSeg st.out segment
    setKcp fun kcp => { kcp with
      xmit := if reason = .timeout then kcp.xmit + 1 else kcp.xmit
      state := if segment.xmit ≥ kcp.deadLink then 0xffffffff else kcp.state }
    return {
      out := out
      change := if reason = .fast then st.change + 1 else st.change
      lost := st.lost || decide (reason = .timeout) }

/-- The body of the data loop. -/
def flushEntry (wnd : UInt32) (p : Ptr) (st : Sending) : M Sending := do
  let segment ← iqueueEntry p
  let kcp ← getKcp
  setEntry p (stampSegment kcp wnd segment)
  transmit (sendReason kcp segment) (stampSegment kcp wnd segment) st

/-- The data loop. -/
def dataFlush (wnd : UInt32) : Nat → Ptr → Sending → M Sending
  | 0, _, _ => failure
  | fuel + 1, p, st =>
      if p = .head .sndBuf then return st
      else do
        let st ← flushEntry wnd p st
        let next ← nextOf p
        dataFlush wnd fuel next st

/-- The walk over `snd_buf`. -/
def flushData (wnd : UInt32) (out : Packer UInt8) : M Sending := do
  let p ← nextOf (.head .sndBuf)
  let fuel ← walkFuel
  dataFlush wnd fuel p { out := out }

/-- The part of `ikcp_flush` before the data loop. Returns the congestion window, the
receive window to advertise and what has been written. -/
def flushControl : M (UInt32 × UInt32 × Packer UInt8) := do
  let kcp ← getKcp
  let acks ← flushAcks (flushSeg kcp)
  setKcp probeTimer
  let kcp ← getKcp
  let wask ← flushProbe kcp.probe ikcpAskSend ikcpCmdWask acks
  let wins ← flushProbe kcp.probe ikcpAskTell ikcpCmdWins wask
  setKcp fun kcp => { kcp with probe := 0 }
  let kcp ← getKcp
  let cwnd := flushCwnd kcp
  let fuel ← walkFuel
  openLoop wins.1.wnd cwnd fuel
  return (cwnd, wins.1.wnd, wins.2)

/-- `ikcp_flush`: the datagrams handed to the output callback. -/
def flush : M (List Bytes) := do
  let kcp ← getKcp
  if kcp.updated = 0 then return []
  else do
    let control ← flushControl
    let st ← flushData control.2.1 control.2.2
    setKcp fun kcp => flushCongestion kcp st.change st.lost control.1 (flushResent kcp)
    return st.out.output

/-- The part of `ikcp_update` before its flush. -/
def timer (current : UInt32) : M Bool := do
  let kcp ← getKcp
  setKcp fun kcp => (updateTimer kcp current).1
  return (updateTimer kcp current).2

/-- `ikcp_update`. -/
def update (current : UInt32) : M (List Bytes) := do
  if ← timer current then flush else return []

/-! ## The scratch buffer -/

section Flushing

variable {own : Queue → List (Nat × IKCPSEG)} {kcp k : IKCPCB} {acks : List (UInt32 × UInt32)}
  {loose : List (Nat × IKCPSEG)} {seg : IKCPSEG} {out : Packer UInt8}

/-- A segment is written inside the scratch buffer if it would fit from the start of it. -/
theorem writeSeg_triple (out : Packer UInt8)
    (hseg : seg.bytes.length ≤ (kcp.mtu.toNat + ikcpOverhead) * 3) :
    Triple (Holds own loose kcp acks) (writeSeg out seg) fun r b =>
      r = Ikcp.writeSeg kcp.mtu out seg ∧ Holds own loose kcp acks b := by
  intro b hb
  refine ⟨_, b, ?_, rfl, hb⟩
  have hfits : (Ikcp.writeSeg kcp.mtu out seg).buffer.length ≤ b.bufsize := by
    have hle : (Ikcp.writeSeg kcp.mtu out seg).buffer.length ≤
        max kcp.mtu.toNat seg.bytes.length := out.put_le _ _
    rw [hb.buffer]
    omega
  change (if (Ikcp.writeSeg b.kcp.mtu out seg).buffer.length ≤ b.bufsize then _ else _) = _
  rw [hb.kcp_eq, if_pos hfits]

/-- And past its end otherwise, wherever the pointer is. -/
theorem writeSeg_fails (out : Packer UInt8)
    (hseg : (kcp.mtu.toNat + ikcpOverhead) * 3 < seg.bytes.length) :
    Fails (Holds own loose kcp acks) (writeSeg out seg) := by
  intro b hb
  have hlong : ¬ (Ikcp.writeSeg kcp.mtu out seg).buffer.length ≤ b.bufsize := by
    have hle : seg.bytes.length ≤ (Ikcp.writeSeg kcp.mtu out seg).buffer.length :=
      out.le_put _ _
    rw [hb.buffer]
    omega
  change (if (Ikcp.writeSeg b.kcp.mtu out seg).buffer.length ≤ b.bufsize then _ else _) = _
  rw [hb.kcp_eq, if_neg hlong]

theorem flushAckLoop_triple {done todo : List (UInt32 × UInt32)} (hacks : acks = done ++ todo)
    (hseg : seg.data = []) (out : Packer UInt8) :
    Triple (Holds own loose kcp acks) (flushAckLoop todo.length done.length seg out) fun r b =>
      r = Ikcp.flushAcks kcp.mtu (seg, out) todo ∧ Holds own loose kcp acks b := by
  induction todo generalizing done seg out with
  | nil => exact Triple.pure fun b hb => ⟨rfl, hb⟩
  | cons ack todo ih =>
      obtain ⟨sn, ts⟩ := ack
      have hat : acks[done.length]? = some (sn, ts) := by simp [hacks]
      have hbytes : ({ seg with sn := sn, ts := ts } : IKCPSEG).bytes.length ≤
          (kcp.mtu.toNat + ikcpOverhead) * 3 := by
        have hlen : ({ seg with sn := sn, ts := ts } : IKCPSEG).bytes.length = ikcpOverhead := by
          simp [hseg]
        omega
      have hnext : acks = (done ++ [(sn, ts)]) ++ todo := by simp [hacks]
      rw [List.length_cons, flushAckLoop, Ikcp.flushAcks]
      refine (ackGet_triple hat).bind_eq _ ?_
      refine (writeSeg_triple out hbytes).bind_eq _ ?_
      have hrest := @ih { seg with sn := sn, ts := ts } (done ++ [(sn, ts)]) hnext hseg
        (Ikcp.writeSeg kcp.mtu out { seg with sn := sn, ts := ts })
      rw [List.length_append, List.length_singleton] at hrest
      exact hrest

theorem flushAcks_triple (hseg : seg.data = []) :
    Triple (Holds own loose kcp acks) (flushAcks seg) fun r b =>
      r = Ikcp.flushAcks kcp.mtu (seg, {}) acks ∧ Holds own loose kcp [] b := by
  have hcount : Triple (Holds own loose kcp acks) getAckcount fun r b =>
      r = acks.length ∧ Holds own loose kcp acks b :=
    Triple.gets fun b hb => ⟨hb.acks.count, hb⟩
  have hreset : Triple (Holds own loose kcp acks) resetAckcount fun _ =>
      Holds own loose kcp [] :=
    Triple.modify fun b hb => ⟨hb.rings, hb.kcp_eq, hb.acks.reset, hb.buffer⟩
  refine hcount.bind_eq _ ?_
  refine (flushAckLoop_triple (List.nil_append acks).symm hseg {}).bind_eq _ ?_
  exact hreset.bind fun _ => Triple.pure fun b hb => ⟨rfl, hb⟩

theorem flushProbe_triple (probe bit cmd : UInt32)
    {acc : IKCPSEG × Packer UInt8} (hseg : acc.1.data = []) :
    Triple (Holds own loose kcp acks) (flushProbe probe bit cmd acc) fun r b =>
      r = Ikcp.flushProbe kcp.mtu probe bit cmd acc ∧ Holds own loose kcp acks b := by
  have hbytes : ({ acc.1 with cmd := cmd } : IKCPSEG).bytes.length ≤
      (kcp.mtu.toNat + ikcpOverhead) * 3 := by
    have hlen : ({ acc.1 with cmd := cmd } : IKCPSEG).bytes.length = ikcpOverhead := by
      simp [hseg]
    omega
  unfold flushProbe Ikcp.flushProbe
  split
  · exact (writeSeg_triple acc.2 hbytes).bind_eq _ (Triple.pure fun b hb => ⟨rfl, hb⟩)
  · exact Triple.pure fun b hb => ⟨rfl, hb⟩

/-! ## Opening the window -/

theorem openWindow_congr {k k' : IKCPCB} (hconv : k'.conv = k.conv)
    (hcurrent : k'.current = k.current) (hnxt : k'.rcvNxt = k.rcvNxt)
    (hrto : k'.rxRto = k.rxRto) (wnd limit sndNxt : UInt32) (queue : List IKCPSEG) :
    openWindow k' wnd limit sndNxt queue = openWindow k wnd limit sndNxt queue := by
  induction queue generalizing sndNxt with
  | nil => rfl
  | cons newseg queue ih =>
      simp only [openWindow, Ikcp.openSegment, ih, hconv, hcurrent, hnxt, hrto]

theorem moveSndQueue_cons {newseg : IKCPSEG} {rest : List IKCPSEG} {wnd cwnd : UInt32}
    (hque : k.sndQueue = newseg :: rest)
    (hroom : itimediff k.sndNxt (k.sndUna + cwnd) < 0) :
    moveSndQueue k wnd cwnd =
      moveSndQueue { k with
        sndQueue := rest
        nsndQue := k.nsndQue - 1
        sndBuf := k.sndBuf ++ [Ikcp.openSegment k wnd k.sndNxt newseg]
        nsndBuf := k.nsndBuf + 1
        sndNxt := k.sndNxt + 1 } wnd cwnd := by
  have hnxt : ∀ n : Nat, k.sndNxt + UInt32.ofNat (n + 1) = k.sndNxt + 1 + UInt32.ofNat n := by
    intro n
    rw [UInt32.ofNat_add, UInt32.add_assoc, UInt32.add_comm (UInt32.ofNat n)]
    rfl
  have hopen : openWindow k wnd (k.sndUna + cwnd) k.sndNxt k.sndQueue =
      (Ikcp.openSegment k wnd k.sndNxt newseg ::
        (openWindow k wnd (k.sndUna + cwnd) (k.sndNxt + 1) rest).1,
        (openWindow k wnd (k.sndUna + cwnd) (k.sndNxt + 1) rest).2) := by
    rw [hque, openWindow, if_pos hroom]
  generalize hk : ({ k with
    sndQueue := rest
    nsndQue := k.nsndQue - 1
    sndBuf := k.sndBuf ++ [Ikcp.openSegment k wnd k.sndNxt newseg]
    nsndBuf := k.nsndBuf + 1
    sndNxt := k.sndNxt + 1 } : IKCPCB) = k'
  have hsame : openWindow k' wnd (k'.sndUna + cwnd) k'.sndNxt k'.sndQueue =
      openWindow k wnd (k.sndUna + cwnd) (k.sndNxt + 1) rest := by
    subst hk
    apply openWindow_congr <;> rfl
  unfold moveSndQueue
  dsimp only
  rw [hopen, hsame, ← hk]
  simp only [List.length_cons, hnxt, List.append_assoc, List.singleton_append]
  congr 1 <;> omega

theorem moveSndQueue_stop {wnd cwnd : UInt32}
    (hstop : ¬ itimediff k.sndNxt (k.sndUna + cwnd) < 0 ∨ k.sndQueue = []) :
    moveSndQueue k wnd cwnd = k := by
  have hnone : openWindow k wnd (k.sndUna + cwnd) k.sndNxt k.sndQueue = ([], k.sndQueue) := by
    cases hque : k.sndQueue with
    | nil => rfl
    | cons newseg rest =>
        rw [openWindow, if_neg (hstop.resolve_right (by simp [hque]))]
  simp [moveSndQueue, hnone]

theorem openLoop_triple (wnd cwnd : UInt32) {fuel : Nat} (hfuel : k.sndQueue.length < fuel) :
    Triple (Stands [] k) (openLoop wnd cwnd fuel) fun _ =>
      Stands [] (moveSndQueue k wnd cwnd) := by
  induction fuel generalizing k with
  | zero => omega
  | succ fuel ih =>
      refine Stands.triple fun own kcp acks hk => ?_
      subst hk
      rw [openLoop]
      refine getKcp_triple.bind_eq _ ?_
      refine Triple.ite (fun hroom => ?_) (fun hfull => ?_)
      · refine (isEmpty_triple .sndQueue).bind_eq _ ?_
        cases hque : own .sndQueue with
        | nil =>
            simp only [decide_true, if_true]
            rw [moveSndQueue_stop (.inr (by simp [blockOf, hque]))]
            exact Triple.pure fun b hb => hb.stands
        | cons x rest =>
            have hsplit : own .sndQueue = [] ++ x :: rest := hque
            have hblock : (blockOf own kcp acks).sndQueue = x.2 :: rest.map Prod.snd := by
              simp [blockOf, hque]
            simp only [reduceCtorEq, decide_false, Bool.false_eq_true, if_false]
            refine (next_head_triple .sndQueue).bind_eq _ ?_
            rw [hque, front_cons]
            refine (del_triple hsplit).bind fun _ => (addTail_triple .sndBuf).bind fun _ => ?_
            refine (setKcp_triple rfl).bind fun _ => ?_
            have hat : Function.update (Function.update own .sndQueue rest) .sndBuf
                (Function.update own .sndQueue rest .sndBuf ++ [x]) .sndBuf =
                  own .sndBuf ++ x :: [] := by
              simp
            have hx : x ∈ Function.update (Function.update own .sndQueue rest) .sndBuf
                (Function.update own .sndQueue rest .sndBuf ++ [x]) .sndBuf := by
              simp
            refine (entry_triple hx).bind_eq _ ?_
            refine (setEntry_triple hat _).bind fun _ => (setKcp_triple rfl).bind fun _ => ?_
            rw [moveSndQueue_cons hblock hroom]
            refine (ih ?_).pre fun b hb => ?_
            · simpa [hblock] using hfuel
            · have hstands := hb.stands
              rw [blockOf_update_sndBuf, blockOf_update_sndBuf, blockOf_update_sndQueue] at hstands
              simpa [blockOf, Ikcp.openSegment] using hstands
      · rw [moveSndQueue_stop (k := blockOf own kcp acks) (.inl hfull)]
        exact Triple.pure fun b hb => hb.stands

/-! ## The data loop -/

/-- The locals of the data loop, read off the list model's accumulators. -/
def Sending.of (st : DataLoop) : Sending where
  out := st.out
  change := st.change
  lost := st.lost

/-- The scalar fields while the data loop runs. -/
def counted (kcp : IKCPCB) (st : DataLoop) : IKCPCB :=
  { kcp with xmit := st.xmit, state := st.state }

/-- The segment is not transmitted, or fits the scratch buffer. -/
def FitsBuffer (kcp : IKCPCB) (segment : IKCPSEG) : Prop :=
  sendReason kcp segment = .idle ∨
    ikcpOverhead + segment.data.length ≤ (kcp.mtu.toNat + ikcpOverhead) * 3

instance (kcp : IKCPCB) (segment : IKCPSEG) : Decidable (FitsBuffer kcp segment) :=
  inferInstanceAs (Decidable (_ ∨ _))

theorem stampSegment_bytes_length (wnd : UInt32) (segment : IKCPSEG) :
    (stampSegment kcp wnd segment).bytes.length = ikcpOverhead + segment.data.length := by
  have hcore := congrArg IKCPSEG.data (stampSegment_core kcp wnd segment)
  have hdata : (stampSegment kcp wnd segment).data = segment.data := hcore
  rw [IKCPSEG.bytes_length, hdata]

section Entry

variable (wnd : UInt32) {done rest : List (Nat × IKCPSEG)} {x : Nat × IKCPSEG} {st : DataLoop}
  (hown : own .sndBuf = done ++ x :: rest)

include hown

theorem flushEntry_triple (hfits : FitsBuffer kcp x.2) :
    Triple (Holds own [] (counted kcp st) acks) (flushEntry wnd (.node x.1) (Sending.of st))
      fun r b => r = Sending.of (flushSegment kcp wnd st x.2) ∧
        Holds (Function.update own .sndBuf (done ++ (x.1, stampSegment kcp wnd x.2) :: rest)) []
          (counted kcp (flushSegment kcp wnd st x.2)) acks b := by
  have hx : x ∈ own .sndBuf := by simp [hown]
  refine (entry_triple hx).bind_eq _ (getKcp_triple.bind_eq _ ?_)
  refine (setEntry_triple hown _).bind fun _ => ?_
  have hreason : sendReason (counted kcp st) x.2 = sendReason kcp x.2 := rfl
  have hstamp : stampSegment (counted kcp st) wnd x.2 = stampSegment kcp wnd x.2 := rfl
  rw [hreason, hstamp]
  unfold transmit flushSegment
  dsimp only
  split
  · exact Triple.pure fun b hb => ⟨rfl, hb⟩
  · rename_i hsend
    have hbytes : (stampSegment kcp wnd x.2).bytes.length ≤
        ((counted kcp st).mtu.toNat + ikcpOverhead) * 3 := by
      rw [stampSegment_bytes_length]
      exact hfits.resolve_left hsend
    refine (writeSeg_triple st.out hbytes).bind_eq _ ?_
    exact (setKcp_triple rfl).bind fun _ => Triple.pure fun b hb => ⟨rfl, hb⟩

theorem flushEntry_fails (hlong : ¬ FitsBuffer kcp x.2) :
    Fails (Holds own [] (counted kcp st) acks)
      (flushEntry wnd (.node x.1) (Sending.of st)) := by
  obtain ⟨hsend, hlong⟩ := not_or.mp hlong
  have hx : x ∈ own .sndBuf := by simp [hown]
  apply (entry_triple hx).bind_eq_fails _
  apply getKcp_triple.bind_eq_fails _
  apply (setEntry_triple hown _).bind_fails
  intro _
  have hbytes : ((counted kcp st).mtu.toNat + ikcpOverhead) * 3 <
      (stampSegment kcp wnd x.2).bytes.length := by
    rw [stampSegment_bytes_length]
    exact Nat.lt_of_not_le hlong
  have hreason : sendReason (counted kcp st) x.2 = sendReason kcp x.2 := rfl
  have hstamp : stampSegment (counted kcp st) wnd x.2 = stampSegment kcp wnd x.2 := rfl
  rw [hreason, hstamp]
  unfold transmit
  rw [if_neg hsend]
  exact (writeSeg_fails st.out hbytes).bind

end Entry

section Walk

variable (wnd : UInt32) {done rest : List (Nat × IKCPSEG)} {st : DataLoop}
  (hown : own .sndBuf = done ++ rest) {fuel : Nat} (hfuel : rest.length < fuel)

include hown hfuel

theorem dataFlush_triple (hst : st.done = done.map Prod.snd)
    (hfits : ∀ x ∈ rest, FitsBuffer kcp x.2) :
    Triple (Holds own [] (counted kcp st) acks)
      (dataFlush wnd fuel (front .sndBuf rest) (Sending.of st)) fun r b =>
        r = Sending.of ((rest.map Prod.snd).foldl (flushSegment kcp wnd) st) ∧
          Stands [] { blockOf own kcp acks with
            sndBuf := ((rest.map Prod.snd).foldl (flushSegment kcp wnd) st).done
            xmit := ((rest.map Prod.snd).foldl (flushSegment kcp wnd) st).xmit
            state := ((rest.map Prod.snd).foldl (flushSegment kcp wnd) st).state } b := by
  induction rest generalizing own done st fuel with
  | nil =>
      obtain ⟨fuel, rfl⟩ := Nat.exists_eq_succ_of_ne_zero (Nat.ne_of_gt (Nat.zero_lt_of_lt hfuel))
      rw [dataFlush, if_pos front_nil]
      refine Triple.pure fun b hb => ⟨rfl, ?_⟩
      have hstands := hb.stands
      simpa [blockOf, counted, hst, hown] using hstands
  | cons x rest ih =>
      obtain ⟨fuel, rfl⟩ := Nat.exists_eq_succ_of_ne_zero (Nat.ne_of_gt (Nat.zero_lt_of_lt hfuel))
      rw [dataFlush, if_neg front_ne_head, front_cons]
      refine (flushEntry_triple wnd hown (hfits x List.mem_cons_self)).bind_eq _ ?_
      generalize hseg : stampSegment kcp wnd x.2 = segment
      have hstamped : Function.update own .sndBuf (done ++ (x.1, segment) :: rest) .sndBuf =
          done ++ (x.1, segment) :: rest := Function.update_self _ _ _
      have hnext : Function.update own .sndBuf (done ++ (x.1, segment) :: rest) .sndBuf =
          (done ++ [(x.1, segment)]) ++ rest := by simp
      have hdone : (flushSegment kcp wnd st x.2).done =
          (done ++ [(x.1, segment)]).map Prod.snd := by
        rw [flushSegment_done, hst, hseg]
        simp
      refine (next_triple hstamped).bind_eq _ ?_
      have hrest := ih hnext (by simpa using hfuel) hdone fun y hy =>
        hfits y (List.mem_cons_of_mem _ hy)
      refine hrest.post fun r b hb => ?_
      rw [blockOf_update_sndBuf] at hb
      exact hb

theorem dataFlush_fails (hlong : ∃ x ∈ rest, ¬ FitsBuffer kcp x.2) :
    Fails (Holds own [] (counted kcp st) acks)
      (dataFlush wnd fuel (front .sndBuf rest) (Sending.of st)) := by
  induction rest generalizing own done st fuel with
  | nil =>
      obtain ⟨x, hx, -⟩ := hlong
      cases hx
  | cons x rest ih =>
      obtain ⟨fuel, rfl⟩ := Nat.exists_eq_succ_of_ne_zero (Nat.ne_of_gt (Nat.zero_lt_of_lt hfuel))
      rw [dataFlush, if_neg front_ne_head, front_cons]
      by_cases hfits : FitsBuffer kcp x.2
      · apply (flushEntry_triple wnd hown hfits).bind_eq_fails _
        generalize stampSegment kcp wnd x.2 = segment
        have hstamped : Function.update own .sndBuf (done ++ (x.1, segment) :: rest) .sndBuf =
            done ++ (x.1, segment) :: rest := Function.update_self _ _ _
        have hnext : Function.update own .sndBuf (done ++ (x.1, segment) :: rest) .sndBuf =
            (done ++ [(x.1, segment)]) ++ rest := by simp
        apply (next_triple hstamped).bind_eq_fails _
        apply ih hnext (by simpa using hfuel)
        obtain ⟨y, hy, hlong⟩ := hlong
        rcases List.mem_cons.mp hy with rfl | hy
        · exact absurd hfits hlong
        · exact ⟨y, hy, hlong⟩
      · exact (flushEntry_fails wnd hown hfits).bind

end Walk

/-! ## ikcp_flush and ikcp_update -/

/-- Nothing that a flush transmits is longer than the scratch buffer. -/
def Fits (k : IKCPCB) : Prop := ∀ seg ∈ (flushOpened k).sndBuf, FitsBuffer (flushOpened k) seg

instance (k : IKCPCB) : Decidable (Fits k) :=
  inferInstanceAs (Decidable (∀ seg ∈ (flushOpened k).sndBuf, FitsBuffer (flushOpened k) seg))

theorem blockOf_probeTimer (kcp : IKCPCB) :
    blockOf own (probeTimer kcp) acks = probeTimer (blockOf own kcp acks) := by
  unfold probeTimer blockOf
  dsimp only
  split_ifs <;> rfl

theorem probeTimer_mtu (kcp : IKCPCB) : (probeTimer kcp).mtu = kcp.mtu := by
  rw [probeTimer_eq]

theorem flushProbed_blockOf :
    flushProbed (blockOf own kcp acks) = blockOf own (probeTimer kcp) [] :=
  (blockOf_probeTimer kcp).symm

theorem flushCongestion_mtu (change : Nat) (lost : Bool) (cwnd resent : UInt32) :
    (flushCongestion kcp change lost cwnd resent).mtu = kcp.mtu := by
  rw [flushCongestion_eq]

theorem blockOf_flushCongestion (change : Nat) (lost : Bool) (cwnd resent : UInt32) :
    blockOf own (flushCongestion kcp change lost cwnd resent) acks =
      flushCongestion (blockOf own kcp acks) change lost cwnd resent := by
  unfold flushCongestion blockOf
  dsimp only
  split_ifs <;> rfl

theorem blockOf_updateTimer (current : UInt32) :
    (updateTimer (blockOf own kcp acks) current).2 = (updateTimer kcp current).2 ∧
      blockOf own (updateTimer kcp current).1 acks =
        (updateTimer (blockOf own kcp acks) current).1 := by
  unfold updateTimer blockOf
  dsimp only
  split_ifs <;> exact ⟨rfl, rfl⟩

theorem flushAcks_data {mtu : UInt32} (hseg : seg.data = []) (todo : List (UInt32 × UInt32)) :
    (Ikcp.flushAcks mtu (seg, out) todo).1.data = [] := by
  induction todo generalizing seg out with
  | nil => exact hseg
  | cons ack todo ih => exact ih hseg

theorem flushProbe_data {mtu probe bit cmd : UInt32} {acc : IKCPSEG × Packer UInt8}
    (hseg : acc.1.data = []) : (Ikcp.flushProbe mtu probe bit cmd acc).1.data = [] := by
  unfold Ikcp.flushProbe
  split <;> exact hseg

theorem flushData_triple (hfits : Fits k) :
    Triple (Stands [] (flushOpened k)) (flushData (ikcpWndUnused k) (flushWriter k).2) fun r b =>
      r = Sending.of (flushLoop k) ∧ Stands [] { flushOpened k with
        sndBuf := (flushLoop k).done
        xmit := (flushLoop k).xmit
        state := (flushLoop k).state } b := by
  unfold Fits at hfits
  unfold flushLoop
  refine Stands.triple fun own kcp acks hk => ?_
  rw [hk] at hfits ⊢
  refine (next_head_triple .sndBuf).bind_eq _ ?_
  refine walkFuel_triple.bind fun fuel => Triple.and fun hfuel => ?_
  exact @dataFlush_triple own kcp acks (ikcpWndUnused k) [] _
    { out := (flushWriter k).2, xmit := kcp.xmit, state := kcp.state }
    (List.nil_append _).symm _ (hfuel .sndBuf) rfl fun x hx =>
      hfits x.2 (List.mem_map_of_mem hx)

theorem flushData_fails (hlong : ¬ Fits k) :
    Fails (Stands [] (flushOpened k))
      (flushData (ikcpWndUnused k) (flushWriter k).2) := by
  unfold Fits at hlong
  push Not at hlong
  obtain ⟨seg, hseg, hlong⟩ := hlong
  rintro b ⟨own, kcp, acks, hb, hk⟩
  rw [hk] at hseg hlong
  obtain ⟨x, hx, rfl⟩ := List.mem_map.mp hseg
  apply (next_head_triple .sndBuf).bind_eq_fails _ _ b hb
  apply walkFuel_triple.bind_fails
  intro fuel
  apply Fails.and
  intro hfuel
  exact @dataFlush_fails own kcp acks (ikcpWndUnused k) [] _
    { out := (flushWriter k).2, xmit := kcp.xmit, state := kcp.state }
    (List.nil_append _).symm _ (hfuel .sndBuf) ⟨x, hx, hlong⟩

/-- Acknowledgements, probes and the window, as in the list model. -/
theorem flushControl_triple :
    Triple (Stands [] k) flushControl fun r b =>
      r = (flushCwnd { flushProbed k with probe := 0 }, ikcpWndUnused k, (flushWriter k).2) ∧
        Stands [] (flushOpened k) b := by
  refine Stands.triple fun own kcp acks hk => ?_
  have hprobed : flushProbed k = blockOf own (probeTimer kcp) [] := by
    rw [hk]
    exact flushProbed_blockOf
  have hacks : Ikcp.flushAcks kcp.mtu (flushSeg kcp, {}) acks =
      Ikcp.flushAcks k.mtu (flushSeg k, {}) k.acklist := by
    rw [hk]
    rfl
  have hdata : (Ikcp.flushAcks kcp.mtu (flushSeg kcp, {}) acks).1.data = [] :=
    flushAcks_data rfl acks
  have hwriter : Ikcp.flushProbe (probeTimer kcp).mtu (probeTimer kcp).probe ikcpAskTell
      ikcpCmdWins (Ikcp.flushProbe (probeTimer kcp).mtu (probeTimer kcp).probe ikcpAskSend
        ikcpCmdWask (Ikcp.flushAcks kcp.mtu (flushSeg kcp, {}) acks)) = flushWriter k := by
    unfold flushWriter
    rw [hprobed, hacks]
    rfl
  have hcwnd : flushCwnd { probeTimer kcp with probe := 0 } =
      flushCwnd { flushProbed k with probe := 0 } := by
    rw [hprobed]
    rfl
  refine getKcp_triple.bind_eq _ ?_
  refine (flushAcks_triple rfl).bind_eq _ ?_
  refine (setKcp_triple (probeTimer_mtu kcp)).bind fun _ => ?_
  refine getKcp_triple.bind_eq _ ?_
  refine (flushProbe_triple _ _ _ hdata).bind_eq _ ?_
  refine (flushProbe_triple _ _ _ (flushProbe_data hdata)).bind_eq _ ?_
  rw [hwriter, flushWriter_wnd]
  refine (setKcp_triple rfl).bind fun _ => ?_
  refine getKcp_triple.bind_eq _ ?_
  refine walkFuel_triple.bind fun fuel => Triple.and fun hfuel => ?_
  have hopened : moveSndQueue { flushProbed k with probe := 0 } (ikcpWndUnused k)
      (flushCwnd { probeTimer kcp with probe := 0 }) = flushOpened k := by
    rw [hcwnd]
    rfl
  have hopen : Triple (Holds own [] { probeTimer kcp with probe := 0 } [])
      (openLoop (ikcpWndUnused k) (flushCwnd { probeTimer kcp with probe := 0 }) fuel)
      fun _ => Stands [] (flushOpened k) := by
    rw [← hopened, hprobed]
    refine (openLoop_triple _ _ ?_).pre fun b hb => hb.stands
    simpa [blockOf] using hfuel .sndQueue
  refine hopen.bind fun _ => Triple.pure fun b hb => ⟨?_, hb⟩
  rw [hcwnd]

/-- What a flush transmits fits the scratch buffer, if the block has been updated before. -/
def FlushFits (k : IKCPCB) : Prop := k.updated ≠ 0 → Fits k

/-- `ikcp_flush` through the pointers: nothing is written past the scratch buffer, and
datagrams and block are those of the list model. -/
theorem flush_triple (hfits : FlushFits k) :
    Triple (Stands [] k) flush fun r b =>
      r = (ikcpFlush k).2 ∧ Stands [] (ikcpFlush k).1 b := by
  refine (getKcp_stands IKCPCB.updated fun _ _ _ => rfl).bind fun kcp =>
    Triple.and fun hupdated => ?_
  refine Triple.ite (fun hnone => ?_) (fun hsome => ?_)
  · rw [hupdated] at hnone
    refine Triple.pure fun b hb => ?_
    rw [ikcpFlush, if_pos hnone]
    exact ⟨rfl, hb⟩
  · rw [hupdated] at hsome
    refine flushControl_triple.bind_eq _ ((flushData_triple (hfits hsome)).bind_eq _ ?_)
    have hend := @Stands.setKcp [] (fun kcp => flushCongestion kcp (flushLoop k).change
      (flushLoop k).lost (flushCwnd { flushProbed k with probe := 0 }) (flushResent kcp))
      { flushOpened k with
        sndBuf := (flushLoop k).done, xmit := (flushLoop k).xmit, state := (flushLoop k).state }
      (fun kcp => flushCongestion_mtu _ _ _ _) fun own kcp acks => blockOf_flushCongestion _ _ _ _
    rw [ikcpFlush_eq hsome]
    exact hend.bind fun _ => Triple.pure fun b hb => ⟨rfl, hb⟩

/-- A flush that transmits a longer segment writes past the scratch buffer. -/
theorem flush_fails (hlong : ¬ FlushFits k) : Fails (Stands [] k) flush := by
  obtain ⟨hupdated, hlong⟩ := Classical.not_imp.mp hlong
  apply (getKcp_stands IKCPCB.updated fun _ _ _ => rfl).bind_fails
  intro kcp
  apply Fails.and
  intro hsame
  rw [if_neg (by rw [hsame]; exact hupdated)]
  apply flushControl_triple.bind_eq_fails _
  exact (flushData_fails hlong).bind

theorem timer_triple (current : UInt32) :
    Triple (Stands [] k) (timer current) fun r b =>
      r = (updateTimer k current).2 ∧ Stands [] (updateTimer k current).1 b := by
  refine Stands.triple fun own kcp acks hk => ?_
  obtain ⟨hdue, htimed⟩ := @blockOf_updateTimer own kcp acks current
  have hmtu : (updateTimer kcp current).1.mtu = kcp.mtu := by rw [Plug.updateTimer_eq]
  refine getKcp_triple.bind_eq _ ?_
  refine (setKcp_triple hmtu).bind fun _ => Triple.pure fun b hb => ?_
  rw [hk, ← htimed]
  exact ⟨hdue.symm, hb.stands⟩

/-- What the flush of an update transmits fits the scratch buffer. -/
def UpdateFits (k : IKCPCB) (current : UInt32) : Prop :=
  (updateTimer k current).2 = true → Fits (updateTimer k current).1

instance (k : IKCPCB) (current : UInt32) : Decidable (UpdateFits k current) :=
  inferInstanceAs (Decidable (_ → _))

/-- `ikcp_update` through the pointers. -/
theorem update_triple (current : UInt32) (hfits : UpdateFits k current) :
    Triple (Stands [] k) (update current) fun r b =>
      r = (ikcpUpdate k current).2 ∧ Stands [] (ikcpUpdate k current).1 b := by
  refine (timer_triple current).bind_eq _ ?_
  unfold ikcpUpdate
  dsimp only
  split
  · rename_i hdue
    exact flush_triple fun _ => hfits hdue
  · exact Triple.pure fun b hb => ⟨rfl, hb⟩

theorem update_fails (current : UInt32) (hlong : ¬ UpdateFits k current) :
    Fails (Stands [] k) (update current) := by
  obtain ⟨hdue, hlong⟩ := Classical.not_imp.mp hlong
  apply (timer_triple current).bind_eq_fails _
  rw [hdue, if_pos rfl]
  exact flush_fails fun hfits => hlong (hfits (Plug.updateTimer_updated k current))

end Flushing

end UdpKcp.Memory
