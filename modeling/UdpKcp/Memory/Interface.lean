import UdpKcp.Ikcp.Check
import UdpKcp.Memory.Run

/-! # Every caller of ikcp.c

The functions of the header called in any order with arguments of their types, on a
block of `ikcp_create` with an output callback: settings may change between sends,
messages may be peeked at, and stream mode may be switched on. One memory error can
happen. A smaller MTU brings a smaller scratch buffer, while the segments already cut
keep their size; `ikcp_flush` then writes past its end.

A step fails where the source would follow a null or freed pointer, free twice or
leave an array, and nowhere else: the signed sums of `ikcp_update_ack` wrap. The
counters and the sums over queues are natural numbers, those of the source as long
as at most `2 ^ 30` bytes, segments and acknowledgements are held at a time.
-/

namespace UdpKcp.Memory

open ByteCodec (Bytes)
open Ikcp
open Intrusive (front back front_nil front_cons)
open Triples (Admits Fails Triple admits_iff applyAll runAll runAll_fails runAll_triple)

/-! ## The remaining functions -/

/-- `ikcp_interval`. -/
def setInterval (kcp : IKCPCB) (interval : Int) : IKCPCB :=
  { kcp with interval := toU32 (clampInterval interval) }

/-- `ikcp_waitsnd`. -/
def ikcpWaitsnd (kcp : IKCPCB) : Nat := kcp.nsndBuf + kcp.nsndQue

/-- The walk of `ikcp_check`; `none` where it returns `current`. -/
def checkWalk (current : UInt32) : Nat → Ptr → Int → M (Option Int)
  | 0, _, _ => failure
  | fuel + 1, p, tmPacket =>
      if p = .head .sndBuf then return some tmPacket
      else do
        let seg ← iqueueEntry p
        let diff := itimediff seg.resendts current
        if diff ≤ 0 then return none
        else do
          let next ← nextOf p
          checkWalk current fuel next (if diff < tmPacket then diff else tmPacket)

/-- `ikcp_check`. -/
def check (current : UInt32) : M UInt32 := do
  let kcp ← getKcp
  if kcp.updated = 0 then return current
  else do
    let far := itimediff current kcp.tsFlush ≥ 10000 ∨ itimediff current kcp.tsFlush < -10000
    let tsFlush := if far then current else kcp.tsFlush
    if itimediff current tsFlush ≥ 0 then return current
    else do
      let tmFlush := itimediff tsFlush current
      let p ← nextOf (.head .sndBuf)
      let fuel ← walkFuel
      match ← checkWalk current fuel p 0x7fffffff with
      | none => return current
      | some tmPacket =>
          let minimal := toU32 (if tmPacket < tmFlush then tmPacket else tmFlush)
          let minimal := if minimal ≥ kcp.interval then kcp.interval else minimal
          return current + minimal

/-! ## Requests -/

/-- An argument of `ikcp_setmtu` with which neither the size of the scratch buffer nor
the sum `size + need` of `ikcp_flush` wraps. -/
structure Mtu where
  val : Int32
  small : val.toInt < 2 ^ 30

theorem Mtu.size_lt (mtu : Mtu) : (mtu.val.toInt + ikcpOverhead) * 3 < 2 ^ 32 := by
  have hsmall := mtu.small
  have hhead : ikcpOverhead = 24 := rfl
  omega

/-- A message whose length is an `int` that stays one when `ikcp_send` adds `mss` to it. -/
structure Message where
  data : Bytes
  short : data.length ≤ 2 ^ 30

/-- A length that `ikcp_recv` can negate. -/
structure Capacity where
  val : Int32
  negatable : val ≠ Int32.minValue

/-- A call of the header; `stream` is the assignment to `kcp->stream`. -/
inductive Request where
  | setmtu (mtu : Mtu)
  | nodelay (nodelay interval resend nc : Int32)
  | interval (interval : Int32)
  | wndsize (sndwnd rcvwnd : Int32)
  | stream (stream : Int32)
  | send (message : Message)
  | recv (len : Capacity)
  | input (data : Bytes)
  | update (current : UInt32)
  | flush
  | check (current : UInt32)
  | peeksize
  | waitsnd

/-- What it returns, stores, or hands to the output callback. -/
inductive Reply where
  | code (n : Int)
  | stored (bytes : Except Int Bytes)
  | datagrams (sent : List Bytes)
  | clock (ts : UInt32)

def Request.run : Request → M Reply
  | .setmtu mtu => return .code (← Memory.setmtu mtu.val.toInt)
  | .nodelay mode time resend nc => do
      setKcp fun kcp => ikcpNodelay kcp mode.toInt time.toInt resend.toInt nc.toInt
      return .code 0
  | .interval time => do
      setKcp fun kcp => setInterval kcp time.toInt
      return .code 0
  | .wndsize sndwnd rcvwnd => do
      setKcp fun kcp => ikcpWndsize kcp sndwnd.toInt rcvwnd.toInt
      return .code 0
  | .stream mode => do
      setKcp fun kcp => { kcp with stream := mode.toInt }
      return .code 0
  | .send message => return .code (← Memory.send message.data message.data.length)
  | .recv len => return .stored (← Memory.recv len.val.toInt)
  | .input data => return .code (← Memory.input data)
  | .update current => return .datagrams (← Memory.update current)
  | .flush => return .datagrams (← Memory.flush)
  | .check current => return .clock (← Memory.check current)
  | .peeksize => return .code (← Memory.peeksize)
  | .waitsnd => do
      let kcp ← getKcp
      return .code (ikcpWaitsnd kcp)

/-- `ikcp_recv` on the list model: the block after it and what it stores. -/
def recvOutcome (k : IKCPCB) (len : Int) : IKCPCB × Except Int Bytes :=
  match ikcpRecv k len with
  | .error code => (k, .error code)
  | .ok (bytes, k') => (k', .ok bytes)

/-- The same call on the list model. -/
def Request.apply (k : IKCPCB) : Request → IKCPCB × Reply
  | .setmtu mtu =>
      ((setmtuOutcome k mtu.val.toInt).1, .code (setmtuOutcome k mtu.val.toInt).2)
  | .nodelay mode time resend nc =>
      (ikcpNodelay k mode.toInt time.toInt resend.toInt nc.toInt, .code 0)
  | .interval time => (setInterval k time.toInt, .code 0)
  | .wndsize sndwnd rcvwnd => (ikcpWndsize k sndwnd.toInt rcvwnd.toInt, .code 0)
  | .stream mode => ({ k with stream := mode.toInt }, .code 0)
  | .send message =>
      ((sendOutcome k message.data message.data.length).1,
        .code (sendOutcome k message.data message.data.length).2)
  | .recv len => ((recvOutcome k len.val.toInt).1, .stored (recvOutcome k len.val.toInt).2)
  | .input data => ((ikcpInput k data).1, .code (ikcpInput k data).2)
  | .update current => ((ikcpUpdate k current).1, .datagrams (ikcpUpdate k current).2)
  | .flush => ((ikcpFlush k).1, .datagrams (ikcpFlush k).2)
  | .check current => (k, .clock (ikcpCheck k current))
  | .peeksize => (k, .code (ikcpPeeksize k))
  | .waitsnd => (k, .code (ikcpWaitsnd k))

/-- The call stays inside the scratch buffer: a flush, if it makes one, transmits no
segment that is longer. -/
def Request.Fits (k : IKCPCB) : Request → Prop
  | .update current => UpdateFits k current
  | .flush => FlushFits k
  | _ => True

/-! ## One request -/

section Requests

variable {own : Queue → List (Nat × IKCPSEG)} {kcp k : IKCPCB} {acks : List (UInt32 × UInt32)}

theorem checkWalk_triple (current : UInt32) {done rest : List (Nat × IKCPSEG)}
    (hown : own .sndBuf = done ++ rest) {fuel : Nat} (hfuel : rest.length < fuel)
    (tmPacket : Int) :
    Triple (Holds own [] kcp acks) (checkWalk current fuel (front .sndBuf rest) tmPacket)
      fun r b => r = checkLoop current tmPacket (rest.map Prod.snd) ∧
        Holds own [] kcp acks b := by
  induction rest generalizing done fuel tmPacket with
  | nil =>
      obtain ⟨fuel, rfl⟩ := Nat.exists_eq_succ_of_ne_zero (Nat.ne_of_gt (Nat.zero_lt_of_lt hfuel))
      rw [checkWalk, if_pos front_nil]
      exact Triple.pure fun b hb => ⟨rfl, hb⟩
  | cons x rest ih =>
      obtain ⟨fuel, rfl⟩ := Nat.exists_eq_succ_of_ne_zero (Nat.ne_of_gt (Nat.zero_lt_of_lt hfuel))
      have hx : x ∈ own .sndBuf := by simp [hown]
      rw [checkWalk, if_neg front_ne_head, front_cons, List.map_cons, checkLoop]
      apply (entry_triple hx).bind_eq _
      dsimp only
      by_cases hdue : itimediff x.2.resendts current ≤ 0
      · rw [if_pos hdue, if_pos hdue]
        exact Triple.pure fun b hb => ⟨rfl, hb⟩
      · have hnext : own .sndBuf = (done ++ [x]) ++ rest := by simp [hown]
        rw [if_neg hdue, if_neg hdue]
        apply (next_triple hown).bind_eq _
        exact ih hnext (by simpa using hfuel) _

theorem check_triple (current : UInt32) :
    Triple (Stands [] k) (check current) fun r b =>
      r = ikcpCheck k current ∧ Stands [] k b := by
  refine Stands.triple fun own kcp acks hk => ?_
  subst hk
  have hkeep : ∀ r, r = ikcpCheck (blockOf own kcp acks) current →
      Triple (Holds own [] kcp acks) (pure r) fun r b =>
        r = ikcpCheck (blockOf own kcp acks) current ∧
          Stands [] (blockOf own kcp acks) b :=
    fun r hr => Triple.pure fun b hb => ⟨hr, hb.stands⟩
  have hupdated : (blockOf own kcp acks).updated = kcp.updated := rfl
  have hts : (blockOf own kcp acks).tsFlush = kcp.tsFlush := rfl
  unfold ikcpCheck at hkeep ⊢
  rw [hupdated, hts] at hkeep ⊢
  apply getKcp_triple.bind_eq _
  apply Triple.ite
  · intro hfirst
    apply hkeep
    rw [if_pos hfirst]
  · intro hsome
    rw [if_neg hsome] at hkeep ⊢
    dsimp only at hkeep ⊢
    apply Triple.ite
    · intro hlate
      apply hkeep
      rw [if_pos hlate]
    · intro hearly
      rw [if_neg hearly] at hkeep ⊢
      apply (next_head_triple .sndBuf).bind_eq _
      apply walkFuel_triple.bind
      intro fuel
      apply Triple.and
      intro hfuel
      apply (checkWalk_triple current (List.nil_append _).symm (hfuel .sndBuf) _).bind_eq _
      have hloop : (blockOf own kcp acks).sndBuf = (own .sndBuf).map Prod.snd := rfl
      rw [hloop] at hkeep ⊢
      cases hwalk : checkLoop current 0x7fffffff ((own .sndBuf).map Prod.snd) with
      | none =>
          rw [hwalk] at hkeep
          exact hkeep _ rfl
      | some tmPacket =>
          rw [hwalk] at hkeep
          exact hkeep _ rfl

theorem interval_triple (interval : Int) :
    Triple (Stands [] k) (setKcp fun kcp => setInterval kcp interval)
      fun _ => Stands [] (setInterval k interval) :=
  Stands.setKcp (fun _ => rfl) fun _ _ _ => rfl

theorem stream_triple (stream : Int) :
    Triple (Stands [] k) (setKcp fun kcp => { kcp with stream := stream })
      fun _ => Stands [] { k with stream := stream } :=
  Stands.setKcp (fun _ => rfl) fun _ _ _ => rfl

theorem recv_outcome (len : Int) :
    Triple (Stands [] k) (Memory.recv len) fun r b =>
      r = (recvOutcome k len).2 ∧ Stands [] (recvOutcome k len).1 b := by
  apply (recv_triple len).post
  intro r b hb
  unfold recvOutcome
  cases hr : ikcpRecv k len with
  | error code =>
      rw [hr] at hb
      exact hb
  | ok result =>
      rw [hr] at hb
      exact hb

/-- One request that fits is the list model's. -/
theorem request_triple {op : Request} (hfits : op.Fits k) :
    Triple (Stands [] k) op.run fun r b =>
      r = (op.apply k).2 ∧ Stands [] (op.apply k).1 b := by
  cases op with
  | setmtu mtu =>
      exact (setmtu_triple mtu.size_lt).bind_eq _ (Triple.pure fun b hb => ⟨rfl, hb⟩)
  | nodelay mode time resend nc =>
      exact (nodelay_triple mode.toInt time.toInt resend.toInt nc.toInt).bind fun _ =>
        Triple.pure fun b hb => ⟨rfl, hb⟩
  | interval time =>
      exact (interval_triple time.toInt).bind fun _ => Triple.pure fun b hb => ⟨rfl, hb⟩
  | wndsize sndwnd rcvwnd =>
      exact (wndsize_triple sndwnd.toInt rcvwnd.toInt).bind fun _ =>
        Triple.pure fun b hb => ⟨rfl, hb⟩
  | stream mode =>
      exact (stream_triple mode.toInt).bind fun _ => Triple.pure fun b hb => ⟨rfl, hb⟩
  | send message =>
      exact (send_triple message.data message.data.length).bind_eq _
        (Triple.pure fun b hb => ⟨rfl, hb⟩)
  | recv len =>
      exact (recv_outcome len.val.toInt).bind_eq _ (Triple.pure fun b hb => ⟨rfl, hb⟩)
  | input data =>
      exact (input_triple data).bind_eq _ (Triple.pure fun b hb => ⟨rfl, hb⟩)
  | update current =>
      exact (update_triple current hfits).bind_eq _ (Triple.pure fun b hb => ⟨rfl, hb⟩)
  | flush =>
      exact (flush_triple hfits).bind_eq _ (Triple.pure fun b hb => ⟨rfl, hb⟩)
  | check current =>
      exact (check_triple current).bind_eq _ (Triple.pure fun b hb => ⟨rfl, hb⟩)
  | peeksize =>
      exact peeksize_triple.bind_eq _ (Triple.pure fun b hb => ⟨rfl, hb⟩)
  | waitsnd =>
      exact (getKcp_stands ikcpWaitsnd fun _ _ _ => rfl).bind fun kcp =>
        Triple.and fun hsame => Triple.pure fun b hb =>
          ⟨congrArg (fun n : Nat => Reply.code n) hsame, hb⟩

theorem request_fails {op : Request} (hlong : ¬ op.Fits k) : Fails (Stands [] k) op.run := by
  cases op with
  | update current => exact (update_fails current hlong).bind
  | flush => exact (flush_fails hlong).bind
  | _ => exact absurd True.intro hlong

end Requests

/-! ## Whole lives -/

/-- `ikcp_create`, and the requests made of the block in order. -/
def session (ops : List Request) : M (List Reply) := do
  create
  runAll Request.run ops

/-- No flush on the way transmits a segment that is longer than the scratch buffer. -/
def Roomy (conv : UInt32) (ops : List Request) : Prop :=
  ∀ before op after, ops = before ++ op :: after →
    op.Fits (applyAll Request.apply (ikcpCreate conv) before).1

theorem roomy_iff {conv : UInt32} {ops : List Request} :
    Roomy conv ops ↔ Admits Request.apply Request.Fits (ikcpCreate conv) ops :=
  admits_iff.symm

theorem session_stands {conv : UInt32} {ops : List Request} (h : Roomy conv ops) :
    ∃ b, (session ops).run (rawBlock conv) =
        some ((applyAll Request.apply (ikcpCreate conv) ops).2, b) ∧
      Stands [] (applyAll Request.apply (ikcpCreate conv) ops).1 b := by
  obtain ⟨b, hcreate, hb⟩ := create_stands conv
  obtain ⟨_, b', hrun, rfl, hb'⟩ :=
    runAll_triple (fun _ _ hfits => request_triple hfits) (roomy_iff.mp h) b hb
  refine ⟨b', ?_, hb'⟩
  unfold session
  rw [StateT.run_bind, hcreate]
  exact hrun

theorem session_fails {conv : UInt32} {ops : List Request} (h : ¬ Roomy conv ops) :
    (session ops).run (rawBlock conv) = none := by
  obtain ⟨b, hcreate, hb⟩ := create_stands conv
  have hfails := runAll_fails (fun k op hfits => @request_triple k op hfits)
    (fun k op hlong => @request_fails k op hlong) (roomy_iff.not.mp h) b hb
  unfold session
  rw [StateT.run_bind, hcreate]
  exact hfails

/-- No accepted MTU is so small that three times its buffer could not hold a segment of the
largest MTU before it, `top`. -/
def Gentle (top : Nat) : List Request → Prop
  | [] => True
  | .setmtu mtu :: ops =>
      if mtu.val.toInt < 50 then Gentle top ops
      else top ≤ (mtu.val.toInt.toNat + ikcpOverhead) * 3 ∧
        Gentle (max top mtu.val.toInt.toNat) ops
  | _ :: ops => Gentle top ops

/-- No segment still to be sent, and none cut next, is longer than `top` with its header. -/
structure Bounded (top : Nat) (k : IKCPCB) : Prop where
  mss : k.mss.toNat + ikcpOverhead ≤ top
  queued : ∀ seg ∈ k.sndQueue, ikcpOverhead + seg.data.length ≤ top
  buffered : ∀ seg ∈ cores k.sndBuf, ikcpOverhead + seg.data.length ≤ top

section Bounded

variable {top : Nat} {k k' : IKCPCB} (h : Bounded top k)

include h

theorem Bounded.kept (hmss : k'.mss = k.mss) (hqueue : k'.sndQueue = k.sndQueue)
    (hbuf : (cores k'.sndBuf).Sublist (cores k.sndBuf)) : Bounded top k' where
  mss := by
    rw [hmss]
    exact h.mss
  queued := by
    rw [hqueue]
    exact h.queued
  buffered := fun seg hseg => h.buffered seg (hbuf.mem hseg)

theorem Bounded.cut (count : Nat) (buffer : Bytes) :
    ∀ seg ∈ sendFragments k.mss.toNat k.stream count buffer,
      ikcpOverhead + seg.data.length ≤ top := by
  have hmss := h.mss
  induction count generalizing buffer with
  | zero => exact List.forall_mem_nil _
  | succ count ih =>
      rw [sendFragments]
      intro seg hseg
      rcases List.mem_cons.mp hseg with rfl | hseg
      · rw [List.length_take]
        split
        · omega
        · omega
      · exact ih _ seg hseg

theorem Bounded.cutRest (buffer : Bytes) : Bounded top (cutRest k buffer).1 := by
  unfold Memory.cutRest
  split
  · exact h
  · split
    · exact h
    · refine ⟨h.mss, ?_, h.buffered⟩
      intro seg hseg
      rcases List.mem_append.mp hseg with hseg | hseg
      · exact h.queued seg hseg
      · exact h.cut _ _ seg hseg

theorem Bounded.extend (buffer : Bytes) :
    Bounded top { k with sndQueue := (extendLast k buffer).1 } := by
  refine ⟨h.mss, ?_, h.buffered⟩
  have hmss := h.mss
  unfold extendLast
  cases hlast : k.sndQueue.getLast? with
  | none => exact h.queued
  | some old =>
      dsimp only
      split
      · intro seg hseg
        rcases List.mem_append.mp hseg with hseg | hseg
        · exact h.queued seg (List.mem_of_mem_dropLast hseg)
        · -- the segment that takes the place of the last one is filled up to `mss`
          rw [List.mem_singleton.mp hseg, List.length_append, List.length_take]
          split
          · omega
          · omega
      · exact h.queued

theorem Bounded.send (data : Bytes) (len : Int) : Bounded top (sendOutcome k data len).1 := by
  unfold sendOutcome
  split
  · exact h
  · split
    · exact (h.extend _).cutRest _
    · exact h.cutRest _

theorem Bounded.opened : Bounded top (flushOpened k) := by
  have hmss : (flushOpened k).mss = k.mss := congrArg Config.mss (Plug.flushOpened_config k)
  refine ⟨?_, ?_, ?_⟩
  · rw [hmss]
    exact h.mss
  · obtain ⟨opened, -, hdrop, -⟩ := Plug.flushOpened_moved k
    rw [hdrop]
    exact fun seg hseg => h.queued seg (List.mem_of_mem_drop hseg)
  · intro seg hseg
    unfold flushOpened moveSndQueue at hseg
    dsimp only at hseg
    rw [cores_append, flushProbed_sndBuf] at hseg
    rcases List.mem_append.mp hseg with hseg | hseg
    · exact h.buffered seg hseg
    · obtain ⟨opened, hopened, rfl⟩ := List.mem_map.mp hseg
      obtain ⟨i, hi⟩ := List.mem_iff_getElem?.mp hopened
      obtain ⟨newseg, hget, rfl⟩ := openWindow_get hi
      rw [flushProbed_sndQueue] at hget
      exact h.queued newseg (List.mem_of_getElem? hget)

theorem Bounded.timed (current : UInt32) : Bounded top (updateTimer k current).1 := by
  rw [Plug.updateTimer_eq]
  exact ⟨h.mss, h.queued, h.buffered⟩

theorem Bounded.flush : Bounded top (ikcpFlush k).1 := by
  by_cases hnone : k.updated = 0
  · rw [ikcpFlush, if_pos hnone]
    exact h
  · rw [ikcpFlush_block hnone]
    refine ⟨h.opened.mss, h.opened.queued, ?_⟩
    dsimp only
    rw [stamped_cores]
    exact h.opened.buffered

theorem Bounded.update (current : UInt32) : Bounded top (ikcpUpdate k current).1 :=
  Plug.kcpUpdate_of (h.timed current) (h.timed current).flush

/-- A flush stays inside a buffer as large as the bound. -/
theorem Bounded.fits (htop : top ≤ (k.mtu.toNat + ikcpOverhead) * 3) : Fits k := by
  intro seg hseg
  have hlen : ikcpOverhead + seg.data.length ≤ top :=
    h.opened.buffered seg.core (mem_cores hseg)
  rw [FitsBuffer, flushOpened_mtu]
  exact Or.inr (Nat.le_trans hlen htop)

end Bounded

theorem setmtuOutcome_small {k : IKCPCB} {mtu : Int} (h : mtu < 50) :
    setmtuOutcome k mtu = (k, -1) := by
  unfold setmtuOutcome ikcpSetmtu
  rw [if_pos (Or.inl h)]

theorem setmtuOutcome_large {k : IKCPCB} {mtu : Int} (h : ¬ mtu < 50) :
    setmtuOutcome k mtu =
      ({ k with mtu := toU32 mtu, mss := toU32 mtu - UInt32.ofNat ikcpOverhead }, 0) := by
  have hhead : (ikcpOverhead : Int) = 24 := rfl
  unfold setmtuOutcome ikcpSetmtu
  rw [if_neg (by omega)]

/-- What `ikcp_send` has queued and sent, and the sizes it cuts to. -/
structure SameSending (k k' : IKCPCB) : Prop where
  mtu : k'.mtu = k.mtu
  mss : k'.mss = k.mss
  queue : k'.sndQueue = k.sndQueue
  buf : k'.sndBuf = k.sndBuf

theorem SameSending.refl (k : IKCPCB) : SameSending k k := ⟨rfl, rfl, rfl, rfl⟩

theorem SameSending.nodelay (k : IKCPCB) (mode time resend nc : Int) :
    SameSending k (ikcpNodelay k mode time resend nc) := by
  unfold ikcpNodelay
  dsimp only
  split_ifs <;> exact ⟨rfl, rfl, rfl, rfl⟩

theorem SameSending.wndsize (k : IKCPCB) (sndwnd rcvwnd : Int) :
    SameSending k (ikcpWndsize k sndwnd rcvwnd) := by
  unfold ikcpWndsize
  dsimp only
  split_ifs <;> exact ⟨rfl, rfl, rfl, rfl⟩

theorem SameSending.recv (k : IKCPCB) (len : Int) : SameSending k (recvOutcome k len).1 := by
  unfold recvOutcome
  cases hr : ikcpRecv k len with
  | error code => exact SameSending.refl k
  | ok result =>
      unfold ikcpRecv at hr
      dsimp only at hr
      split_ifs at hr <;> cases hr <;> exact ⟨rfl, rfl, rfl, rfl⟩

theorem sendOutcome_mtu (k : IKCPCB) (data : Bytes) (len : Int) :
    (sendOutcome k data len).1.mtu = k.mtu := by
  unfold sendOutcome cutRest
  dsimp only
  split_ifs <;> rfl

theorem flush_mtu (k : IKCPCB) : (ikcpFlush k).1.mtu = k.mtu := by
  by_cases hnone : k.updated = 0
  · rw [ikcpFlush, if_pos hnone]
  · exact congrArg Config.mtu (Plug.ikcpFlush_config hnone)

/-- Other requests leave the bound and the MTU. -/
theorem Bounded.apply {top : Nat} {k : IKCPCB} (h : Bounded top k) {op : Request}
    (hop : ∀ mtu, op ≠ .setmtu mtu) :
    Bounded top (op.apply k).1 ∧ (op.apply k).1.mtu = k.mtu := by
  have hsame : ∀ {k' : IKCPCB}, SameSending k k' → Bounded top k' ∧ k'.mtu = k.mtu :=
    fun hk => ⟨h.kept hk.mss hk.queue (by rw [hk.buf]), hk.mtu⟩
  cases op with
  | setmtu mtu => exact absurd rfl (hop mtu)
  | nodelay mode time resend nc => exact hsame (SameSending.nodelay k _ _ _ _)
  | interval time => exact hsame ⟨rfl, rfl, rfl, rfl⟩
  | wndsize sndwnd rcvwnd => exact hsame (SameSending.wndsize k _ _)
  | stream mode => exact hsame ⟨rfl, rfl, rfl, rfl⟩
  | send message => exact ⟨h.send message.data _, sendOutcome_mtu k message.data _⟩
  | recv len => exact hsame (SameSending.recv k _)
  | input data =>
      have hconfig := ikcpInput_config k data
      have hkept := SendKept.input k data
      exact ⟨h.kept (congrArg Config.mss hconfig) hkept.queue hkept.buf,
        congrArg Config.mtu hconfig⟩
  | update current =>
      exact ⟨h.update current, congrArg Config.mtu (Plug.kcpUpdate_config k current)⟩
  | flush => exact ⟨h.flush, flush_mtu k⟩
  | check current => exact hsame (SameSending.refl k)
  | peeksize => exact hsame (SameSending.refl k)
  | waitsnd => exact hsame (SameSending.refl k)

/-- Only a flush writes into the scratch buffer. -/
theorem Bounded.request_fits {top : Nat} {k : IKCPCB} (h : Bounded top k)
    (htop : top ≤ (k.mtu.toNat + ikcpOverhead) * 3) (op : Request) : op.Fits k := by
  cases op with
  | update current =>
      have hmtu : (updateTimer k current).1.mtu = k.mtu := by rw [Plug.updateTimer_eq]
      exact fun _ => (h.timed current).fits (by rw [hmtu]; exact htop)
  | flush => exact fun _ => h.fits htop
  | _ => exact True.intro

theorem Gentle.other {top : Nat} {op : Request} {ops : List Request}
    (h : Gentle top (op :: ops)) (hop : ∀ mtu, op ≠ .setmtu mtu) : Gentle top ops := by
  cases op with
  | setmtu mtu => exact absurd rfl (hop mtu)
  | _ => exact h

theorem Bounded.admits {top : Nat} {k : IKCPCB} {ops : List Request} (h : Bounded top k)
    (htop : top ≤ (k.mtu.toNat + ikcpOverhead) * 3) (hgentle : Gentle top ops) :
    Admits Request.apply Request.Fits k ops := by
  induction ops generalizing top k with
  | nil => exact True.intro
  | cons op ops ih =>
      refine ⟨h.request_fits htop op, ?_⟩
      by_cases hop : ∃ mtu, op = .setmtu mtu
      · obtain ⟨mtu, rfl⟩ := hop
        unfold Gentle at hgentle
        show Admits Request.apply Request.Fits (setmtuOutcome k mtu.val.toInt).1 ops
        by_cases hsmall : mtu.val.toInt < 50
        · rw [if_pos hsmall] at hgentle
          rw [setmtuOutcome_small hsmall]
          exact ih h htop hgentle
        · rw [if_neg hsmall] at hgentle
          rw [setmtuOutcome_large hsmall]
          have hsize := mtu.size_lt
          have hhead : ikcpOverhead = 24 := rfl
          have hmtu : (toU32 mtu.val.toInt).toNat = mtu.val.toInt.toNat := by
            unfold toU32
            rw [UInt32.toNat_ofNat']
            omega
          have hmss : (toU32 mtu.val.toInt - UInt32.ofNat ikcpOverhead).toNat + ikcpOverhead =
              mtu.val.toInt.toNat := by
            have hle : UInt32.ofNat ikcpOverhead ≤ toU32 mtu.val.toInt := by
              rw [UInt32.le_iff_toNat_le, hmtu]
              show 24 ≤ mtu.val.toInt.toNat
              omega
            rw [UInt32.toNat_sub_of_le _ _ hle, hmtu]
            show mtu.val.toInt.toNat - 24 + 24 = mtu.val.toInt.toNat
            omega
          apply @ih (max top mtu.val.toInt.toNat) _ ⟨?_, ?_, ?_⟩ _ hgentle.2
          · dsimp only
            rw [hmss]
            exact Nat.le_max_right _ _
          · exact fun seg hseg => Nat.le_trans (h.queued seg hseg) (Nat.le_max_left _ _)
          · exact fun seg hseg => Nat.le_trans (h.buffered seg hseg) (Nat.le_max_left _ _)
          · dsimp only
            rw [hmtu]
            have hold := hgentle.1
            omega
      · have hother : ∀ mtu, op ≠ .setmtu mtu := fun mtu heq => hop ⟨mtu, heq⟩
        obtain ⟨hbounded, hmtu⟩ := h.apply hother
        exact ih hbounded (by rw [hmtu]; exact htop) (hgentle.other hother)

def thousand : Message where
  data := List.replicate 1000 65
  short := by
    rw [List.length_replicate]
    decide

/-- A message is cut for the default MTU and sent under one of 500. -/
def shrunk : List Request :=
  [.send thousand, .setmtu ⟨500, by decide⟩, .update 0, .update 100]

-- with an MTU of 50 the same message is written past the buffer
example : (session
    [.send thousand, .setmtu ⟨50, by decide⟩, .update 0, .update 100]).run (rawBlock 7) = none :=
  session_fails fun hroomy => absurd (hroomy
    [.send thousand, .setmtu ⟨50, by decide⟩, .update 0] (.update 100) [] rfl)
    (show ¬ UpdateFits _ 100 by decide +kernel)

end UdpKcp.Memory
