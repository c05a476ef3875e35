import UdpKcp.Memory.Flush
import UdpKcp.Plug.Drain

/-! # The plug in memory

A block is created, used through the plug in any order, and released. Nothing it
does is undefined, every answer is the list model's, and between two calls the
allocated segments are exactly those in the four queues; releasing frees them all.
-/

namespace UdpKcp.Memory

open ByteCodec (Bytes)
open Ikcp
open Intrusive (Heap Linked Place Ring Rings front front_cons)
open Plug (Drained Drains Reachable Socket maxUdpMtu unread)
open Triples (Admits Triple admits_of_invariant applyAll runAll runAll_triple)

/-! ## The plug's calls -/

/-- The size allocated for the scratch buffer, computed in 32 bits. -/
def bufferSize (mtu : UInt32) : Nat := ((mtu + UInt32.ofNat ikcpOverhead) * 3).toNat

theorem bufferSize_eq {mtu : UInt32} (h : (mtu.toNat + ikcpOverhead) * 3 < 2 ^ 32) :
    bufferSize mtu = (mtu.toNat + ikcpOverhead) * 3 := by
  have hhead : (UInt32.ofNat ikcpOverhead).toNat = ikcpOverhead := rfl
  have hthree : (3 : UInt32).toNat = 3 := rfl
  unfold bufferSize
  rw [UInt32.toNat_mul, UInt32.toNat_add, hhead, hthree]
  omega

/-- The memory of `ikcp_create` when its assignments to plain fields are done. -/
def rawBlock (conv : UInt32) : Block where
  heap :=
    { links :=
        { live := fun p => match p with
            | .head _ => true
            | .node _ => false
          next := fun _ => none
          prev := fun _ => none }
      val := fun _ => {}
      top := 0 }
  kcp := ikcpCreate conv
  acks := {}
  bufsize := bufferSize ikcpMtuDef

/-- `ikcp_setmtu`, with allocation succeeding: a new scratch buffer. -/
def setmtu (mtu : Int) : M Int := fun b =>
  match ikcpSetmtu b.kcp mtu with
  | .ok kcp => some (0, { b with kcp := kcp, bufsize := bufferSize kcp.mtu })
  | .error code => some (code, b)

/-- The rest of `ikcp_create`: four empty queues. -/
def create : M Unit := do
  iqueueInit (.head .sndQueue)
  iqueueInit (.head .rcvQueue)
  iqueueInit (.head .sndBuf)
  iqueueInit (.head .rcvBuf)

/-- `NewKcpPlugControlBlock`. -/
def newKcpPlugControlBlock : M Unit := do
  create
  setKcp fun kcp => ikcpNodelay kcp 0 10 0 0
  setKcp fun kcp => ikcpWndsize kcp 128 128
  let _ ← setmtu maxUdpMtu
  return ()

/-- The socket loop of `KcpRecv`. -/
def recvLoop : Socket → M Socket
  | [] => return []
  | none :: soc => return soc
  | some d :: soc =>
      if (d.take maxUdpMtu).length > 0 then do
        let _ ← input (d.take maxUdpMtu)
        recvLoop soc
      else return soc

/-- The drain loop of `KcpRecv`. -/
def drainLoop : Nat → Int → M (List Bytes)
  | 0, _ => failure
  | fuel + 1, maxlen =>
      if maxlen > 0 then do
        match ← recv maxlen with
        | .error _ => return []
        | .ok bytes => do
            let rest ← drainLoop fuel (maxlen - bytes.length)
            return bytes :: rest
      else return []

/-- The datagram that `KcpRecv` is called with. -/
def firstInput : Option Bytes → M Unit
  | none => pure ()
  | some data =>
      if data.length > 0 then do
        let _ ← input data
        return ()
      else pure ()

/-- `KcpRecv`: the messages, and what is left of the socket. -/
def kcpRecv (data : Option Bytes) (soc : Socket) (maxlen : Int) : M (List Bytes × Socket) := do
  firstInput data
  let soc ← recvLoop soc
  let fuel ← walkFuel
  let messages ← drainLoop (2 * fuel) maxlen
  return (messages, soc)

/-- The loop of `ikcp_release` over one queue. -/
def releaseQueue (q : Queue) : Nat → M Unit
  | 0 => failure
  | fuel + 1 => do
      if ← iqueueIsEmpty q then pure ()
      else do
        let p ← nextOf (.head q)
        iqueueDel p
        segmentDelete p
        releaseQueue q fuel

/-- `ikcp_release`, up to freeing the block itself. -/
def release : M Unit := do
  let fuel ← walkFuel
  releaseQueue .sndBuf fuel
  releaseQueue .rcvBuf fuel
  releaseQueue .sndQueue fuel
  releaseQueue .rcvQueue fuel

/-! ## Any calls in any order -/

/-- A call of the plug with its arguments. -/
inductive Op where
  | send (data : Bytes)
  | update (dlt : UInt32)
  | recv (input : Option Bytes) (soc : Socket) (maxlen : Int)

/-- What a call returns or hands to the output callback. -/
inductive Answer where
  | code (n : Int)
  | datagrams (sent : List Bytes)
  | received (messages : List Bytes) (soc : Socket)

def Op.run : Op → M Answer
  | .send data => return .code (← Memory.send data data.length)
  | .update dlt => return .datagrams (← Memory.update dlt)
  | .recv input soc maxlen => do
      let (messages, soc) ← kcpRecv input soc maxlen
      return .received messages soc

/-- The same call on the list model. -/
def Op.apply (block : IKCPCB) : Op → IKCPCB × Answer
  | .send data =>
      ((Plug.kcpSend block data data.length).1, .code (Plug.kcpSend block data data.length).2)
  | .update dlt => ((Plug.kcpUpdate block dlt).1, .datagrams (Plug.kcpUpdate block dlt).2)
  | .recv input soc maxlen =>
      let r := Plug.kcpRecv block input soc maxlen
      (r.block, .received r.messages r.soc)

/-! ## Creation -/

theorem blockOf_empty {k : IKCPCB} (hsq : k.sndQueue = []) (hrq : k.rcvQueue = [])
    (hsb : k.sndBuf = []) (hrb : k.rcvBuf = []) (hacks : k.acklist = []) :
    k = blockOf (fun _ => []) k [] := by
  cases k
  simp_all [blockOf]

theorem create_stands (conv : UInt32) :
    ∃ b, create.run (rawBlock conv) = some ((), b) ∧ Stands [] (ikcpCreate conv) b := by
  have hsize : bufferSize ikcpMtuDef = (ikcpMtuDef.toNat + ikcpOverhead) * 3 :=
    bufferSize_eq (by decide)
  refine ⟨_, rfl, fun _ => [], ikcpCreate conv, [], ?_, blockOf_empty rfl rfl rfl rfl rfl⟩
  refine ⟨⟨?_, by simp, by simp, by simp, by simp, by simp, by simp, ?_, ?_⟩, rfl, .start, hsize⟩
  · intro q
    refine ⟨by simp, ?_⟩
    cases q <;> exact ⟨rfl, rfl, rfl, rfl⟩
  · intro a ha
    cases ha
  · intro a ha
    cases ha

/-- `ikcp_setmtu` on the list model: the block after it and what it returns. -/
def setmtuOutcome (k : IKCPCB) (mtu : Int) : IKCPCB × Int :=
  match ikcpSetmtu k mtu with
  | .ok k' => (k', 0)
  | .error code => (k, code)

/-- The new buffer has three times the size of the new MTU with its overhead, as long as
that does not wrap. -/
theorem setmtu_triple {k : IKCPCB} {mtu : Int} (hsize : (mtu + ikcpOverhead) * 3 < 2 ^ 32) :
    Triple (Stands [] k) (setmtu mtu) fun r b =>
      r = (setmtuOutcome k mtu).2 ∧ Stands [] (setmtuOutcome k mtu).1 b := by
  rintro b ⟨own, kcp, acks, hb, rfl⟩
  unfold setmtuOutcome ikcpSetmtu
  by_cases hsmall : mtu < 50 ∨ mtu < ikcpOverhead
  · refine ⟨-1, b, ?_, ?_⟩
    · change setmtu mtu b = _
      unfold setmtu ikcpSetmtu
      rw [if_pos hsmall]
    · rw [if_pos hsmall]
      exact ⟨rfl, hb.stands⟩
  · have hlow : 50 ≤ mtu := Int.not_lt.mp (not_or.mp hsmall).1
    have hhead : (ikcpOverhead : Int) = 24 := rfl
    have hfits : ((toU32 mtu).toNat + ikcpOverhead) * 3 < 2 ^ 32 := by
      unfold toU32
      rw [UInt32.toNat_ofNat']
      omega
    refine ⟨0, { b with
      kcp := { kcp with mtu := toU32 mtu, mss := toU32 mtu - UInt32.ofNat ikcpOverhead }
      bufsize := bufferSize (toU32 mtu) }, ?_, ?_⟩
    · change setmtu mtu b = _
      unfold setmtu ikcpSetmtu
      rw [if_neg hsmall, hb.kcp_eq]
    · rw [if_neg hsmall]
      exact ⟨rfl, own, _, acks, ⟨hb.rings, rfl, hb.acks, bufferSize_eq hfits⟩, rfl⟩

theorem nodelay_triple {k : IKCPCB} (nodelay interval resend nc : Int) :
    Triple (Stands [] k) (setKcp fun kcp => ikcpNodelay kcp nodelay interval resend nc)
      fun _ => Stands [] (ikcpNodelay k nodelay interval resend nc) := by
  apply Stands.setKcp
  · intro kcp
    unfold ikcpNodelay
    dsimp only
    split_ifs <;> rfl
  · intro own kcp acks
    unfold ikcpNodelay blockOf
    dsimp only
    split_ifs <;> rfl

theorem wndsize_triple {k : IKCPCB} (sndwnd rcvwnd : Int) :
    Triple (Stands [] k) (setKcp fun kcp => ikcpWndsize kcp sndwnd rcvwnd)
      fun _ => Stands [] (ikcpWndsize k sndwnd rcvwnd) := by
  apply Stands.setKcp
  · intro kcp
    unfold ikcpWndsize
    dsimp only
    split_ifs <;> rfl
  · intro own kcp acks
    unfold ikcpWndsize blockOf
    dsimp only
    split_ifs <;> rfl

theorem new_stands (conv : UInt32) :
    ∃ b, newKcpPlugControlBlock.run (rawBlock conv) = some ((), b) ∧
      Stands [] (Plug.newKcpPlugControlBlock conv) b := by
  obtain ⟨b, hcreate, hb⟩ := create_stands conv
  have hsize : ((maxUdpMtu : Int) + ikcpOverhead) * 3 < 2 ^ 32 := by decide
  have hsettings : Triple (Stands [] (ikcpCreate conv)) (do
      setKcp fun kcp => ikcpNodelay kcp 0 10 0 0
      setKcp fun kcp => ikcpWndsize kcp 128 128
      let _ ← setmtu maxUdpMtu
      return ()) fun _ => Stands [] (Plug.newKcpPlugControlBlock conv) :=
    (nodelay_triple 0 10 0 0).bind fun _ => (wndsize_triple 128 128).bind fun _ =>
      (setmtu_triple hsize).bind fun _ => Triple.pure fun _ hb => hb.2
  obtain ⟨_, b', hrun, hb'⟩ := hsettings b hb
  refine ⟨b', ?_, hb'⟩
  unfold newKcpPlugControlBlock
  rw [StateT.run_bind, hcreate]
  exact hrun

/-! ## One call -/

section Calls

variable {k : IKCPCB}

theorem send_answer (hstream : k.stream = 0) (data : Bytes) :
    Triple (Stands [] k) (Memory.send data data.length) fun r b =>
      r = (Plug.kcpSend k data data.length).2 ∧
        Stands [] (Plug.kcpSend k data data.length).1 b := by
  refine (send_triple data data.length).post fun r b hb => ?_
  unfold Plug.kcpSend
  rw [sendOutcome_ikcpSend]
  by_cases hok : (sendOutcome k data data.length).2 = 0
  · rw [if_pos hok]
    exact ⟨hb.1.trans hok, hb.2⟩
  · rw [if_neg hok]
    rw [sendOutcome_failed hstream hok] at hb
    exact hb

theorem firstInput_triple (data : Option Bytes) :
    Triple (Stands [] k) (firstInput data) fun _ => Stands [] (match data with
      | some data => if data.length > 0 then (ikcpInput k data).1 else k
      | none => k) := by
  cases data with
  | none => exact Triple.pure fun b hb => hb
  | some data =>
      refine Triple.ite (fun hlong => ?_) (fun hempty => ?_)
      · dsimp only
        rw [if_pos hlong]
        exact (input_triple data).bind fun r => Triple.and fun _ => Triple.pure fun b hb => hb
      · dsimp only
        rw [if_neg hempty]
        exact Triple.pure fun b hb => hb

theorem recvLoop_triple (soc : Socket) :
    Triple (Stands [] k) (recvLoop soc) fun r b =>
      r = (Plug.recvLoop k soc).2 ∧ Stands [] (Plug.recvLoop k soc).1 b := by
  induction soc generalizing k with
  | nil => exact Triple.pure fun b hb => ⟨rfl, hb⟩
  | cons read soc ih =>
      cases read with
      | none => exact Triple.pure fun b hb => ⟨rfl, hb⟩
      | some d =>
          unfold recvLoop Plug.recvLoop
          dsimp only
          split
          · exact (input_triple _).bind fun r => Triple.and fun _ => ih
          · exact Triple.pure fun b hb => ⟨rfl, hb⟩

/-- The bounded loop is the loop when it has more fuel than the loop makes calls. -/
theorem drainLoop_triple {maxlen : Int} {calls : ℕ} {d : Drained}
    (hd : Drains k maxlen calls d) {fuel : ℕ} (hfuel : calls < fuel) :
    Triple (Stands [] k) (drainLoop fuel maxlen) fun r b =>
      r = d.messages ∧ Stands [] d.block b := by
  induction hd generalizing fuel with
  | full hfull =>
      obtain ⟨fuel, rfl⟩ := Nat.exists_eq_succ_of_ne_zero (Nat.ne_of_gt hfuel)
      rw [drainLoop, if_neg hfull]
      exact Triple.pure fun b hb => ⟨rfl, hb⟩
  | @refused pcb maxlen code hroom hrecv hneg =>
      obtain ⟨fuel, rfl⟩ := Nat.exists_eq_succ_of_ne_zero (Nat.ne_of_gt (Nat.zero_lt_of_lt hfuel))
      rw [drainLoop, if_pos hroom]
      have hcall := recv_triple (k := pcb) maxlen
      rw [hrecv] at hcall
      refine hcall.bind_eq _ ?_
      exact Triple.pure fun b hb => ⟨rfl, hb⟩
  | @taken pcb pcb' maxlen bytes calls rest hroom hrecv hrest ih =>
      obtain ⟨fuel, rfl⟩ := Nat.exists_eq_succ_of_ne_zero (Nat.ne_of_gt (Nat.zero_lt_of_lt hfuel))
      rw [drainLoop, if_pos hroom]
      have hcall := recv_triple (k := pcb) maxlen
      rw [hrecv] at hcall
      refine hcall.bind_eq _ ?_
      refine (ih (by omega)).bind_eq _ ?_
      exact Triple.pure fun b hb => ⟨rfl, hb⟩

theorem kcpRecv_triple {conv : UInt32} (h : Reachable conv k) (input : Option Bytes)
    (soc : Socket) (maxlen : Int) :
    Triple (Stands [] k) (kcpRecv input soc maxlen) fun r b =>
      r = ((Plug.kcpRecv k input soc maxlen).messages, (Plug.kcpRecv k input soc maxlen).soc) ∧
        Stands [] (Plug.kcpRecv k input soc maxlen).block b := by
  have hloop : Plug.recvLoop (match input with
      | some data => if data.length > 0 then (ikcpInput k data).1 else k
      | none => k) soc = Plug.kcpRecvInput k input soc := rfl
  refine (firstInput_triple input).bind fun _ => (recvLoop_triple soc).bind_eq _ ?_
  rw [hloop]
  have hsettled := ((Plug.ringed_of_reachable h).rcv.kcpRecvInput input soc).1
  refine Stands.triple fun own kcp acks hk => ?_
  refine walkFuel_triple.bind fun fuel => Triple.and fun hfuel => ?_
  refine Triple.pre ?_ fun b (hb : Holds own [] kcp acks b) => hb.stands
  rw [← hk]
  have hunread : unread (Plug.kcpRecvInput k input soc).1 =
      (own .rcvQueue).length + (own .rcvBuf).length := by
    rw [hk]
    simp [unread, blockOf]
  obtain ⟨calls, hcalls, hdrains⟩ := Plug.drains_loop hsettled maxlen (Nat.lt_succ_self _)
  have hrq := hfuel .rcvQueue
  have hrb := hfuel .rcvBuf
  refine (drainLoop_triple hdrains (by omega)).bind_eq _ ?_
  exact Triple.pure fun b hb => ⟨rfl, hb⟩

theorem updateFits_of_reachable {conv : UInt32} (h : Reachable conv k) (current : UInt32) :
    UpdateFits k current := by
  intro _ seg hseg
  have hopened := ((Plug.sound_of_reachable h).timed current).opened
  have hfits := (hopened.sendable hseg).fits
  have hmtu := hopened.mtu_toNat
  have hmss : Plug.plugMss = 552 := rfl
  have hmax : maxUdpMtu = 576 := rfl
  exact Or.inr (by omega)

/-- One call on a block that stands for a reachable one. -/
theorem run_triple {conv : UInt32} (h : Reachable conv k) (op : Op) :
    Triple (Stands [] k) op.run fun r b =>
      r = (op.apply k).2 ∧ Stands [] (op.apply k).1 b := by
  cases op with
  | send data =>
      refine (send_answer (Plug.sound_of_reachable h).stream_eq data).bind_eq _ ?_
      exact Triple.pure fun b hb => ⟨rfl, hb⟩
  | update dlt =>
      refine (update_triple dlt (updateFits_of_reachable h dlt)).bind_eq _ ?_
      exact Triple.pure fun b hb => ⟨rfl, hb⟩
  | recv input soc maxlen =>
      refine (kcpRecv_triple h input soc maxlen).bind_eq _ ?_
      exact Triple.pure fun b hb => ⟨rfl, hb⟩

theorem Op.call (k : IKCPCB) (op : Op) : Plug.Call k (op.apply k).1 := by
  cases op with
  | send data => exact .send k data
  | update dlt => exact .update k dlt
  | recv input soc maxlen => exact .recv k input soc maxlen

theorem ops_triple {conv : UInt32} (h : Reachable conv k) (ops : List Op) :
    Triple (Stands [] k) (runAll Op.run ops) fun r b =>
      r = (applyAll Op.apply k ops).2 ∧ Stands [] (applyAll Op.apply k ops).1 b := by
  have hadmits : Admits Op.apply (fun k _ => Reachable conv k) k ops :=
    admits_of_invariant (fun k op hk => hk.tail (op.call k)) (fun k op hk => hk) h ops
  exact runAll_triple (fun k op hk => run_triple hk op) hadmits

end Calls

/-! ## Release -/

section Release

variable {own : Queue → List (Nat × IKCPSEG)} {kcp : IKCPCB} {acks : List (UInt32 × UInt32)}

theorem releaseQueue_triple (q : Queue) {fuel : ℕ} (hfuel : (own q).length < fuel) :
    Triple (Holds own [] kcp acks) (releaseQueue q fuel) fun _ =>
      Holds (Function.update own q []) [] kcp acks := by
  generalize hxs : own q = xs at hfuel
  induction xs generalizing own fuel with
  | nil =>
      obtain ⟨fuel, rfl⟩ := Nat.exists_eq_succ_of_ne_zero (Nat.ne_of_gt (Nat.zero_lt_of_lt hfuel))
      have hsame : Function.update own q [] = own := by rw [← hxs, Function.update_eq_self]
      refine (isEmpty_triple q).bind_eq _ ?_
      rw [hxs, hsame]
      exact Triple.pure fun b hb => hb
  | cons x xs ih =>
      obtain ⟨fuel, rfl⟩ := Nat.exists_eq_succ_of_ne_zero (Nat.ne_of_gt (Nat.zero_lt_of_lt hfuel))
      have hsplit : own q = [] ++ x :: xs := hxs
      refine (isEmpty_triple q).bind_eq _ ?_
      rw [hxs]
      simp only [reduceCtorEq, decide_false, Bool.false_eq_true, if_false]
      refine (next_head_triple q).bind_eq _ ?_
      rw [hxs, front_cons]
      refine (del_triple hsplit).bind fun _ => delete_triple.bind fun _ => ?_
      refine (ih (by simp) (by simpa using hfuel)).post fun _ b hb => ?_
      rwa [Function.update_idem] at hb

/-- Every segment is freed. -/
theorem release_triple :
    Triple (Holds own [] kcp acks) release fun _ => Holds (fun _ => []) [] kcp acks := by
  refine walkFuel_triple.bind fun fuel => Triple.and fun hfuel => ?_
  refine (releaseQueue_triple .sndBuf (hfuel .sndBuf)).bind fun _ => ?_
  refine (releaseQueue_triple .rcvBuf (by simpa using hfuel .rcvBuf)).bind fun _ => ?_
  refine (releaseQueue_triple .sndQueue (by simpa using hfuel .sndQueue)).bind fun _ => ?_
  refine (releaseQueue_triple .rcvQueue (by simpa using hfuel .rcvQueue)).post fun _ b hb => ?_
  have hempty : Function.update (Function.update (Function.update (Function.update own .sndBuf [])
      .rcvBuf []) .sndQueue []) .rcvQueue [] = fun _ => [] := by
    funext q
    cases q <;> simp
  rwa [hempty] at hb

end Release

/-! ## Whole lives -/

/-- The block created, and the calls made on it in order. -/
def life (ops : List Op) : M (List Answer) := do
  newKcpPlugControlBlock
  runAll Op.run ops

theorem life_stands (conv : UInt32) (ops : List Op) :
    ∃ b, (life ops).run (rawBlock conv) =
        some ((applyAll Op.apply (Plug.newKcpPlugControlBlock conv) ops).2, b) ∧
      Stands [] (applyAll Op.apply (Plug.newKcpPlugControlBlock conv) ops).1 b := by
  obtain ⟨b, hnew, hb⟩ := new_stands conv
  have hstart : Reachable conv (Plug.newKcpPlugControlBlock conv) := Relation.ReflTransGen.refl
  obtain ⟨answers, b', hrun, rfl, hb'⟩ := ops_triple hstart ops b hb
  refine ⟨b', ?_, hb'⟩
  simp [life, StateT.run_bind, hnew, hrun]

/-- Following `next` from the head of a queue, `segs` comes one after the other, and
following `prev` from the end it comes back. -/
def Queued (b : Block) (q : Queue) (segs : List IKCPSEG) : Prop :=
  ∃ addrs : List ℕ, Ring b.heap.links (.head q) (addrs.map .node) ∧
    addrs.map b.heap.val = segs

theorem Stands.queued {k : IKCPCB} {b : Block} (h : Stands [] k b) :
    Queued b .sndQueue k.sndQueue ∧ Queued b .rcvQueue k.rcvQueue ∧
      Queued b .sndBuf k.sndBuf ∧ Queued b .rcvBuf k.rcvBuf := by
  obtain ⟨own, kcp, acks, hb, rfl⟩ := h
  have hqueue : ∀ q, Queued b q ((own q).map Prod.snd) := by
    intro q
    refine ⟨(own q).map Prod.fst, ?_, ?_⟩
    · rw [List.map_map]
      exact hb.rings.ring q
    · simpa using fun a seg hx => hb.rings.value q (a, seg) hx
  exact ⟨hqueue _, hqueue _, hqueue _, hqueue _⟩

/-- The segments allocated are those of the four queues, each in one place. -/
def Accounted (b : Block) : Prop :=
  ∃ addrs : Queue → List ℕ, (∀ q, Ring b.heap.links (.head q) ((addrs q).map .node)) ∧
    (∀ q q', q ≠ q' → (addrs q).Disjoint (addrs q')) ∧
    ∀ a, b.heap.links.live (.node a) ↔ ∃ q, a ∈ addrs q

theorem Stands.accounted {k : IKCPCB} {b : Block} (h : Stands [] k b) : Accounted b := by
  obtain ⟨own, kcp, acks, hb, -⟩ := h
  refine ⟨fun q => (own q).map Prod.fst, ?_, ?_, ?_⟩
  · intro q
    rw [List.map_map]
    exact hb.rings.ring q
  · intro q q' hne a ha ha'
    obtain ⟨x, hx, rfl⟩ := List.mem_map.mp ha
    obtain ⟨y, hy, hxy⟩ := List.mem_map.mp ha'
    exact hne (hb.rings.apart q q' x hx y hy hxy.symm)
  · intro a
    constructor
    · intro ha
      rcases hb.rings.accounted a ha with ⟨q, x, hx, rfl⟩ | ⟨x, hx, -⟩
      · exact ⟨q, List.mem_map_of_mem hx⟩
      · cases hx
    · rintro ⟨q, ha⟩
      obtain ⟨x, hx, rfl⟩ := List.mem_map.mp ha
      exact hb.rings.live hx

theorem Stands.released {k : IKCPCB} {b : Block} (h : Stands [] k b) :
    ∃ b', release.run b = some ((), b') ∧ ∀ a, b'.heap.links.live (.node a) = false := by
  obtain ⟨own, kcp, acks, hb, -⟩ := h
  obtain ⟨_, b', hrelease, hb'⟩ := release_triple b hb
  refine ⟨b', hrelease, fun a => ?_⟩
  by_contra hlive
  rcases hb'.rings.accounted a (by simpa using hlive) with ⟨q, x, hx, -⟩ | ⟨x, hx, -⟩
    <;> cases hx

theorem Stands.acks {k : IKCPCB} {b : Block} (h : Stands [] k b) : b.acks.Holds k.acklist := by
  obtain ⟨own, kcp, acks, hb, rfl⟩ := h
  exact hb.acks

/-- Any calls of the plug in any order, in memory: no null or dangling pointer is
followed, nothing is freed twice or written outside its array, every walk ends, and
the answers, the queues and the acknowledgements are those of the list model. -/
theorem plug_refines (conv : UInt32) (ops : List Op) :
    ∃ b, (life ops).run (rawBlock conv) =
        some ((applyAll Op.apply (Plug.newKcpPlugControlBlock conv) ops).2, b) ∧
      Queued b .sndQueue (applyAll Op.apply (Plug.newKcpPlugControlBlock conv) ops).1.sndQueue ∧
      Queued b .rcvQueue (applyAll Op.apply (Plug.newKcpPlugControlBlock conv) ops).1.rcvQueue ∧
      Queued b .sndBuf (applyAll Op.apply (Plug.newKcpPlugControlBlock conv) ops).1.sndBuf ∧
      Queued b .rcvBuf (applyAll Op.apply (Plug.newKcpPlugControlBlock conv) ops).1.rcvBuf ∧
      b.acks.Holds (applyAll Op.apply (Plug.newKcpPlugControlBlock conv) ops).1.acklist := by
  obtain ⟨b, hrun, hb⟩ := life_stands conv ops
  obtain ⟨hsq, hrq, hsb, hrb⟩ := hb.queued
  exact ⟨b, hrun, hsq, hrq, hsb, hrb, hb.acks⟩

/-- The segments allocated after any calls are those of the four queues, each in one
place, and `ikcp_release` frees every one of them and none twice. -/
theorem plug_releases (conv : UInt32) (ops : List Op) :
    ∃ answers b, (life ops).run (rawBlock conv) = some (answers, b) ∧ Accounted b ∧
      ∃ b', release.run b = some ((), b') ∧ ∀ a, b'.heap.links.live (.node a) = false := by
  obtain ⟨b, hrun, hb⟩ := life_stands conv ops
  exact ⟨_, b, hrun, hb.accounted, hb.released⟩

end UdpKcp.Memory
