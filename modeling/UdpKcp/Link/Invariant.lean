import UdpKcp.Link.Model
import UdpKcp.Link.RecvMoves

/-! # The invariant of two plugs

Every step of the two plugs and their network is followed by the pair of
selective-repeat peers they stand for, so the invariant of the peers holds of
every reachable state. What the invariant says of a datagram in flight is a
parameter: it is honest, or the beginning of an honest one.
-/

namespace UdpKcp.Link

open ByteCodec (Bytes)
open Framing (Piece fragments)
open SelectiveRepeat (Fact Peer Move Moves Half Side)
open Ikcp Plug

/-! ## Settings and the count of sent segments -/

section OneSide

variable {conv : UInt32} {e : Endpoint} (h : Sound conv e.kcp)

include h

theorem Endpoint.send_cases (payload : Bytes) :
    (e.send payload = e ∨
      Framing.pieceCount plugMss payload.length < ikcpWndRcv.toNat ∧
        e.send payload =
          { kcp := queueMessage e.kcp payload
            accepted := e.accepted ++ [payload]
            returned := e.returned }) := by
  have hmss := h.mss_toNat
  have hsend := kcpSend_message h.stream_eq (by rw [hmss]; decide) payload
  rw [hmss] at hsend
  unfold Endpoint.send
  rw [hsend]
  by_cases hfew : Framing.pieceCount plugMss payload.length < ikcpWndRcv.toNat
  · rw [if_pos hfew]
    exact Or.inr ⟨hfew, rfl⟩
  · rw [if_neg hfew]
    exact Or.inl rfl

theorem Endpoint.sent_send (payload : Bytes) : e.sent ≤ (e.send payload).sent := by
  rcases Endpoint.send_cases h payload with heq | ⟨hfew, heq⟩
  · rw [heq]
  · have hlt : ikcpWndRcv.toNat ≤ 2 ^ 32 := by decide
    have hlen : (sendFragments e.kcp.mss.toNat 0
        (Framing.pieceCount e.kcp.mss.toNat payload.length) payload).length =
        Framing.pieceCount plugMss payload.length := by
      rw [← List.length_map (f := piece), h.mss_toNat, sendFragments_pieces (by omega),
        Framing.pieces_length]
    rw [heq]
    unfold Endpoint.sent queueMessage
    simp only [List.flatMap_append, List.flatMap_singleton, List.length_append, hlen,
      Framing.fragments, Framing.pieces_length]
    omega

omit h in
theorem Endpoint.sent_update (dlt : UInt32) : e.sent ≤ (e.update dlt).sent := by
  have hqueue : (e.update dlt).kcp.sndQueue.length ≤ e.kcp.sndQueue.length := by
    obtain ⟨opened, -, hdrop, -⟩ := kcpUpdate_moved e.kcp dlt
    show (kcpUpdate e.kcp dlt).1.sndQueue.length ≤ _
    rw [hdrop, List.length_drop]
    exact Nat.sub_le _ _
  unfold Endpoint.sent
  exact Nat.sub_le_sub_left hqueue _

end OneSide

theorem Endpoint.sent_recv (e : Endpoint) (input : Option Bytes) (pending : List Bytes)
    (maxlen : Int) : (e.recv input pending maxlen).sent = e.sent := by
  have hkept : SendKept e.kcp (e.recv input pending maxlen).kcp :=
    kcpRecv_sendKept e.kcp input (pending.map some) maxlen
  unfold Endpoint.sent
  rw [hkept.queue]
  rfl

/-- What holds of every side holds after one side is replaced. -/
theorem forall_update {Q : Side → Endpoint → Prop} {ep : Side → Endpoint} {side : Side}
    {e : Endpoint} (h : Q side e) (hall : ∀ other, Q other (ep other)) :
    ∀ other, Q other (Function.update ep side e other) :=
  (Function.forall_update_iff ep Q).mpr ⟨h, fun other _ => hall other⟩

theorem Step.sound {conv : UInt32} {s s' : State} (hs : Step s s')
    (h : ∀ side, Sound conv (s.ep side).kcp) : ∀ side, Sound conv (s'.ep side).kcp := by
  cases hs with
  | send side payload =>
      exact @forall_update (fun _ e => Sound conv e.kcp) _ _ _ ((h side).send payload) h
  | update side dlt =>
      exact @forall_update (fun _ e => Sound conv e.kcp) _ _ _ ((h side).update dlt) h
  | recv side input pending rest maxlen hnet =>
      exact @forall_update (fun _ e => Sound conv e.kcp) _ _ _
        ((h side).recv input (pending.map some) maxlen) h
  | drop | duplicate => exact h

theorem sound_of_reachable {conv : UInt32} {s : State} (h : Reachable conv s) :
    ∀ side, Sound conv (s.ep side).kcp := by
  induction h with
  | refl => exact fun _ => Sound.new conv
  | tail _ hs ih => exact hs.sound ih

theorem Step.sent_le {conv : UInt32} {s s' : State} (hs : Step s s')
    (h : ∀ side, Sound conv (s.ep side).kcp) :
    ∀ side, (s.ep side).sent ≤ (s'.ep side).sent := by
  have hrefl : ∀ side, (s.ep side).sent ≤ (s.ep side).sent := fun _ => Nat.le_refl _
  cases hs with
  | send side payload =>
      exact @forall_update (fun side e => (s.ep side).sent ≤ e.sent) _ _ _
        (Endpoint.sent_send (h side) payload) hrefl
  | update side dlt =>
      exact @forall_update (fun side e => (s.ep side).sent ≤ e.sent) _ _ _
        (Endpoint.sent_update dlt) hrefl
  | recv side input pending rest maxlen hnet =>
      exact @forall_update (fun side e => (s.ep side).sent ≤ e.sent) _ _ _
        (Endpoint.sent_recv _ input pending maxlen).ge hrefl
  | drop | duplicate => exact hrefl

/-! ## The invariant -/

def Endpoint.stream (e : Endpoint) : List (Piece UInt8) := framed e.accepted

def Endpoint.taken (e : Endpoint) : List (Piece UInt8) := framed e.returned

/-- The peer that an endpoint stands for. -/
def Endpoint.peer (e : Endpoint) (said : Set (Fact (Piece UInt8))) : Peer (Piece UInt8) :=
  view e.stream e.taken said e.kcp

structure Tracked (conv : UInt32) (e : Endpoint) : Prop where
  sound : Sound conv e.kcp
  send : SendShape e.stream e.kcp
  recv : RecvShape e.taken e.kcp
  small : ∀ m ∈ e.accepted, Framing.pieceCount plugMss m.length < ikcpWndRcv.toNat

/-- A datagram in flight: honest, and within the MTU. -/
def InFlight (conv : UInt32) (said : Set (Fact (Piece UInt8))) (d : Bytes) : Prop :=
  ∃ segs, d = segmentBytes segs ∧ d.length ≤ maxUdpMtu ∧ Honest conv said segs

/-- The beginning of a datagram that was in flight. -/
def Cut (conv : UInt32) (said : Set (Fact (Piece UInt8))) (d : Bytes) : Prop :=
  ∃ whole n, InFlight conv said whole ∧ d = whole.take n

/-- What the network may make of the datagrams it is given: at least it may leave them as
they are, and it lets nothing grow that a block would take for more than was said. -/
structure Carries (conv : UInt32) (carried : Set (Fact (Piece UInt8)) → Bytes → Prop) : Prop where
  whole : ∀ {said d}, InFlight conv said d → carried said d
  mono : ∀ {said said' d}, said ⊆ said' → carried said d → carried said' d
  take : ∀ {said d}, carried said d → d.take maxUdpMtu = d
  input : ∀ {heard said stream taken kcp d}, carried heard d →
    (∀ f ∈ heard, reach f < halfCircle) → Sound conv kcp → SendShape stream kcp →
    RecvShape taken kcp → Follows heard stream taken said kcp (ikcpInput kcp d).1

structure Inv (carried : Set (Fact (Piece UInt8)) → Bytes → Prop) (conv : UInt32) (s : State)
    (said : Side → Set (Fact (Piece UInt8))) : Prop where
  tracked : ∀ side, Tracked conv (s.ep side)
  peers : SelectiveRepeat.Inv fun side => (s.ep side).peer (said side)
  flight : ∀ side, ∀ d ∈ s.net side, carried (said side) d

theorem Tracked.start (conv : UInt32) : Tracked conv (Endpoint.start conv) where
  sound := Sound.new conv
  send := by
    have hpos : 0 < halfCircle := by decide
    refine ⟨rfl, Nat.zero_le _, hpos, List.Pairwise.nil, ?_, ?_, rfl, Nat.zero_le _⟩
    · exact List.forall_mem_nil _
    · exact List.forall_mem_nil _
  recv := by
    have hpos : 0 < halfCircle := by decide
    refine ⟨⟨rfl, rfl, hpos, rfl, Nat.zero_le _, List.Pairwise.nil, ?_, ?_⟩, ?_⟩
    · exact List.forall_mem_nil _
    · exact List.forall_mem_nil _
    · exact fun _ hs => by cases hs
  small := List.forall_mem_nil _

theorem Inv.start (carried : Set (Fact (Piece UInt8)) → Bytes → Prop) (conv : UInt32) :
    Inv carried conv (State.start conv) fun _ => ∅ where
  tracked := fun _ => Tracked.start conv
  peers := by
    have hpeer : (Endpoint.start conv).peer ∅ = Peer.start := by
      have hpending : {n | n ∈ sns (Endpoint.start conv).kcp.sndBuf} = ∅ :=
        Set.eq_empty_of_forall_notMem (List.forall_mem_nil _)
      have hearly : {e | e ∈ items (Endpoint.start conv).kcp.rcvBuf} = ∅ :=
        Set.eq_empty_of_forall_notMem (List.forall_mem_nil _)
      unfold Endpoint.peer view
      rw [hpending, hearly]
      rfl
    intro side
    show Half ((Endpoint.start conv).peer ∅) ((Endpoint.start conv).peer ∅)
    rw [hpeer]
    exact Half.start
  flight := fun _ _ hd => absurd hd List.not_mem_nil

theorem Tracked.sent_eq {conv : UInt32} {e : Endpoint} (h : Tracked conv e) :
    e.sent = e.kcp.sndNxt.toNat := by
  have hlen : e.kcp.sndQueue.length = e.stream.length - e.kcp.sndNxt.toNat := by
    rw [← List.length_drop, ← h.send.queue, List.length_map]
  have hle := h.send.nxt_le
  show e.stream.length - e.kcp.sndQueue.length = _
  omega

section Invariant

variable {carried : Set (Fact (Piece UInt8)) → Bytes → Prop} {conv : UInt32} {s s' : State}
  {said : Side → Set (Fact (Piece UInt8))}

/-- The receiving half of the invariant, seen from the receiver. -/
theorem Inv.half (h : Inv carried conv s said) (r : Side) :
    Half ((s.ep r.other).peer (said r.other)) ((s.ep r).peer (said r)) := by
  have hpeers := h.peers r.other
  rwa [Side.other_other] at hpeers

/-- Returned messages are accepted messages, in order and from the first on. -/
theorem Inv.delivered (h : Inv carried conv s said) (r : Side) :
    (s.ep r).returned <+: (s.ep r.other).accepted := by
  have hreceived := (h.half r).received_stream
  exact Framing.prefix_of_flatMap_prefix plugMss_pos ((List.prefix_append _ _).trans hreceived)

/-- Nothing that was said reaches beyond half the circle. -/
theorem Inv.bound (h : Inv carried conv s said) (side : Side) :
    ∀ f ∈ said side, reach f < halfCircle := by
  have hown := (h.tracked side).send.nxt_lt
  have hother := (h.tracked side.other).send.nxt_lt
  have hsend : Half ((s.ep side).peer (said side)) ((s.ep side.other).peer (said side.other)) :=
    h.peers side
  have hrecv := h.half side
  intro f hf
  cases f with
  | data n x =>
      have hlt : n < (s.ep side).kcp.sndNxt.toNat := (hsend.data_said n x hf).1
      show n + 1 < halfCircle
      omega
  | ack n =>
      have hlt : n < (s.ep side.other).kcp.sndNxt.toNat := hrecv.accepted_lt (hrecv.ack_said n hf)
      show n + 1 < halfCircle
      omega
  | cum n =>
      have hle := hrecv.cum_said n hf
      have hlen : _ ≤ (s.ep side.other).kcp.sndNxt.toNat := hrecv.received_length_le
      show n < halfCircle
      omega

/-! ## One step -/

/-- One endpoint moves as its peer does, and may have said more. -/
theorem Inv.moved (h : Inv carried conv s said) {side : Side} {e : Endpoint}
    {more : Set (Fact (Piece UInt8))}
    (hm : Moves (said side.other) ((s.ep side).peer (said side)) (e.peer more))
    (htracked : Tracked conv e) (net : Side → List Bytes)
    (hnet : ∀ other, ∀ d ∈ net other, carried (Function.update said side more other) d) :
    Inv carried conv { ep := Function.update s.ep side e, net := net }
      (Function.update said side more) where
  tracked := @forall_update (fun _ e => Tracked conv e) _ _ _ htracked h.tracked
  peers := by
    have hpeers := h.peers.moves hm
    have heq : (fun other => (Function.update s.ep side e other).peer
        (Function.update said side more other)) =
        Function.update (fun other => (s.ep other).peer (said other)) side (e.peer more) := by
      funext other
      by_cases hside : other = side
      · subst hside
        simp
      · simp [hside]
    rw [heq]
    exact hpeers
  flight := hnet

theorem mem_update {net : Side → List Bytes} {side other : Side} {ds : List Bytes} {d : Bytes}
    (h : d ∈ Function.update net side ds other) :
    (other = side ∧ d ∈ ds) ∨ d ∈ net other := by
  by_cases hside : other = side
  · subst hside
    rw [Function.update_self] at h
    exact Or.inl ⟨rfl, h⟩
  · rw [Function.update_of_ne hside] at h
    exact Or.inr h

/-- The network may be left with anything that it may carry. -/
theorem Inv.flown (h : Inv carried conv s said) {side : Side} {ds : List Bytes}
    (hds : ∀ d ∈ ds, carried (said side) d) :
    Inv carried conv { s with net := Function.update s.net side ds } said where
  tracked := h.tracked
  peers := h.peers
  flight := by
    intro other d hd
    rcases mem_update hd with ⟨rfl, hnew⟩ | hold
    · exact hds d hnew
    · exact h.flight other d hold

theorem Inv.send (h : Inv carried conv s said) (side : Side) (payload : Bytes) :
    Inv carried conv (s.send side payload) said := by
  have ht := h.tracked side
  have hself : Function.update said side (said side) = said := Function.update_eq_self side said
  show Inv carried conv
    { s with ep := Function.update s.ep side ((s.ep side).send payload) } said
  rcases Endpoint.send_cases ht.sound payload with heq | ⟨hfew, heq⟩
  · rw [heq, Function.update_eq_self]
    exact h
  · obtain ⟨hm, hs, hr⟩ := queueMessage_follows ht.sound.mss_toNat ht.send ht.recv hfew
      (said side.other) (said side)
    have hstream : framed ((s.ep side).accepted ++ [payload]) =
        (s.ep side).stream ++ fragments plugMss payload := by
      rw [framed_append, framed_singleton]
      rfl
    have hkcp : ((s.ep side).send payload).kcp = queueMessage (s.ep side).kcp payload :=
      congrArg Endpoint.kcp heq
    have hsound : Sound conv (queueMessage (s.ep side).kcp payload) := by
      rw [← hkcp]
      exact ht.sound.send payload
    rw [heq, ← hself]
    apply h.moved
    · show Moves _ _ (view (framed ((s.ep side).accepted ++ [payload])) _ _ _)
      rw [hstream]
      exact hm
    · refine ⟨hsound, ?_, hr, ?_⟩
      · show SendShape (framed ((s.ep side).accepted ++ [payload])) _
        rw [hstream]
        exact hs
      · intro m hmem
        rcases List.mem_append.mp hmem with hmem | hmem
        · exact ht.small m hmem
        · rw [List.mem_singleton.mp hmem]
          exact hfew
    · rw [hself]
      exact h.flight

section Carries

variable (hc : Carries conv carried)

include hc

/-- The datagrams of the other side stay what they were. -/
theorem Inv.flight_update (h : Inv carried conv s said) {side : Side}
    {more : Set (Fact (Piece UInt8))} (hsub : said side ⊆ more) (other : Side) :
    ∀ d ∈ s.net other, carried (Function.update said side more other) d := by
  intro d hd
  have hflight := h.flight other d hd
  by_cases hside : other = side
  · subst hside
    rw [Function.update_self]
    exact hc.mono hsub hflight
  · rw [Function.update_of_ne hside]
    exact hflight

theorem Inv.update (h : Inv carried conv s said) (side : Side) (dlt : UInt32)
    (hlt : ((s.ep side).update dlt).sent < halfCircle) :
    ∃ said', Inv carried conv (s.update side dlt) said' := by
  have ht := h.tracked side
  obtain ⟨more, hup⟩ := kcpUpdate_updates ht.sound ht.send ht.recv hlt (said side.other) (said side)
  obtain ⟨groups, hflat, hsent, hne, hfit⟩ := ht.sound.update_groups dlt
  have htracked : Tracked conv ((s.ep side).update dlt) :=
    ⟨ht.sound.update dlt, hup.send, hup.recv, ht.small⟩
  refine ⟨Function.update said side more, h.moved hup.moves htracked _ ?_⟩
  intro other d hd
  rcases mem_update hd with ⟨rfl, hnew⟩ | hold
  · have hemitted : d ∈ s.net other ++ (kcpUpdate (s.ep other).kcp dlt).2 := hnew
    rcases List.mem_append.mp hemitted with hold | hnew
    · exact h.flight_update hc hup.said_mono other d hold
    · rw [hsent] at hnew
      obtain ⟨g, hg, rfl⟩ := List.mem_map.mp hnew
      have hmem : ∀ seg ∈ g, seg ∈ updateSegments (s.ep other).kcp dlt := by
        intro seg hseg
        rw [← hflat]
        exact List.mem_flatten_of_mem hg hseg
      rw [Function.update_self]
      exact hc.whole ⟨g, rfl, hfit g hg, hne g hg,
        fun seg hseg => ht.sound.updateSegments (hmem seg hseg),
        fun seg hseg => hup.facts seg (hmem seg hseg)⟩
  · exact h.flight_update hc hup.said_mono other d hold

/-! ## Receiving -/

/-- The loop of `KcpRecv`. An empty datagram ends it. -/
theorem recvLoop_follows {heard said : Set (Fact (Piece UInt8))}
    {stream taken : List (Piece UInt8)} (hbound : ∀ f ∈ heard, reach f < halfCircle)
    {pending : List Bytes} (hflight : ∀ d ∈ pending, carried heard d) {kcp : IKCPCB}
    (hsound : Sound conv kcp) (hs : SendShape stream kcp) (hr : RecvShape taken kcp) :
    Follows heard stream taken said kcp (recvLoop kcp (pending.map some)).1 := by
  induction pending generalizing kcp with
  | nil => exact Follows.refl hs hr
  | cons d pending ih =>
      have hd := hflight d List.mem_cons_self
      have hrest := fun x hx => hflight x (List.mem_cons_of_mem _ hx)
      rw [List.map_cons, recvLoop, hc.take hd]
      split
      · have hinput : Follows heard stream taken said kcp (ikcpInput kcp d).1 :=
          hc.input hd hbound hsound hs hr
        have hsound' := hsound.kept (ikcpInput_config kcp d) (SendKept.input kcp d)
        exact hinput.trans (ih hrest hsound' hinput.send hinput.recv)
      · exact Follows.refl hs hr

/-- The input half of `KcpRecv`. -/
theorem kcpRecvInput_follows {heard said : Set (Fact (Piece UInt8))}
    {stream taken : List (Piece UInt8)} {kcp : IKCPCB}
    (hbound : ∀ f ∈ heard, reach f < halfCircle) (hsound : Sound conv kcp)
    (hs : SendShape stream kcp) (hr : RecvShape taken kcp) {input : Option Bytes}
    {pending : List Bytes} (hflight : ∀ d ∈ input.toList ++ pending, carried heard d) :
    Follows heard stream taken said kcp (kcpRecvInput kcp input (pending.map some)).1 := by
  have hrest : ∀ d ∈ pending, carried heard d := fun d hd =>
    hflight d (List.mem_append_right _ hd)
  unfold kcpRecvInput
  cases input with
  | none => exact recvLoop_follows hc hbound hrest hsound hs hr
  | some d =>
      have hd := hflight d (by simp)
      have hinput : Follows heard stream taken said kcp (ikcpInput kcp d).1 :=
        hc.input hd hbound hsound hs hr
      have hsound' := hsound.kept (ikcpInput_config kcp d) (SendKept.input kcp d)
      dsimp only
      split
      · exact hinput.trans
          (recvLoop_follows hc hbound hrest hsound' hinput.send hinput.recv)
      · exact recvLoop_follows hc hbound hrest hsound hs hr

theorem Inv.recv (h : Inv carried conv s said) (side : Side) {input : Option Bytes}
    {pending rest : List Bytes} (maxlen : Int)
    (hnet : (s.net side.other).Perm (input.toList ++ pending ++ rest)) :
    Inv carried conv (s.recv side input pending rest maxlen) said := by
  have ht := h.tracked side
  have hself : Function.update said side (said side) = said := Function.update_eq_self side said
  have hbound := h.bound side.other
  have hflight : ∀ d ∈ input.toList ++ pending, carried (said side.other) d := by
    intro d hd
    exact h.flight side.other d (hnet.mem_iff.mpr (List.mem_append_left _ hd))
  have hin : Follows (said side.other) (s.ep side).stream (s.ep side).taken (said side)
      (s.ep side).kcp (kcpRecvInput (s.ep side).kcp input (pending.map some)).1 :=
    kcpRecvInput_follows hc hbound ht.sound ht.send ht.recv hflight
  have hhalf := h.half side
  obtain ⟨hm, hs, hr⟩ := drainLoop_follows (h.tracked side.other).small rfl
    ((kcpRecvInput (s.ep side).kcp input (pending.map some)).1.rcvQueue.length +
      (kcpRecvInput (s.ep side).kcp input (pending.map some)).1.rcvBuf.length + 1)
    maxlen hin.send hin.recv (hhalf.receiver_moves hin.moves)
  have hreceived : Inv carried conv { s with
      ep := Function.update s.ep side ((s.ep side).recv input pending maxlen) } said := by
    rw [← hself]
    apply h.moved
    · exact hin.moves.trans hm
    · exact ⟨ht.sound.recv input (pending.map some) maxlen, hs, hr, ht.small⟩
    · rw [hself]
      exact h.flight
  apply hreceived.flown
  exact fun d hd => h.flight side.other d (hnet.mem_iff.mpr (List.mem_append_right _ hd))

theorem Inv.step (h : Inv carried conv s said) (hs : Step s s')
    (hlt : ∀ side, (s'.ep side).sent < halfCircle) : ∃ said', Inv carried conv s' said' := by
  cases hs with
  | send side payload => exact ⟨said, h.send side payload⟩
  | update side dlt =>
      have hside := hlt side
      simp only [Network.update, Function.update_self] at hside
      exact h.update hc side dlt hside
  | recv side input pending rest maxlen hnet => exact ⟨said, h.recv hc side maxlen hnet⟩
  | drop side d rest hnet =>
      refine ⟨said, h.flown fun x hx => ?_⟩
      exact h.flight side x (hnet.mem_iff.mpr (List.mem_cons_of_mem _ hx))
  | duplicate side d hmem =>
      exact ⟨said, h.flown (List.forall_mem_cons.mpr ⟨h.flight side d hmem, h.flight side⟩)⟩

end Carries

end Invariant

/-! ## Whole datagrams -/

theorem carries_inFlight (conv : UInt32) : Carries conv (InFlight conv) where
  whole := fun h => h
  mono := by
    rintro said said' d hsub ⟨segs, heq, hlen, hhonest⟩
    exact ⟨segs, heq, hlen, hhonest.ne_nil, hhonest.acceptable,
      fun seg hs => (hhonest.facts seg hs).mono hsub⟩
  take := fun ⟨_, _, hlen, _⟩ => List.take_of_length_le hlen
  input := by
    rintro heard said stream taken kcp d ⟨segs, rfl, -, hhonest⟩ hbound hsound hs hr
    refine ikcpInput_follows hbound hs hr ⟨hhonest.ne_nil, ?_, hhonest.facts⟩
    exact fun seg hseg => (hhonest.acceptable seg hseg).cast hsound.conv_eq

/-- The invariant holds of every state reached with fewer than `2 ^ 31` segments sent. -/
theorem inv_of_reachable {conv : UInt32} {s : State} (h : Reachable conv s)
    (hlt : ∀ side, (s.ep side).sent < halfCircle) : ∃ said, Inv (InFlight conv) conv s said := by
  induction h with
  | refl => exact ⟨_, Inv.start _ conv⟩
  | tail hrun hs ih =>
      have hsound := sound_of_reachable hrun
      obtain ⟨said, hinv⟩ := ih fun side => Nat.lt_of_le_of_lt (hs.sent_le hsound side) (hlt side)
      exact hinv.step (carries_inFlight conv) hs hlt

/-! ## Datagrams cut short -/

theorem carries_cut (conv : UInt32) : Carries conv (Cut conv) where
  whole := by
    intro said d h
    obtain ⟨segs, heq, hlen, hhonest⟩ := h
    exact ⟨d, d.length, ⟨segs, heq, hlen, hhonest⟩, List.take_length.symm⟩
  mono := by
    rintro said said' d hsub ⟨whole, n, hwhole, heq⟩
    exact ⟨whole, n, (carries_inFlight conv).mono hsub hwhole, heq⟩
  take := by
    rintro said d ⟨whole, n, ⟨_, _, hlen, _⟩, rfl⟩
    apply List.take_of_length_le
    rw [List.length_take]
    omega
  input := by
    rintro heard said stream taken kcp d ⟨_, n, ⟨segs, rfl, -, hhonest⟩, rfl⟩ hbound hsound hs hr
    refine ikcpInput_cut_follows hbound hs hr ⟨hhonest.ne_nil, ?_, hhonest.facts⟩ n
    exact fun seg hseg => (hhonest.acceptable seg hseg).cast hsound.conv_eq

/-- A datagram that is cut once more is still the beginning of the same one. -/
theorem Cut.take {conv : UInt32} {said : Set (Fact (Piece UInt8))} {d : Bytes}
    (h : Cut conv said d) (n : ℕ) : Cut conv said (d.take n) := by
  obtain ⟨whole, m, hwhole, rfl⟩ := h
  exact ⟨whole, min n m, hwhole, List.take_take⟩

theorem CutStep.sound {conv : UInt32} {s s' : State} (hs : CutStep s s')
    (h : ∀ side, Sound conv (s.ep side).kcp) : ∀ side, Sound conv (s'.ep side).kcp := by
  cases hs with
  | step hstep => exact hstep.sound h
  | cut => exact h

theorem sound_of_cutReachable {conv : UInt32} {s : State} (h : CutReachable conv s) :
    ∀ side, Sound conv (s.ep side).kcp := by
  induction h with
  | refl => exact fun _ => Sound.new conv
  | tail _ hs ih => exact hs.sound ih

theorem CutStep.sent_le {conv : UInt32} {s s' : State} (hs : CutStep s s')
    (h : ∀ side, Sound conv (s.ep side).kcp) :
    ∀ side, (s.ep side).sent ≤ (s'.ep side).sent := by
  cases hs with
  | step hstep => exact hstep.sent_le h
  | cut => exact fun _ => Nat.le_refl _

theorem Inv.cutStep {conv : UInt32} {s s' : State} {said : Side → Set (Fact (Piece UInt8))}
    (h : Inv (Cut conv) conv s said) (hs : CutStep s s')
    (hlt : ∀ side, (s'.ep side).sent < halfCircle) : ∃ said', Inv (Cut conv) conv s' said' := by
  cases hs with
  | step hstep => exact h.step (carries_cut conv) hstep hlt
  | cut side d n hmem =>
      have hcut := (h.flight side d hmem).take n
      exact ⟨said, h.flown (List.forall_mem_cons.mpr ⟨hcut, h.flight side⟩)⟩

/-- Cutting datagrams short gives neither end more than it would have had. -/
theorem inv_of_cutReachable {conv : UInt32} {s : State} (h : CutReachable conv s)
    (hlt : ∀ side, (s.ep side).sent < halfCircle) : ∃ said, Inv (Cut conv) conv s said := by
  induction h with
  | refl => exact ⟨_, Inv.start _ conv⟩
  | tail hrun hs ih =>
      have hsound := sound_of_cutReachable hrun
      obtain ⟨said, hinv⟩ := ih fun side => Nat.lt_of_le_of_lt (hs.sent_le hsound side) (hlt side)
      exact hinv.cutStep hs hlt

end UdpKcp.Link
