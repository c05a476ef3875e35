import UdpKcp.Link.Delivery
import UdpKcp.Wheel.RawPayload

/-! # Sessions

The joint system with what each side has given to `OnRecvData`. While no raw
payload is taken for a segment, the two clients are the two ends of a link whose
network may cut a datagram short, as the listening socket does: whatever holds of
its reachable states holds of them.
-/

namespace UdpKcp.Wheel

open ByteCodec (Bytes encodeLE)
open SelectiveRepeat (Side)
open Ikcp Plug
open Link (Endpoint)

/-! ## Sessions and their steps -/

/-- The end of the link that a client stands for. -/
def UDPClientType.side : UDPClientType → Side
  | .connect => .left
  | .accept => .right

def UDPClientType.peer : UDPClientType → UDPClientType
  | .connect => .accept
  | .accept => .connect

/-- The side whose client an action calls. -/
def Action.side : Action → UDPClientType
  | .connectSend _ => .connect
  | .connectUpdate _ => .connect
  | .connectRecv _ => .connect
  | .datagram _ _ _ => .accept
  | .acceptSend _ => .accept
  | .acceptUpdate _ => .accept
  | .acceptRecv _ => .accept

/-- The bytes that an action gives to `OnRecvData`, if it calls it. -/
def Joint.handed (addr : SockaddrIn) (s : Joint) : Action → Option Bytes
  | .connectRecv reads => do
      let r ← s.connect.recv .linux none (bytesOf reads)
      r.handed
  | .datagram fd d reads => do
      let r ← s.server.recv (.succeed fd) (some (d.bytes, addr)) (bytesOf reads)
      r.handed
  | .acceptRecv reads => do
      let c ← s.accepting addr
      let r ← s.server.recvClient .linux (makeUniqueID addr) c none (bytesOf reads)
      r.handed
  | _ => none

/-- Read into `len` bytes, the datagram is no raw payload that begins with a segment. -/
def Datagram.Inert (conv : UInt32) (len : Nat) (d : Datagram) : Prop :=
  d.origin = .raw → ¬ BeginsSegment conv (d.bytes.take len)

/-- The server reads no raw payload that it would take for a segment. -/
def Action.Clean (conv : UInt32) : Action → Prop
  | .datagram _ d reads =>
      d.Inert conv maxClientBuffLen ∧ ∀ d', some d' ∈ reads → d'.Inert conv maxUdpMtu
  | .acceptRecv reads => ∀ d, some d ∈ reads → d.Inert conv maxUdpMtu
  | _ => True

/-- The joint system, and per side the arguments of `OnRecvData` so far. -/
structure Session where
  joint : Joint
  handed : UDPClientType → List Bytes

namespace Session

def start (info : SockaddrIn) (soc : Handle) : Session where
  joint := .start info soc
  handed := fun _ => []

/-- The call of a side has left the system in `joint` and handed over `bytes`, if any. -/
def after (s : Session) (joint : Joint) (side : UDPClientType) (bytes : Option Bytes) :
    Session where
  joint := joint
  handed := Function.update s.handed side (s.handed side ++ bytes.toList)

def act (addr : SockaddrIn) (s : Session) (a : Action) : Session :=
  s.after (s.joint.act addr a) a.side (s.joint.handed addr a)

inductive Step (addr : SockaddrIn) : Session → Session → Prop where
  | act (s : Session) (a : Action) (hsane : s.joint.sane = true) (ha : s.joint.Allowed a)
      (hclean : a.Clean (makeUniqueID addr)) : Step addr s (s.act addr a)

/-- States reached from a client at `info` whose datagrams come from `addr`. -/
def Reachable (info addr : SockaddrIn) (soc : Handle) : Session → Prop :=
  Relation.ReflTransGen (Step addr) (start info soc)

theorem Reachable.joint {info addr : SockaddrIn} {soc : Handle} {s : Session}
    (h : Reachable info addr soc s) : Joint.Reachable info addr soc s.joint := by
  induction h with
  | refl => exact Relation.ReflTransGen.refl
  | tail _ hs ih =>
      cases hs with
      | act a hsane ha hclean => exact ih.tail (Joint.Step.act _ a hsane ha)

end Session

/-! ## Turns of one end of a link -/

/-- `l'` is `l` after calls at one end, which had `accepted` accepted and `messages`
returned meanwhile; what was in flight still is. -/
structure Turn (l : Link.State) (side : Side) (accepted messages : List Bytes)
    (l' : Link.State) : Prop where
  run : Relation.ReflTransGen Link.CutStep l l'
  accepted : (l'.ep side).accepted = (l.ep side).accepted ++ accepted
  returned : (l'.ep side).returned = (l.ep side).returned ++ messages
  other : l'.ep side.other = l.ep side.other
  flight : ∀ side', l.net side' ⊆ l'.net side'

section Ends

variable (l : Link.State) (side : Side)

theorem send_ep (payload : Bytes) : (l.send side payload).ep side = (l.ep side).send payload :=
  Function.update_self _ _ _

theorem update_ep (dlt : UInt32) : (l.update side dlt).ep side = (l.ep side).update dlt :=
  Function.update_self _ _ _

theorem recv_ep (input : Option Bytes) (pending rest : List Bytes) (maxlen : Int) :
    (l.recv side input pending rest maxlen).ep side = (l.ep side).recv input pending maxlen :=
  Function.update_self _ _ _

end Ends

theorem Turn.refl (l : Link.State) (side : Side) : Turn l side [] [] l where
  run := Relation.ReflTransGen.refl
  accepted := (List.append_nil _).symm
  returned := (List.append_nil _).symm
  other := rfl
  flight := fun _ => List.Subset.refl _

theorem Turn.trans {l l' l'' : Link.State} {side : Side} {accepted accepted' : List Bytes}
    {messages messages' : List Bytes} (h : Turn l side accepted messages l')
    (h' : Turn l' side accepted' messages' l'') :
    Turn l side (accepted ++ accepted') (messages ++ messages') l'' where
  run := h.run.trans h'.run
  accepted := by rw [h'.accepted, h.accepted, List.append_assoc]
  returned := by rw [h'.returned, h.returned, List.append_assoc]
  other := h'.other.trans h.other
  flight := fun side' => List.Subset.trans (h.flight side') (h'.flight side')

theorem Turn.send (l : Link.State) (side : Side) (payload : Bytes) :
    Turn l side
      (if (kcpSend (l.ep side).kcp payload payload.length).2 = 0 then [payload] else []) []
      (l.send side payload) where
  run := Relation.ReflTransGen.single (.step (Link.Step.send l side payload))
  accepted := by
    rw [send_ep]
    unfold Endpoint.send
    split
    · rfl
    · exact (List.append_nil _).symm
  returned := by
    rw [send_ep]
    exact (List.append_nil _).symm
  other := Function.update_of_ne (Side.other_ne side) _ _
  flight := fun _ => List.Subset.refl _

theorem Turn.update (l : Link.State) (side : Side) (dlt : UInt32) :
    Turn l side [] [] (l.update side dlt) where
  run := Relation.ReflTransGen.single (.step (Link.Step.update l side dlt))
  accepted := by
    rw [update_ep]
    exact (List.append_nil _).symm
  returned := by
    rw [update_ep]
    exact (List.append_nil _).symm
  other := Function.update_of_ne (Side.other_ne side) _ _
  flight := by
    intro side'
    unfold Link.Network.update
    dsimp only
    by_cases hside : side' = side
    · subst hside
      rw [Function.update_self]
      exact List.subset_append_left _ _
    · rw [Function.update_of_ne hside]
      exact List.Subset.refl _

/-- The network holds these datagrams besides. -/
def duplicated (l : Link.State) (side : Side) (ds : List Bytes) : Link.State :=
  { l with net := Function.update l.net side (ds ++ l.net side) }

theorem duplicated_net (l : Link.State) (side : Side) (ds : List Bytes) :
    (duplicated l side ds).net side = ds ++ l.net side := Function.update_self _ _ _

theorem duplicated_cons (l : Link.State) (side : Side) (d : Bytes) (ds : List Bytes) :
    duplicated (duplicated l side ds) side [d] = duplicated l side (d :: ds) := by
  unfold duplicated
  simp only [Function.update_self, Function.update_idem, List.cons_append, List.nil_append]

/-- Copies of what is in flight, whole or cut short. -/
theorem run_duplicated {l : Link.State} {side : Side} {ds : List Bytes}
    (hds : ∀ d ∈ ds, ∃ whole ∈ l.net side, d <+: whole) :
    Relation.ReflTransGen Link.CutStep l (duplicated l side ds) := by
  induction ds with
  | nil =>
      unfold duplicated
      rw [List.nil_append, Function.update_eq_self]
  | cons d ds ih =>
      have hrun := ih fun x hx => hds x (List.mem_cons_of_mem d hx)
      obtain ⟨whole, hwhole, hbegins⟩ := hds d List.mem_cons_self
      have hmem : whole ∈ (duplicated l side ds).net side := by
        rw [duplicated_net]
        exact List.mem_append_right _ hwhole
      have hcut := Link.CutStep.cut (duplicated l side ds) side whole d.length hmem
      rw [← List.prefix_iff_eq_take.mp hbegins] at hcut
      rw [← duplicated_cons]
      exact hrun.tail hcut

theorem Turn.recv (l : Link.State) (side : Side) {input : Option Bytes} {pending : List Bytes}
    (hin : ∀ d ∈ input.toList ++ pending, ∃ whole ∈ l.net side.other, d <+: whole)
    (maxlen : Int) :
    Turn l side [] (kcpRecv (l.ep side).kcp input (pending.map some) maxlen).messages
      (l.recv side input pending (l.net side.other) maxlen) where
  run := by
    have hstep := Link.Step.recv (duplicated l side.other (input.toList ++ pending)) side input
      pending (l.net side.other) maxlen (by rw [duplicated_net])
    have hrecv : (duplicated l side.other (input.toList ++ pending)).recv side input pending
        (l.net side.other) maxlen = l.recv side input pending (l.net side.other) maxlen := by
      unfold Link.Network.recv duplicated
      simp only [Function.update_idem]
    rw [hrecv] at hstep
    exact (run_duplicated hin).tail (.step hstep)
  accepted := by
    rw [recv_ep]
    exact (List.append_nil _).symm
  returned := by
    rw [recv_ep]
    rfl
  other := Function.update_of_ne (Side.other_ne side) _ _
  flight := by
    intro side'
    unfold Link.Network.recv
    dsimp only
    rw [Function.update_eq_self]
    exact List.Subset.refl _

/-! ## Reads as a block hears them -/

/-- The datagrams of a socket that say something to a block of the conversation: the rest
is dropped, and the loop of `KcpRecv` ends at an error or at an empty datagram. -/
def heard (conv : UInt32) : List (Option Datagram) → List Bytes
  | [] => []
  | none :: _ => []
  | some d :: reads =>
      if BeginsSegment conv (d.bytes.take maxUdpMtu) then d.bytes :: heard conv reads
      else if d.bytes = [] then [] else heard conv reads

theorem mem_heard {conv : UInt32} {reads : List (Option Datagram)} {b : Bytes}
    (hb : b ∈ heard conv reads) :
    ∃ d, some d ∈ reads ∧ d.bytes = b ∧ BeginsSegment conv (d.bytes.take maxUdpMtu) := by
  induction reads with
  | nil => cases hb
  | cons read reads ih =>
      cases read with
      | none => cases hb
      | some d =>
          unfold heard at hb
          by_cases hd : BeginsSegment conv (d.bytes.take maxUdpMtu)
          · rw [if_pos hd] at hb
            rcases List.mem_cons.mp hb with rfl | hb
            · exact ⟨d, List.mem_cons_self, rfl, hd⟩
            · obtain ⟨d', hd', heq⟩ := ih hb
              exact ⟨d', List.mem_cons_of_mem _ hd', heq⟩
          · rw [if_neg hd] at hb
            by_cases hempty : d.bytes = []
            · rw [if_pos hempty] at hb
              cases hb
            · rw [if_neg hempty] at hb
              obtain ⟨d', hd', heq⟩ := ih hb
              exact ⟨d', List.mem_cons_of_mem _ hd', heq⟩

theorem recvLoop_heard {conv : UInt32} (reads : List (Option Datagram)) {pcb : IKCPCB}
    (hconv : pcb.conv = conv) :
    (recvLoop pcb (bytesOf reads)).1 = (recvLoop pcb ((heard conv reads).map some)).1 := by
  induction reads generalizing pcb with
  | nil => rfl
  | cons read reads ih =>
      cases read with
      | none => rfl
      | some d =>
          unfold heard
          by_cases hd : BeginsSegment conv (d.bytes.take maxUdpMtu)
          · rw [if_pos hd]
            have hinput : (ikcpInput pcb (d.bytes.take maxUdpMtu)).1.conv = conv :=
              (congrArg Config.conv (ikcpInput_config pcb (d.bytes.take maxUdpMtu))).trans hconv
            have hrest := ih hinput
            simp only [bytesOf, List.map_cons, Option.map_some, recvLoop]
            split
            · exact hrest
            · rfl
          · rw [if_neg hd]
            have hdropped := recvLoop_ignored hd [] (bytesOf reads) hconv
            rw [List.nil_append, List.nil_append] at hdropped
            refine hdropped.trans ?_
            by_cases hempty : d.bytes = []
            · rw [if_pos hempty, if_pos hempty]
              rfl
            · rw [if_neg hempty, if_neg hempty]
              exact ih hconv

/-- An input that says nothing to the block is as none. -/
def heardInput (conv : UInt32) (input : Option Bytes) : Option Bytes :=
  input.filter fun b => BeginsSegment conv b

theorem kcpRecvInput_heard {conv : UInt32} {block : IKCPCB} (hconv : block.conv = conv)
    (input : Option Bytes) (reads : List (Option Datagram)) :
    (kcpRecvInput block input (bytesOf reads)).1 =
      (kcpRecvInput block (heardInput conv input) ((heard conv reads).map some)).1 := by
  cases input with
  | none => exact recvLoop_heard reads hconv
  | some b =>
      unfold heardInput
      rw [Option.filter_some]
      by_cases hb : BeginsSegment conv b
      · rw [if_pos (by simpa using hb)]
        unfold kcpRecvInput
        dsimp only
        apply recvLoop_heard reads
        split
        · exact (congrArg Config.conv (ikcpInput_config block b)).trans hconv
        · exact hconv
      · rw [if_neg (by simpa using hb), kcpRecvInput_ignored (by rwa [hconv])]
        exact recvLoop_heard reads hconv

/-- What a call of `KcpRecv` leaves and returns, in terms of what the block hears. -/
theorem kcpRecv_heard {conv : UInt32} {block : IKCPCB} (hconv : block.conv = conv)
    (input : Option Bytes) (reads : List (Option Datagram)) (maxlen : Int) :
    (kcpRecv block input (bytesOf reads) maxlen).block =
        (kcpRecv block (heardInput conv input) ((heard conv reads).map some) maxlen).block ∧
      (kcpRecv block input (bytesOf reads) maxlen).messages =
        (kcpRecv block (heardInput conv input) ((heard conv reads).map some) maxlen).messages := by
  simp only [kcpRecv, kcpRecvInput_heard hconv, and_self]

/-! ## Clients as ends of a link -/

/-- The client, if it is there, stands for the end `e`: as long as it has no id it has no
block, and the end is new. -/
inductive Plays (conv : UInt32) : Option UDPClient → Endpoint → Prop where
  | absent : Plays conv none (Endpoint.start conv)
  | fresh {c : UDPClient} (hid : c.convID = 0) (hblock : c.plugUserData = none) :
      Plays conv (some c) (Endpoint.start conv)
  | plugged {c : UDPClient} {e : Endpoint} (hid : c.convID = conv)
      (hblock : c.plugUserData = some e.kcp) (hconv : e.kcp.conv = conv) : Plays conv (some c) e

/-- The argument of `OnRecvData` after a drain that returned these messages. -/
def handedOf (messages : List Bytes) : Option Bytes :=
  if messages.flatten.length > 0 then some messages.flatten else none

/-- A call on a client at one end of a link: the client still plays it, and its flush
outputs are in flight. Replies are made by accept sides only, and raw payloads by
clients without an id. -/
structure Played (conv : UInt32) (l : Link.State) (side : Side) (c c' : UDPClient)
    (sent : List Datagram) (accepted messages : List Bytes) (l' : Link.State) : Prop extends
    Turn l side accepted messages l' where
  plays : Plays conv (some c') (l'.ep side)
  output : ∀ d ∈ sent, d.origin = .output → d.bytes ∈ l'.net side
  idReply : ∀ d ∈ sent, d.origin = .idReply →
    c.clientType = some .accept ∧ d.bytes = encodeLE 4 conv.toNat
  raw : ∀ d ∈ sent, d.origin = .raw → c'.convID = 0

section Calls

variable {conv : UInt32} {l : Link.State} {side : Side} {c : UDPClient}

theorem Played.nothing {accepted messages : List Bytes} {c' : UDPClient} {l' : Link.State}
    (hturn : Turn l side accepted messages l') (hplays : Plays conv (some c') (l'.ep side)) :
    Played conv l side c c' [] accepted messages l' :=
  ⟨hturn, hplays, List.forall_mem_nil _, List.forall_mem_nil _, List.forall_mem_nil _⟩

theorem Plays.send (hnonzero : conv ≠ 0) (h : Plays conv (some c) (l.ep side)) (data : Bytes) :
    ∃ l', Played conv l side c (c.send data).client (c.send data).sent (c.send data).accepted []
      l' := by
  unfold UDPClient.send UDPClient.getKcpConvID
  generalize he : l.ep side = e at h
  cases h with
  | fresh hid hblock =>
      rw [if_pos hid]
      refine ⟨l, Turn.refl l side, he ▸ .fresh hid hblock, ?_, ?_, ?_⟩
      all_goals
        intro d hd horigin
        rw [List.mem_singleton.mp hd] at horigin
        cases horigin
      exact hid
  | plugged hid hblock hconv =>
      rw [if_neg (by rwa [hid])]
      simp only [hblock]
      refine ⟨l.send side data, ?_⟩
      have hturn := Turn.send l side data
      rw [he] at hturn
      apply Played.nothing hturn
      rw [send_ep, he]
      refine .plugged hid rfl ?_
      exact (congrArg Config.conv (kcpSend_config e.kcp data data.length)).trans hconv

theorem Plays.update (h : Plays conv (some c) (l.ep side)) (dlt : UInt32) :
    ∃ l', Played conv l side c (c.update dlt).1 (c.update dlt).2 [] [] l' := by
  unfold UDPClient.update
  generalize he : l.ep side = e at h
  cases h with
  | fresh hid hblock =>
      simp only [hblock]
      exact ⟨l, Played.nothing (Turn.refl l side) (he ▸ .fresh hid hblock)⟩
  | plugged hid hblock hconv =>
      simp only [hblock]
      refine ⟨l.update side dlt, Turn.update l side dlt, ?_, ?_, ?_, ?_⟩
      · rw [update_ep, he]
        exact .plugged hid rfl
          ((congrArg Config.conv (kcpUpdate_config e.kcp dlt)).trans hconv)
      · intro d hd _
        obtain ⟨bytes, hbytes, rfl⟩ := List.mem_map.mp hd
        have hnet : (l.update side dlt).net side =
            l.net side ++ (kcpUpdate (l.ep side).kcp dlt).2 :=
          Function.update_self _ _ _
        rw [hnet, he]
        exact List.mem_append_right _ hbytes
      all_goals
        intro d hd horigin
        obtain ⟨bytes, -, rfl⟩ := List.mem_map.mp hd
        cases horigin

/-- What the block of the client hears is in flight on the other side. Its argument may
have been cut short. -/
structure Hears (conv : UInt32) (flight : List Bytes) (data : Option Bytes)
    (reads : List (Option Datagram)) : Prop where
  data : ∀ b ∈ data, BeginsSegment conv b → ∃ whole ∈ flight, b <+: whole
  reads : ∀ d, some d ∈ reads → BeginsSegment conv (d.bytes.take maxUdpMtu) → d.bytes ∈ flight

theorem Hears.mem {flight : List Bytes} {data : Option Bytes} {reads : List (Option Datagram)}
    (h : Hears conv flight data reads) {b : Bytes}
    (hb : b ∈ (heardInput conv data).toList ++ heard conv reads) :
    ∃ whole ∈ flight, b <+: whole := by
  rcases List.mem_append.mp hb with hb | hb
  · obtain ⟨hdata, hbegins⟩ := Option.filter_eq_some_iff.mp (Option.mem_toList.mp hb)
    exact h.data b hdata (of_decide_eq_true hbegins)
  · obtain ⟨d, hd, rfl, hbegins⟩ := mem_heard hb
    exact ⟨d.bytes, h.reads d hd hbegins, List.prefix_refl _⟩

/-- The KCP receive path is a `recv` of the link, then a `send` if bytes were handed over. -/
theorem Plays.recvKcp (hnonzero : conv ≠ 0) (h : Plays conv (some c) (l.ep side))
    {data : Option Bytes} {reads : List (Option Datagram)}
    (hears : Hears conv (l.net side.other) data reads) :
    (∃ l', Played conv l side c (c.recvKcp data (bytesOf reads)).client
        (c.recvKcp data (bytesOf reads)).sent (c.recvKcp data (bytesOf reads)).accepted
        (c.recvKcp data (bytesOf reads)).messages l') ∧
      (c.recvKcp data (bytesOf reads)).handed =
        handedOf (c.recvKcp data (bytesOf reads)).messages := by
  unfold UDPClient.recvKcp
  generalize he : l.ep side = e at h
  cases h with
  | fresh hid hblock =>
      simp only [hblock]
      exact ⟨⟨l, Played.nothing (Turn.refl l side) (he ▸ .fresh hid hblock)⟩, rfl⟩
  | plugged hid hblock hconv =>
      simp only [hblock]
      obtain ⟨hleft, hmessages⟩ := kcpRecv_heard hconv data reads c.getBuffLeftLen
      have hturn := Turn.recv l side (fun b hb => hears.mem hb) c.getBuffLeftLen
      rw [he, ← hmessages] at hturn
      generalize hl : l.recv side (heardInput conv data) (heard conv reads) (l.net side.other)
        c.getBuffLeftLen = l' at hturn
      have hep : (l'.ep side).kcp =
          (kcpRecv e.kcp data (bytesOf reads) c.getBuffLeftLen).block := by
        rw [← hl, recv_ep, he]
        exact hleft.symm
      have hkept : (l'.ep side).kcp.conv = conv := by
        rw [hep]
        exact (congrArg Config.conv
          (kcpRecv_config e.kcp data (bytesOf reads) c.getBuffLeftLen)).trans hconv
      generalize kcpRecv e.kcp data (bytesOf reads) c.getBuffLeftLen = r at hturn hep
      have hplays : Plays conv (some { c with plugUserData := some r.block }) (l'.ep side) :=
        .plugged hid (congrArg some hep.symm) hkept
      by_cases hout : r.out.length > 0
      · simp only [if_pos hout]
        obtain ⟨l'', hsent⟩ := hplays.send hnonzero (decimal c.getUniqueID)
        have hboth := hturn.trans hsent.toTurn
        rw [List.nil_append, List.append_nil] at hboth
        exact ⟨⟨l'', hboth, hsent.plays, hsent.output, hsent.idReply, hsent.raw⟩,
          (if_pos hout).symm⟩
      · simp only [if_neg hout]
        exact ⟨⟨l', Played.nothing hturn hplays⟩, (if_neg hout).symm⟩

/-- The first `Recv` gives a client its id, and the block that its end begins with. -/
theorem Plays.setKcpConvID (hnonzero : conv ≠ 0) (h : Plays conv (some c) (l.ep side))
    (hid : c.convID = 0) : Plays conv (some (c.setKcpConvID conv)) (l.ep side) := by
  generalize l.ep side = e at h
  cases h with
  | fresh _ hblock =>
      unfold UDPClient.setKcpConvID
      rw [if_pos hid]
      simp only [hblock]
      exact .plugged rfl rfl rfl
  | plugged hid' _ _ => exact absurd (hid'.symm.trans hid) hnonzero

/-- `Recv`: an accept side has the id of the conversation for its own, a connect side
reads it. -/
theorem Plays.recv (hnonzero : conv ≠ 0) (h : Plays conv (some c) (l.ep side))
    {data : Option Bytes} {reads : List (Option Datagram)}
    (hears : Hears conv (l.net side.other) data reads)
    (hown : c.clientType = some .accept → c.bigID = conv)
    (hread : c.clientType = some .connect → c.convID = 0 → ∀ id,
      Plug.getKcpConvID (c.handshakeData .linux data (bytesOf reads)).1.1
        (c.handshakeData .linux data (bytesOf reads)).1.2 = some id → id = conv)
    {r : Received} (hr : c.recv .linux data (bytesOf reads) = some r) :
    (∃ l', Played conv l side c r.client r.sent r.accepted r.messages l') ∧
      r.handed = handedOf r.messages := by
  cases UDPClient.recv_outcome hr with
  | own htype hid =>
      rw [hown htype]
      refine ⟨⟨l, Turn.refl l side, h.setKcpConvID hnonzero hid, ?_, ?_, ?_⟩, rfl⟩
      · intro d hd horigin
        rw [List.mem_singleton.mp hd] at horigin
        cases horigin
      · intro d hd _
        rw [List.mem_singleton.mp hd]
        exact ⟨htype, rfl⟩
      · intro d hd horigin
        rw [List.mem_singleton.mp hd] at horigin
        cases horigin
  | read htype hid id hread' =>
      rw [hread htype hid id hread']
      exact ⟨⟨l, Played.nothing (Turn.refl l side) (h.setKcpConvID hnonzero hid)⟩, rfl⟩
  | kcp hpast => exact h.recvKcp hnonzero hears

end Calls

/-! ## The simulation -/

/-- The session as a link: each client is an end, the calls of `OnRecvData` are what the
end has returned call by call, and flush outputs are in flight. -/
structure Simulates (addr : SockaddrIn) (s : Session) (l : Link.State) : Prop where
  plays : ∀ side, Plays (makeUniqueID addr) (s.joint.client addr side) (l.ep side.side)
  accepted : ∀ side, (l.ep side.side).accepted = s.joint.accepted side
  handed : ∀ side, ∃ calls : List (List Bytes),
    calls.flatten = (l.ep side.side).returned ∧ calls.filterMap handedOf = s.handed side
  toServer : ∀ d ∈ s.joint.toServer,
    (d.origin = .output → d.bytes ∈ l.net .left) ∧ d.origin ≠ .idReply
  toClient : ∀ d ∈ s.joint.toClient,
    (d.origin = .output → d.bytes ∈ l.net .right) ∧ d.origin ≠ .raw ∧
      (d.origin = .idReply → d.bytes = encodeLE 4 (makeUniqueID addr).toNat)

theorem Simulates.start (info addr : SockaddrIn) (soc : Handle) :
    Simulates addr (.start info soc) (.start (makeUniqueID addr)) where
  plays := by
    intro side
    cases side with
    | connect => exact .fresh rfl rfl
    | accept => exact .absent
  accepted := fun _ => rfl
  handed := fun _ => ⟨[], rfl, rfl⟩
  toServer := List.forall_mem_nil _
  toClient := List.forall_mem_nil _

theorem UDPClientType.side_ne {a b : UDPClientType} (h : a ≠ b) : b.side = a.side.other := by
  cases a <;> cases b <;> first | rfl | exact absurd rfl h

section Simulation

variable {addr : SockaddrIn} {s : Session} {l l' : Link.State}

/-- What a turn of `side` leaves of the parts that both sides have. -/
theorem Simulates.turn (h : Simulates addr s l) (side : UDPClientType)
    {accepted messages : List Bytes} (hturn : Turn l side.side accepted messages l') :
    (∀ x, (l'.ep x.side).accepted =
        Function.update s.joint.accepted side (s.joint.accepted side ++ accepted) x) ∧
      ∀ x, ∃ calls : List (List Bytes), calls.flatten = (l'.ep x.side).returned ∧
        calls.filterMap handedOf =
          Function.update s.handed side (s.handed side ++ (handedOf messages).toList) x := by
  constructor
  · intro x
    by_cases hx : x = side
    · subst hx
      rw [hturn.accepted, Function.update_self, h.accepted]
    · rw [UDPClientType.side_ne (Ne.symm hx), hturn.other, Function.update_of_ne hx,
        ← UDPClientType.side_ne (Ne.symm hx), h.accepted]
  · intro x
    obtain ⟨calls, hflat, hcalls⟩ := h.handed x
    by_cases hx : x = side
    · subst hx
      refine ⟨calls ++ [messages], ?_, ?_⟩
      · rw [hturn.returned, ← hflat]
        simp
      · rw [Function.update_self, ← hcalls, List.filterMap_append]
        cases hbytes : handedOf messages with
        | none => simp [hbytes]
        | some bytes => simp [hbytes]
    · refine ⟨calls, ?_, ?_⟩
      · rw [UDPClientType.side_ne (Ne.symm hx), hturn.other, ← UDPClientType.side_ne (Ne.symm hx)]
        exact hflat
      · rw [Function.update_of_ne hx]
        exact hcalls

theorem Simulates.connected (h : Simulates addr s l) (htype : s.joint.connect.clientType =
      some .connect) {c : UDPClient} {sent : List Datagram} {accepted messages : List Bytes}
    (hplayed : Played (makeUniqueID addr) l .left s.joint.connect c sent accepted messages l')
    (copies : List Copy) :
    Simulates addr (s.after (s.joint.connected c sent accepted copies) .connect
      (handedOf messages)) l' where
  plays := by
    intro side
    cases side with
    | connect => exact hplayed.plays
    | accept =>
        have hother : l'.ep .right = l.ep .right := hplayed.other
        show Plays (makeUniqueID addr) (s.joint.accepting addr) (l'.ep .right)
        rw [hother]
        exact h.plays .accept
  accepted := (h.turn .connect hplayed.toTurn).1
  handed := (h.turn .connect hplayed.toTurn).2
  toServer := by
    intro d hd
    rcases List.mem_append.mp hd with hd | hd
    · obtain ⟨hout, hno⟩ := h.toServer d hd
      exact ⟨fun horigin => hplayed.flight .left (hout horigin), hno⟩
    · refine ⟨hplayed.output d hd, fun horigin => ?_⟩
      have haccept := (hplayed.idReply d hd horigin).1
      rw [htype] at haccept
      cases haccept
  toClient := by
    intro d hd
    obtain ⟨hout, hrest⟩ := h.toClient d hd
    exact ⟨fun horigin => hplayed.flight .right (hout horigin), hrest⟩

theorem Simulates.served (h : Simulates addr s l) (hnonzero : makeUniqueID addr ≠ 0)
    {c c' : UDPClient} {sent : List Datagram} {accepted messages : List Bytes}
    (hplayed : Played (makeUniqueID addr) l .right c c' sent accepted messages l')
    (hid : c'.convID = makeUniqueID addr) {server : UDPServer}
    (htable : server.allClients.lookup (makeUniqueID addr) = some c') (copies : List Copy) :
    Simulates addr (s.after (s.joint.served server sent accepted copies) .accept
      (handedOf messages)) l' where
  plays := by
    intro side
    cases side with
    | connect =>
        have hother : l'.ep .left = l.ep .left := hplayed.other
        show Plays (makeUniqueID addr) (some s.joint.connect) (l'.ep .left)
        rw [hother]
        exact h.plays .connect
    | accept =>
        show Plays (makeUniqueID addr) (server.allClients.lookup (makeUniqueID addr)) (l'.ep .right)
        rw [htable]
        exact hplayed.plays
  accepted := (h.turn .accept hplayed.toTurn).1
  handed := (h.turn .accept hplayed.toTurn).2
  toServer := by
    intro d hd
    obtain ⟨hout, hno⟩ := h.toServer d hd
    exact ⟨fun horigin => hplayed.flight .left (hout horigin), hno⟩
  toClient := by
    intro d hd
    rcases List.mem_append.mp hd with hd | hd
    · obtain ⟨hout, hrest⟩ := h.toClient d hd
      exact ⟨fun horigin => hplayed.flight .right (hout horigin), hrest⟩
    · refine ⟨hplayed.output d hd, fun horigin => ?_, fun horigin =>
        (hplayed.idReply d hd horigin).2⟩
      exact hnonzero (hid.symm.trans (hplayed.raw d hd horigin))

/-- What the server reads of flush outputs is in flight, and of the rest it hears nothing. -/
theorem Simulates.hears_server (h : Simulates addr s l) {d : Datagram} (hd : d ∈ s.joint.toServer)
    {len : Nat} (hinert : d.Inert (makeUniqueID addr) len)
    (hbegins : BeginsSegment (makeUniqueID addr) (d.bytes.take len)) :
    d.bytes ∈ l.net .left := by
  obtain ⟨hout, hno⟩ := h.toServer d hd
  cases horigin : d.origin with
  | idReply => exact absurd horigin hno
  | raw => exact absurd hbegins (hinert horigin)
  | output => exact hout horigin

theorem Simulates.hears_own (h : Simulates addr s l) {reads : List (Option Datagram)}
    (hreads : ∀ d, some d ∈ reads → d ∈ s.joint.toServer)
    (hclean : ∀ d, some d ∈ reads → d.Inert (makeUniqueID addr) maxUdpMtu) :
    Hears (makeUniqueID addr) (l.net .left) none reads :=
  ⟨fun _ hb => absurd hb (Option.not_mem_none _),
    fun d hd hbegins => h.hears_server (hreads d hd) (hclean d hd) hbegins⟩

theorem Simulates.hears_listener (h : Simulates addr s l) {fd : Handle} {d : Datagram}
    {reads : List (Option Datagram)} (ha : s.joint.Allowed (.datagram fd d reads))
    (hclean : (Action.datagram fd d reads).Clean (makeUniqueID addr)) :
    Hears (makeUniqueID addr) (l.net .left) (some (d.bytes.take maxClientBuffLen)) reads := by
  obtain ⟨-, hd, hreads⟩ := ha
  obtain ⟨hinert, hown⟩ := hclean
  refine ⟨?_, (h.hears_own hreads hown).reads⟩
  intro b hb hbegins
  cases hb
  exact ⟨d.bytes, h.hears_server hd hinert hbegins, List.take_prefix _ _⟩

theorem Simulates.hears_connect (h : Simulates addr s l) {reads : List (Option Datagram)}
    (hreads : ∀ d, some d ∈ reads → d ∈ s.joint.toClient) :
    Hears (makeUniqueID addr) (l.net .right) none reads := by
  constructor
  · intro b hb
    cases hb
  intro d hd hbegins
  obtain ⟨hout, hno, hreply⟩ := h.toClient d (hreads d hd)
  cases horigin : d.origin with
  | raw => exact absurd horigin hno
  | output => exact hout horigin
  | idReply =>
      -- four bytes are no segment
      have hlen := hbegins.1
      rw [hreply horigin, List.length_take, ByteCodec.encodeLE_length] at hlen
      unfold ikcpOverhead at hlen
      omega

/-- The id that a connect side takes from its first datagram is the accept side's. -/
theorem Simulates.reads_id (h : Simulates addr s l) (hinv : s.joint.Inv addr)
    {reads : List (Option Datagram)} (hreads : ∀ d, some d ∈ reads → d ∈ s.joint.toClient)
    {id : UInt32}
    (hid : Plug.getKcpConvID (s.joint.connect.handshakeData .linux none (bytesOf reads)).1.1
      (s.joint.connect.handshakeData .linux none (bytesOf reads)).1.2 = some id) :
    id = makeUniqueID addr := by
  rw [handshakeData_read (hinv.clients .connect s.joint.connect rfl).buffOffset] at hid
  cases hhead : reads.head?.join with
  | none =>
      rw [hhead] at hid
      cases hid
  | some d =>
      rw [hhead] at hid
      have hd := hreads d (head_read_mem hhead)
      obtain ⟨-, hno, hreply⟩ := h.toClient d hd
      cases horigin : d.origin with
      | raw => exact absurd horigin hno
      | output =>
          have hlong := hinv.output d hd horigin
          unfold Plug.getKcpConvID at hid
          dsimp only at hid
          rw [if_neg (by rw [List.length_take]; unfold ikcpOverhead at hlong
                         unfold maxClientBuffLen; omega)] at hid
          cases hid
      | idReply =>
          dsimp only at hid
          have hlen : (encodeLE 4 (makeUniqueID addr).toNat).length = 4 :=
            ByteCodec.encodeLE_length 4 _
          rw [hreply horigin, List.take_of_length_le (by rw [hlen]; decide), hlen] at hid
          exact Option.some.inj (hid.symm.trans (UDPClient.getKcpConvID_own _))

theorem Simulates.nothing (h : Simulates addr s l) (side : UDPClientType) :
    Simulates addr (s.after s.joint side none) l := by
  have hsame : s.after s.joint side none = s := by
    unfold Session.after
    rw [Option.toList_none, List.append_nil, Function.update_eq_self]
  rw [hsame]
  exact h

theorem Simulates.broken (h : Simulates addr s l) (side : UDPClientType) (copies : List Copy) :
    Simulates addr (s.after (s.joint.broken copies) side none) l := by
  have hsame := h.nothing side
  exact ⟨hsame.plays, hsame.accepted, hsame.handed, hsame.toServer, hsame.toClient⟩

/-- The accept side that an action calls, found or new, plays the right end. -/
theorem Simulates.accepts (h : Simulates addr s l) (hinv : s.joint.Inv addr) (fd : Handle) :
    Plays (makeUniqueID addr) (some ((s.joint.accepting addr).getD (acceptedClient addr fd)))
        (l.ep .right) ∧
      ((s.joint.accepting addr).getD (acceptedClient addr fd)).bigID = makeUniqueID addr := by
  have hplays : Plays (makeUniqueID addr) (s.joint.accepting addr) (l.ep .right) := h.plays .accept
  cases hget : s.joint.accepting addr with
  | none =>
      rw [hget] at hplays
      generalize l.ep .right = e at hplays
      cases hplays
      exact ⟨.fresh rfl rfl, rfl⟩
  | some c =>
      rw [hget] at hplays
      exact ⟨hplays, (hinv.entries _ c hget).bigID⟩

/-- A call of the accept side that the server already has. -/
theorem Simulates.serves (h : Simulates addr s l) (hinv : s.joint.Inv addr)
    (hnonzero : makeUniqueID addr ≠ 0) {c c' : UDPClient} (hget : s.joint.accepting addr = some c)
    (hcall : ∃ call, c.call .linux call = some c') {sent : List Datagram}
    {accepted messages : List Bytes}
    (hplayed : Played (makeUniqueID addr) l .right c c' sent accepted messages l')
    (copies : List Copy) :
    Simulates addr (s.after (s.joint.served (s.joint.server.put (makeUniqueID addr) c') sent
      accepted copies) .accept (handedOf messages)) l' := by
  have hentry := hinv.entries _ c hget
  obtain ⟨call, hcall⟩ := hcall
  have hid := (hentry.kept (hentry.call hcall)).convID
  have htable := s.joint.server.put_lookup (makeUniqueID addr) c' (makeUniqueID addr)
  rw [if_pos rfl] at htable
  exact h.served hnonzero hplayed hid htable copies

theorem Simulates.act (h : Simulates addr s l) (hinv : s.joint.Inv addr)
    (hnonzero : makeUniqueID addr ≠ 0) {a : Action} (ha : s.joint.Allowed a)
    (hclean : a.Clean (makeUniqueID addr)) :
    ∃ l', Relation.ReflTransGen Link.CutStep l l' ∧ Simulates addr (s.act addr a) l' := by
  have htype := (hinv.clients .connect s.joint.connect rfl).clientType
  have hconnect : Plays (makeUniqueID addr) (some s.joint.connect) (l.ep .left) :=
    h.plays .connect
  unfold Session.act
  cases a with
  | connectSend payload =>
      obtain ⟨l', hplayed⟩ := hconnect.send hnonzero payload
      exact ⟨l', hplayed.run, h.connected htype hplayed []⟩
  | connectUpdate dlt =>
      obtain ⟨l', hplayed⟩ := hconnect.update dlt
      exact ⟨l', hplayed.run, h.connected htype hplayed []⟩
  | connectRecv reads =>
      unfold Joint.act Joint.handed
      dsimp only
      cases hr : s.joint.connect.recv .linux none (bytesOf reads) with
      | none => exact ⟨l, Relation.ReflTransGen.refl, h.broken .connect _⟩
      | some r =>
          have hown : s.joint.connect.clientType = some .accept →
              s.joint.connect.bigID = makeUniqueID addr := by
            intro haccept
            rw [htype] at haccept
            cases haccept
          obtain ⟨⟨l', hplayed⟩, hhanded⟩ := hconnect.recv hnonzero (h.hears_connect ha) hown
            (fun _ _ _ hid => h.reads_id hinv ha hid) hr
          rw [Option.bind_eq_bind, Option.bind_some, hhanded]
          exact ⟨l', hplayed.run, h.connected htype hplayed _⟩
  | datagram fd d reads =>
      obtain ⟨hplays, hbig⟩ := h.accepts hinv fd
      have haccept := (hinv.accepts fd).clientType
      obtain ⟨rc, hrc⟩ := UDPClient.recv_accept_total haccept .linux
        (some (d.bytes.take maxClientBuffLen)) (bytesOf reads)
      obtain ⟨⟨l', hplayed⟩, hhanded⟩ := hplays.recv hnonzero (h.hears_listener ha hclean)
        (fun _ => hbig) (fun hcon => by rw [haccept] at hcon; cases hcon) hrc
      have hid := (hinv.accepts_entry fd hrc).convID
      obtain ⟨r, hr, hd⟩ := UDPServer.recv_dispatches ha.1 hrc
      have htable := hd.table (makeUniqueID addr)
      rw [if_pos rfl] at htable
      unfold Joint.act Joint.handed
      dsimp only
      rw [hr]
      dsimp only
      rw [Option.bind_eq_bind, Option.bind_some, hd.handed, hd.sent, hd.accepted, hhanded]
      exact ⟨l', hplayed.run, h.served hnonzero hplayed hid htable _⟩
  | acceptSend payload =>
      unfold Joint.act
      dsimp only
      cases hget : s.joint.accepting addr with
      | none => exact ⟨l, Relation.ReflTransGen.refl, h.nothing .accept⟩
      | some c =>
          have hplays : Plays (makeUniqueID addr) (some c) (l.ep .right) := hget ▸ h.plays .accept
          obtain ⟨l', hplayed⟩ := hplays.send hnonzero payload
          exact ⟨l', hplayed.run, h.serves hinv hnonzero hget ⟨.send payload, rfl⟩ hplayed []⟩
  | acceptUpdate dlt =>
      unfold Joint.act
      dsimp only
      cases hget : s.joint.accepting addr with
      | none => exact ⟨l, Relation.ReflTransGen.refl, h.nothing .accept⟩
      | some c =>
          have hplays : Plays (makeUniqueID addr) (some c) (l.ep .right) := hget ▸ h.plays .accept
          obtain ⟨l', hplayed⟩ := hplays.update dlt
          exact ⟨l', hplayed.run, h.serves hinv hnonzero hget ⟨.update dlt, rfl⟩ hplayed []⟩
  | acceptRecv reads =>
      unfold Joint.act Joint.handed
      dsimp only
      cases hget : s.joint.accepting addr with
      | none => exact ⟨l, Relation.ReflTransGen.refl, h.nothing .accept⟩
      | some c =>
          have hplays : Plays (makeUniqueID addr) (some c) (l.ep .right) := hget ▸ h.plays .accept
          have haccept := (hinv.clients .accept c hget).clientType
          obtain ⟨rc, hrc⟩ := UDPClient.recv_accept_total haccept .linux none (bytesOf reads)
          obtain ⟨⟨l', hplayed⟩, hhanded⟩ := hplays.recv hnonzero (h.hears_own ha hclean)
            (fun _ => (hinv.entries _ c hget).bigID)
            (fun hcon => by rw [haccept] at hcon; cases hcon) hrc
          unfold UDPServer.recvClient
          simp only [hrc, Option.bind_eq_bind, Option.bind_some, hhanded]
          exact ⟨l', hplayed.run, h.serves hinv hnonzero hget
            ⟨.recv none (bytesOf reads), congrArg (Option.map Received.client) hrc⟩ hplayed _⟩

end Simulation

/-- Every session whose server reads no raw payload that begins with a segment of the
conversation is a link of two control blocks of one conversation. -/
theorem session_simulates {info addr : SockaddrIn} {soc : Handle} {s : Session}
    (hnonzero : makeUniqueID addr ≠ 0) (h : Session.Reachable info addr soc s) :
    ∃ l, Link.CutReachable (makeUniqueID addr) l ∧ Simulates addr s l := by
  induction h with
  | refl => exact ⟨_, Relation.ReflTransGen.refl, Simulates.start info addr soc⟩
  | tail hrun hs ih =>
      obtain ⟨l, hl, hsim⟩ := ih
      cases hs with
      | act a hsane ha hclean =>
          have hinv := Joint.inv_of_reachable (Session.Reachable.joint hrun)
          obtain ⟨l', hsteps, hsim'⟩ := hsim.act hinv hnonzero ha hclean
          exact ⟨l', hl.trans hsteps, hsim'⟩

/-! ## Delivery -/

/-- Segments waiting in the `snd_queue` of a side. -/
def Session.queued (addr : SockaddrIn) (s : Session) (side : UDPClientType) : ℕ :=
  match s.joint.client addr side with
  | none => 0
  | some c =>
      match c.plugUserData with
      | none => 0
      | some block => block.sndQueue.length

/-- Segments of accepted messages that have left the `snd_queue` of a side. -/
def Session.sent (addr : SockaddrIn) (s : Session) (side : UDPClientType) : ℕ :=
  ((s.joint.accepted side).flatMap (Framing.fragments plugMss)).length - s.queued addr side

theorem Simulates.sent {addr : SockaddrIn} {s : Session} {l : Link.State}
    (h : Simulates addr s l) (side : UDPClientType) :
    (l.ep side.side).sent = s.sent addr side := by
  have hplays := h.plays side
  unfold Endpoint.sent Session.sent Session.queued
  rw [← h.accepted side]
  generalize l.ep side.side = e at hplays ⊢
  generalize s.joint.client addr side = c at hplays ⊢
  cases hplays with
  | absent => rfl
  | fresh hid hblock =>
      simp only [hblock]
      rfl
  | plugged hid hblock hconv => simp only [hblock]

/-- From one application to the other: each call of `OnRecvData` is given whole messages,
which are, all calls together and in order, the first that the other side's `Send` accepted. -/
theorem session_delivers {info addr : SockaddrIn} {soc : Handle} {s : Session}
    (hnonzero : makeUniqueID addr ≠ 0) (h : Session.Reachable info addr soc s)
    (hfew : ∀ side, s.sent addr side < 2 ^ 31) (side : UDPClientType) :
    ∃ calls : List (List Bytes), calls.filterMap handedOf = s.handed side.peer ∧
      calls.flatten <+: s.joint.accepted side := by
  obtain ⟨l, hl, hsim⟩ := session_simulates hnonzero h
  have hsent : ∀ side', (l.ep side').sent < 2 ^ 31 := by
    intro side'
    cases side' with
    | left =>
        rw [show Side.left = UDPClientType.connect.side from rfl, hsim.sent]
        exact hfew .connect
    | right =>
        rw [show Side.right = UDPClientType.accept.side from rfl, hsim.sent]
        exact hfew .accept
  obtain ⟨calls, hflat, hcalls⟩ := hsim.handed side.peer
  refine ⟨calls, hcalls, ?_⟩
  have hpeer : side.peer.side = side.side.other := by cases side <;> rfl
  have hprefix := (Link.inv_of_cutReachable hl hsent).choose_spec.delivered side.side.other
  rw [Side.other_other] at hprefix
  rw [hflat, hpeer, ← hsim.accepted side]
  exact hprefix

/-! ## A first exchange -/

/-- A raw greeting has made the accept side. -/
def greeted : Session :=
  ((Session.start peerAddr 5).act peerAddr (.connectSend [104])).act peerAddr
    (.datagram 6 ⟨.raw, [104]⟩ [])

/-- The reply has given the connect side its block, which sends a message of 500 bytes. -/
def spoken : Session :=
  (((greeted.act peerAddr (.connectRecv (greeted.joint.toClient.map some))).act peerAddr
    (.connectSend (List.replicate 500 104))).act peerAddr (.connectUpdate 0)).act peerAddr
      (.connectUpdate 10)

/-- What the connect side has sent last, too long for the listening socket. -/
def speech : Datagram := spoken.joint.toServer.getLastD ⟨.raw, []⟩

/-- The listening socket cuts the message off; everything arrives again at the socket of
the accept side. -/
def listened : Session :=
  (spoken.act peerAddr (.datagram 7 speech [])).act peerAddr
    (.acceptRecv (spoken.joint.toServer.map some))

theorem listened_reachable : Session.Reachable peerAddr peerAddr 5 listened := by
  have hgreeted : Session.Reachable peerAddr peerAddr 5 greeted := by
    have hsent : Session.Reachable peerAddr peerAddr 5
        ((Session.start peerAddr 5).act peerAddr (.connectSend [104])) :=
      Relation.ReflTransGen.single (Session.Step.act _ (.connectSend [104]) rfl trivial trivial)
    exact hsent.tail (Session.Step.act _ (.datagram 6 ⟨.raw, [104]⟩ []) rfl
      ⟨by decide, List.mem_append_right _ List.mem_cons_self, by simp⟩
      ⟨fun _ => by decide, by simp⟩)
  have hjoined := hgreeted.tail (Session.Step.act _
    (.connectRecv (greeted.joint.toClient.map some)) rfl (fun d hd => by simpa using hd) trivial)
  have hspoken : Session.Reachable peerAddr peerAddr 5 spoken :=
    ((hjoined.tail (Session.Step.act _ (.connectSend (List.replicate 500 104)) rfl trivial
      trivial)).tail (Session.Step.act _ (.connectUpdate 0) rfl trivial trivial)).tail
      (Session.Step.act _ (.connectUpdate 10) rfl trivial trivial)
  have horigin : speech.origin ≠ .raw := by decide +kernel
  have hcut := hspoken.tail (Session.Step.act _ (.datagram 7 speech []) rfl
    ⟨by decide, by decide +kernel, by simp⟩ ⟨fun hraw => absurd hraw horigin, by simp⟩)
  have hsame : (spoken.act peerAddr (.datagram 7 speech [])).joint.toServer =
      spoken.joint.toServer := by decide +kernel
  have hraw : ∀ d ∈ spoken.joint.toServer, d.origin = .raw →
      ¬ BeginsSegment (makeUniqueID peerAddr) (d.bytes.take maxUdpMtu) := by decide +kernel
  refine hcut.tail (Session.Step.act _ (.acceptRecv (spoken.joint.toServer.map some)) rfl ?_ ?_)
  · intro d hd
    rw [hsame]
    simpa using hd
  · exact fun d hd => hraw d (by simpa using hd)

theorem session_delivers_listened :
    maxClientBuffLen < speech.bytes.length ∧
      listened.handed .accept = [List.replicate 500 104] ∧
      ∃ calls : List (List Bytes), calls.filterMap handedOf = listened.handed .accept ∧
        calls.flatten <+: listened.joint.accepted .connect :=
  ⟨by decide +kernel, by decide +kernel, session_delivers (by decide) listened_reachable
    (fun side => by cases side <;> decide +kernel) .connect⟩

end UdpKcp.Wheel
