import UdpKcp.Plug.Reachable
import UdpKcp.Library.SelectiveRepeat

/-! # Two plugs and a network

Two control blocks of the plug with the same conversation id, and the datagrams
each has handed to its output callback. The network may deliver a datagram
late, out of order, more than once or never, but does not alter it.
-/

namespace UdpKcp.Link

open ByteCodec (Bytes)
open SelectiveRepeat (Side)
open Ikcp Plug

/-! ## Two ends of any kind -/

/-- The calls that an application and the event loop make of one end. -/
class PlugEnd (E : Type) where
  send : E → Bytes → E
  update : E → UInt32 → E
  /-- The datagrams that `update` emits. -/
  emitted : E → UInt32 → List Bytes
  recv : E → Option Bytes → List Bytes → Int → E

/-- Both ends, and per side the datagrams it emitted that are still in flight. -/
structure Network (E : Type) where
  ep : Side → E
  net : Side → List Bytes

section Network

variable {E : Type} [PlugEnd E]

def Network.send (s : Network E) (side : Side) (payload : Bytes) : Network E :=
  { s with ep := Function.update s.ep side (PlugEnd.send (s.ep side) payload) }

def Network.update (s : Network E) (side : Side) (dlt : UInt32) : Network E where
  ep := Function.update s.ep side (PlugEnd.update (s.ep side) dlt)
  net := Function.update s.net side (s.net side ++ PlugEnd.emitted (s.ep side) dlt)

/-- `rest` are the peer's datagrams that stay in flight. -/
def Network.recv (s : Network E) (side : Side) (input : Option Bytes) (pending rest : List Bytes)
    (maxlen : Int) : Network E where
  ep := Function.update s.ep side (PlugEnd.recv (s.ep side) input pending maxlen)
  net := Function.update s.net side.other rest

/-- One step of a side or of the network. -/
inductive Step : Network E → Network E → Prop where
  | send (s : Network E) (side : Side) (payload : Bytes) : Step s (s.send side payload)
  | update (s : Network E) (side : Side) (dlt : UInt32) : Step s (s.update side dlt)
  | recv (s : Network E) (side : Side) (input : Option Bytes) (pending rest : List Bytes)
      (maxlen : Int) (h : (s.net side.other).Perm (input.toList ++ pending ++ rest)) :
      Step s (s.recv side input pending rest maxlen)
  | drop (s : Network E) (side : Side) (d : Bytes) (rest : List Bytes)
      (h : (s.net side).Perm (d :: rest)) :
      Step s { s with net := Function.update s.net side rest }
  | duplicate (s : Network E) (side : Side) (d : Bytes) (h : d ∈ s.net side) :
      Step s { s with net := Function.update s.net side (d :: s.net side) }

/-- A step of a network whose reader may also cut a datagram short. -/
inductive CutStep : Network E → Network E → Prop where
  | step {s s' : Network E} (h : Step s s') : CutStep s s'
  | cut (s : Network E) (side : Side) (d : Bytes) (n : ℕ) (h : d ∈ s.net side) :
      CutStep s { s with net := Function.update s.net side (d.take n :: s.net side) }

end Network

/-! ## Two control blocks -/

/-- A block with the history of its two ends: the messages that `KcpSend`
accepted and those that `ikcp_recv` has returned inside `KcpRecv`. -/
structure Endpoint where
  kcp : IKCPCB
  accepted : List Bytes
  returned : List Bytes

def Endpoint.start (conv : UInt32) : Endpoint where
  kcp := newKcpPlugControlBlock conv
  accepted := []
  returned := []

def Endpoint.send (e : Endpoint) (payload : Bytes) : Endpoint where
  kcp := (kcpSend e.kcp payload payload.length).1
  accepted :=
    if (kcpSend e.kcp payload payload.length).2 = 0 then e.accepted ++ [payload] else e.accepted
  returned := e.returned

def Endpoint.update (e : Endpoint) (dlt : UInt32) : Endpoint :=
  { e with kcp := (kcpUpdate e.kcp dlt).1 }

/-- `KcpRecv` with an input datagram or none, and datagrams waiting on the socket. -/
def Endpoint.recv (e : Endpoint) (input : Option Bytes) (pending : List Bytes) (maxlen : Int) :
    Endpoint :=
  { e with
    kcp := (kcpRecv e.kcp input (pending.map some) maxlen).block
    returned := e.returned ++ (kcpRecv e.kcp input (pending.map some) maxlen).messages }

instance : PlugEnd Endpoint where
  send := Endpoint.send
  update := Endpoint.update
  emitted := fun e dlt => (kcpUpdate e.kcp dlt).2
  recv := Endpoint.recv

/-- Segments of accepted messages that have left `snd_queue`. -/
def Endpoint.sent (e : Endpoint) : ℕ :=
  (e.accepted.flatMap (Framing.fragments plugMss)).length - e.kcp.sndQueue.length

abbrev State := Network Endpoint

def State.start (conv : UInt32) : State where
  ep := fun _ => Endpoint.start conv
  net := fun _ => []

def Reachable (conv : UInt32) : State → Prop :=
  Relation.ReflTransGen Step (State.start conv)

def CutReachable (conv : UInt32) : State → Prop :=
  Relation.ReflTransGen CutStep (State.start conv)

end UdpKcp.Link
