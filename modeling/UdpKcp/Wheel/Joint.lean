import UdpKcp.Wheel.Server

/-! # A connecting client and the server it talks to

One client of `TryConnect` and the server's accept side for it, on Linux. The
network may deliver any datagram that was ever sent, at any time, any number of
times or never; reads may also fail. A handshake copy that the language does not
define ends the run.
-/

namespace UdpKcp.Wheel

open ByteCodec (Bytes encodeLE)
open Ikcp Plug

/-- A call of `GetKcpConvID` by `CheckKcpPlug`: its arguments, and the result of the
read that they come from, if there was one. -/
structure Copy where
  data : Bytes
  len : Int
  read : Option (Option Datagram)
  deriving DecidableEq, Repr

/-- The copy stays inside the four bytes of `id` and inside the bytes received. -/
def Copy.InBounds (copy : Copy) : Prop :=
  0 ≤ copy.len ∧ copy.len ≤ 4 ∧ copy.len ≤ copy.data.length

/-- The bytes that reads with these results find on the socket. -/
def bytesOf (reads : List (Option Datagram)) : Socket := reads.map (Option.map Datagram.bytes)

/-- The copies that a `Recv` of this client makes. -/
def UDPClient.copies (c : UDPClient) (reads : List (Option Datagram)) : List Copy :=
  match c.clientType with
  | some .accept =>
      if c.getKcpConvID = 0 then
        [{ data := encodeLE 4 c.getUniqueID.toNat, len := 4, read := none }]
      else []
  | some .connect =>
      if c.getKcpConvID = 0 then
        let read := c.handshakeData .linux none (bytesOf reads)
        [{ data := read.1.1, len := read.1.2, read := some reads.head?.join }]
      else []
  | none => []

/-- Both clients, everything each side has sent, and the history of both: the messages
that `ikcp_send` accepted from a side, and the copies of `CheckKcpPlug`. -/
structure Joint where
  connect : UDPClient
  server : UDPServer
  toServer : List Datagram
  toClient : List Datagram
  accepted : UDPClientType → List Bytes
  copies : List Copy
  /-- No undefined copy so far. -/
  sane : Bool

inductive Action where
  | connectSend (payload : Bytes)
  | connectUpdate (dlt : UInt32)
  | connectRecv (reads : List (Option Datagram))
  /-- A datagram at the listening socket, with `fd` the next free descriptor and `reads`
  what the accept side's own socket holds. -/
  | datagram (fd : Handle) (d : Datagram) (reads : List (Option Datagram))
  | acceptSend (payload : Bytes)
  | acceptUpdate (dlt : UInt32)
  | acceptRecv (reads : List (Option Datagram))

/-- What the server does on its own. -/
def Action.ofServer : Action → Prop
  | .connectSend _ => False
  | .connectUpdate _ => False
  | .connectRecv _ => False
  | _ => True

namespace Joint

/-- The client and a server that has not heard of it. -/
def start (info : SockaddrIn) (soc : Handle) : Joint where
  connect := (newUDPClient info soc).setClientType .connect
  server := .start
  toServer := []
  toClient := []
  accepted := fun _ => []
  copies := []
  sane := true

/-- The client the server has for the address `addr`. -/
def accepting (addr : SockaddrIn) (s : Joint) : Option UDPClient :=
  s.server.allClients.lookup (makeUniqueID addr)

/-- The client of a side, if it is there yet. -/
def client (addr : SockaddrIn) (s : Joint) : UDPClientType → Option UDPClient
  | .connect => some s.connect
  | .accept => s.accepting addr

/-- The connect side has become `c`, with what it sent, had accepted and copied meanwhile. -/
def connected (s : Joint) (c : UDPClient) (sent : List Datagram) (messages : List Bytes)
    (copies : List Copy) : Joint :=
  { s with
    connect := c
    toServer := s.toServer ++ sent
    accepted := Function.update s.accepted .connect (s.accepted .connect ++ messages)
    copies := s.copies ++ copies }

/-- The same for the server and its accept side. -/
def served (s : Joint) (server : UDPServer) (sent : List Datagram) (messages : List Bytes)
    (copies : List Copy) : Joint :=
  { s with
    server := server
    toClient := s.toClient ++ sent
    accepted := Function.update s.accepted .accept (s.accepted .accept ++ messages)
    copies := s.copies ++ copies }

/-- A copy was undefined. -/
def broken (s : Joint) (copies : List Copy) : Joint :=
  { s with copies := s.copies ++ copies, sane := false }

/-- The state after an action of the application, of the event loop or of the network. -/
def act (addr : SockaddrIn) (s : Joint) : Action → Joint
  | .connectSend payload =>
      let r := s.connect.send payload
      s.connected r.client r.sent r.accepted []
  | .connectUpdate dlt => s.connected (s.connect.update dlt).1 (s.connect.update dlt).2 [] []
  | .connectRecv reads =>
      match s.connect.recv .linux none (bytesOf reads) with
      | some r => s.connected r.client r.sent r.accepted (s.connect.copies reads)
      | none => s.broken (s.connect.copies reads)
  | .datagram fd d reads =>
      let c := (s.accepting addr).getD (acceptedClient addr fd)
      match s.server.recv (.succeed fd) (some (d.bytes, addr)) (bytesOf reads) with
      | some r => s.served r.server r.sent r.accepted (c.copies reads)
      | none => s.broken (c.copies reads)
  | .acceptSend payload =>
      match s.accepting addr with
      | none => s
      | some c =>
          let r := c.send payload
          s.served (s.server.put (makeUniqueID addr) r.client) r.sent r.accepted []
  | .acceptUpdate dlt =>
      match s.accepting addr with
      | none => s
      | some c =>
          let r := c.update dlt
          s.served (s.server.put (makeUniqueID addr) r.1) r.2 [] []
  | .acceptRecv reads =>
      match s.accepting addr with
      | none => s
      | some c =>
          match s.server.recvClient .linux (makeUniqueID addr) c none (bytesOf reads) with
          | some r => s.served r.server r.sent r.accepted (c.copies reads)
          | none => s.broken (c.copies reads)

/-- Reads find datagrams of the other side, and new descriptors are valid. -/
def Allowed (s : Joint) : Action → Prop
  | .connectRecv reads => ∀ d, some d ∈ reads → d ∈ s.toClient
  | .datagram fd d reads =>
      fd ≠ invalidSocket ∧ d ∈ s.toServer ∧ ∀ d', some d' ∈ reads → d' ∈ s.toServer
  | .acceptRecv reads => ∀ d, some d ∈ reads → d ∈ s.toServer
  | _ => True

inductive Step (addr : SockaddrIn) : Joint → Joint → Prop where
  | act (s : Joint) (a : Action) (hsane : s.sane = true) (ha : s.Allowed a) :
      Step addr s (s.act addr a)

/-- States reached from a client at `info` whose datagrams come from `addr`. -/
def Reachable (info addr : SockaddrIn) (soc : Handle) : Joint → Prop :=
  Relation.ReflTransGen (Step addr) (start info soc)

end Joint

end UdpKcp.Wheel
