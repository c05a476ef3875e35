import UdpKcp.Wheel.Client
import Mathlib.Data.List.AList

/-! # The UDP server

`UDPServer.cpp`: a listening socket whose datagrams are given to one client for
each remote address, found in `m_AllClients` by its unique id or made by
`NewNetClient`. System calls answer as the environment says.
-/

namespace UdpKcp.Wheel

open ByteCodec (Bytes encodeLE)
open Ikcp Plug
open UDPClient (Kept)

/-- What the system calls of one `NewNetClient` answer. -/
structure SockCalls where
  /-- The descriptor that `socket` returns, or -1. -/
  socket : Handle
  bind : Bool
  connect : Bool
  /-- `epoll_ctl` inside `AttachHandleToDispatch` and inside `CtlUDPEvent`. -/
  attach : Bool
  ctl : Bool

/-- Every call succeeds. -/
def SockCalls.succeed (fd : Handle) : SockCalls where
  socket := fd
  bind := true
  connect := true
  attach := true
  ctl := true

/-- Descriptors opened and closed, in order. -/
inductive FdEvent where
  | opened (fd : Handle)
  | closed (fd : Handle)
  deriving DecidableEq, Repr

/-- The client that `NewNetClient` makes. -/
def acceptedClient (raddr : SockaddrIn) (fd : Handle) : UDPClient :=
  (newUDPClient raddr fd).setClientType .accept

abbrev ClientTable := AList fun _ : UInt32 => UDPClient

structure UDPServer where
  allClients : ClientTable

/-- The server after `NewNetClient` or `AttachNetClient`, with what was returned. -/
structure NewClient where
  server : UDPServer
  client : Option UDPClient
  fds : List FdEvent

namespace UDPServer

/-- A server that has just started to listen. -/
def start : UDPServer where
  allClients := ∅

/-- The client stored under a key is replaced by what a call on it left. -/
def put (s : UDPServer) (key : UInt32) (c : UDPClient) : UDPServer where
  allClients := s.allClients.insert key c

/-- `AttachNetClient`. -/
def attachNetClient (s : UDPServer) (calls : SockCalls) (c : UDPClient) : UDPServer × Bool :=
  match s.allClients.lookup c.getUniqueID with
  | none =>
      if calls.attach then
        if calls.ctl then (s.put c.getUniqueID c, true) else (s, false)
      else (s, false)
  | some _ => (s, false)

/-- `NewNetClient`. After a failed attach the descriptor is closed here and, where it is
valid, once more by the destructor of the client. -/
def newNetClient (s : UDPServer) (calls : SockCalls) (raddr : SockaddrIn) : NewClient :=
  let fd := calls.socket
  let opened := if fd = invalidSocket then [] else [FdEvent.opened fd]
  if calls.bind = false then { server := s, client := none, fds := opened }
  else if fd = invalidSocket then { server := s, client := none, fds := opened }
  else if calls.connect then
    let c := newUDPClient raddr fd
    let attached := s.attachNetClient calls c
    if attached.2 then
      let c := c.setClientType .accept
      { server := attached.1.put c.getUniqueID c, client := some c, fds := opened }
    else
      let destroyed := if c.getHandle = invalidSocket then [] else [FdEvent.closed c.getHandle]
      { server := attached.1, client := none, fds := opened ++ [.closed fd] ++ destroyed }
  else { server := s, client := none, fds := opened ++ [.closed fd] }

/-- The result of `OnRecvByAddr`: the client returned is the one `Recv` was called on. -/
structure Dispatched where
  server : UDPServer
  client : Option UDPClient
  sent : List Datagram
  accepted : List Bytes
  handed : Option Bytes
  fds : List FdEvent

/-- No client was called. -/
def Dispatched.nobody (s : UDPServer) (fds : List FdEvent) : Dispatched where
  server := s
  client := none
  sent := []
  accepted := []
  handed := none
  fds := fds

/-- `Recv` on the client stored under `key`. -/
def recvClient (platform : Platform) (s : UDPServer) (key : UInt32) (c : UDPClient)
    (data : Option Bytes) (soc : Socket) : Option Dispatched := do
  let r ← c.recv platform data soc
  some {
    server := s.put key r.client
    client := some r.client
    sent := r.sent
    accepted := r.accepted
    handed := r.handed
    fds := [] }

/-- `OnRecvByAddr`: `soc` is what the client's own socket holds, `calls` answers the
system calls of a `NewNetClient`. -/
def onRecvByAddr (platform : Platform) (s : UDPServer) (calls : SockCalls) (data : Option Bytes)
    (soc : Socket) (addr : SockaddrIn) : Option Dispatched :=
  let id := makeUniqueID addr
  match s.allClients.lookup id with
  | some c => s.recvClient platform id c data soc
  | none =>
      let made := s.newNetClient calls addr
      match made.client with
      | some c => do
          let r ← made.server.recvClient platform id c data soc
          some { r with fds := made.fds }
      | none => some (.nobody made.server made.fds)

/-- `Recv` of the Linux build: one `recvfrom` into a buffer of `MAX_CLIENT_BUFF_LEN` bytes. -/
def recv (s : UDPServer) (calls : SockCalls) (read : Option (Bytes × SockaddrIn))
    (soc : Socket) : Option Dispatched :=
  match read with
  | none => some (.nobody s [])
  | some (d, addr) =>
      s.onRecvByAddr .linux calls (some (d.take maxClientBuffLen)) soc addr

/-- `UpdateClient`. No client looks at another, so the order of the table does not matter. -/
def updateClient (s : UDPServer) (dlt : UInt32) : UDPServer :=
  s.allClients.keys.foldl (fun s key =>
    match s.allClients.lookup key with
    | some c => s.put key (c.update dlt).1
    | none => s) s

/-! ## What the calls do -/

theorem put_lookup (s : UDPServer) (key : UInt32) (c : UDPClient) (other : UInt32) :
    (s.put key c).allClients.lookup other =
      if other = key then some c else s.allClients.lookup other := by
  by_cases h : other = key
  · subst h
    rw [if_pos rfl]
    exact AList.lookup_insert _
  · rw [if_neg h]
    exact AList.lookup_insert_ne h

theorem newNetClient_succeed {s : UDPServer} {fd : Handle} {raddr : SockaddrIn}
    (hfd : fd ≠ invalidSocket) (hnone : s.allClients.lookup (makeUniqueID raddr) = none) :
    s.newNetClient (.succeed fd) raddr =
      { server := (s.put (makeUniqueID raddr) (newUDPClient raddr fd)).put (makeUniqueID raddr)
          (acceptedClient raddr fd)
        client := some (acceptedClient raddr fd)
        fds := [.opened fd] } := by
  have hattach : s.attachNetClient (.succeed fd) (newUDPClient raddr fd) =
      (s.put (makeUniqueID raddr) (newUDPClient raddr fd), true) := by
    unfold UDPServer.attachNetClient
    rw [show (newUDPClient raddr fd).getUniqueID = makeUniqueID raddr from rfl, hnone]
    rfl
  unfold UDPServer.newNetClient
  simp only [SockCalls.succeed, hfd, if_false, if_true, Bool.true_eq_false]
  rw [show (⟨fd, true, true, true, true⟩ : SockCalls) = .succeed fd from rfl, hattach]
  rfl

/-- The result `r` of a dispatch, in terms of the result of `Recv` on the client. -/
structure Dispatches (s : UDPServer) (addr : SockaddrIn) (rc : Received) (r : Dispatched) :
    Prop where
  client : r.client = some rc.client
  sent : r.sent = rc.sent
  accepted : r.accepted = rc.accepted
  handed : r.handed = rc.handed
  table : ∀ key, r.server.allClients.lookup key =
    if key = makeUniqueID addr then some rc.client else s.allClients.lookup key

/-- A datagram at the listening socket is a `Recv` of the client of its key, made if need be. -/
theorem recv_dispatches {s : UDPServer} {fd : Handle} (hfd : fd ≠ invalidSocket) {d : Bytes}
    {addr : SockaddrIn} {soc : Socket} {rc : Received}
    (hrecv : ((s.allClients.lookup (makeUniqueID addr)).getD (acceptedClient addr fd)).recv .linux
      (some (d.take maxClientBuffLen)) soc = some rc) :
    ∃ r, s.recv (.succeed fd) (some (d, addr)) soc = some r ∧ Dispatches s addr rc r := by
  unfold recv onRecvByAddr
  dsimp only
  cases hget : s.allClients.lookup (makeUniqueID addr) with
  | some old =>
      rw [hget, Option.getD_some] at hrecv
      unfold recvClient
      simp only [hrecv, Option.bind_eq_bind, Option.bind_some]
      exact ⟨_, rfl, rfl, rfl, rfl, rfl, s.put_lookup _ rc.client⟩
  | none =>
      rw [hget, Option.getD_none] at hrecv
      rw [newNetClient_succeed hfd hget]
      unfold recvClient
      simp only [hrecv, Option.bind_eq_bind, Option.bind_some]
      refine ⟨_, rfl, rfl, rfl, rfl, rfl, ?_⟩
      intro key
      rw [put_lookup, put_lookup, put_lookup]
      by_cases hkey : key = makeUniqueID addr
      · rw [if_pos hkey, if_pos hkey]
      · simp only [hkey, if_false]

end UDPServer

/-! ## Clients of the table -/

/-- A client stored under `key`, past its first `Recv`. -/
structure Entry (key : UInt32) (c : UDPClient) : Prop where
  clientType : c.clientType = some .accept
  addr : makeUniqueID c.kAddrInfo = key
  bigID : c.bigID = key
  convID : c.convID = key
  block : c.plugUserData.map (·.conv) = some key

theorem Entry.kept {key : UInt32} {c c' : UDPClient} (h : Entry key c) (hk : Kept c c') :
    Entry key c' := by
  refine ⟨hk.clientType.trans h.clientType, ?_, hk.bigID.trans h.bigID, hk.convID.trans h.convID,
    hk.conv.trans h.block⟩
  rw [hk.kAddrInfo]
  exact h.addr

/-- Later calls of `Recv` leave an entry what it is, whether its id is zero or not. -/
theorem Entry.recv {key : UInt32} {c : UDPClient} (h : Entry key c) {data : Option Bytes}
    {soc : Socket} {r : Received} (hr : c.recv .linux data soc = some r) : Kept c r.client := by
  by_cases hconv : c.convID = 0
  · have hsame : c.setKcpConvID c.bigID = c := by
      have hbig : c.bigID = c.convID := h.bigID.trans h.convID.symm
      obtain ⟨block, hblock, -⟩ := Option.map_eq_some_iff.mp h.block
      unfold UDPClient.setKcpConvID
      simp only [hconv, if_true, hblock, hbig]
      cases c
      simp_all
    rw [UDPClient.recv_accept h.clientType hconv, hsame] at hr
    cases hr
    exact Kept.refl c
  · rw [UDPClient.recv_plugged hconv] at hr
    cases hr
    exact Kept.recvKcp c data soc

theorem Entry.call {key : UInt32} {c c' : UDPClient} (h : Entry key c) {call : Call}
    (hcall : c.call .linux call = some c') : Kept c c' := by
  cases call with
  | send data =>
      cases hcall
      exact Kept.send c data
  | update dlt =>
      cases hcall
      exact Kept.update c dlt
  | recv data soc =>
      obtain ⟨r, hr, rfl⟩ := Option.map_eq_some_iff.mp hcall
      exact h.recv hr

theorem Entry.accepted (raddr : SockaddrIn) (fd : Handle) :
    Entry (makeUniqueID raddr) ((acceptedClient raddr fd).setKcpConvID (makeUniqueID raddr)) :=
  ⟨rfl, rfl, rfl, rfl, rfl⟩

end UdpKcp.Wheel
