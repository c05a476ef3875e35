import UdpKcp.Wheel.Descriptors
import UdpKcp.Wheel.Dispatch

/-! # The process

Whatever holds a descriptor in the Linux build, from the constructor of a server to
its destructor: the server with its listening socket and its dispatcher, the clients of
its table, and clients of `TryConnect` that the application has not attached. System
calls are logged with their answers.
-/

namespace UdpKcp.Wheel

open ByteCodec (Bytes)
open Ikcp Plug

/-! ## System calls -/

/-- A call about a descriptor and whether it succeeds; `opened` is `socket` or
`epoll_create1`, `added` and `modified` are the two kinds of `epoll_ctl`. -/
inductive Sys where
  | opened (fd : Handle)
  | bound (fd : Handle) (ok : Bool)
  | added (fd : Handle) (unit : NetUnit) (ok : Bool)
  | modified (fd : Handle) (unit : NetUnit) (ok : Bool)
  | closed (fd : Handle)
  deriving DecidableEq, Repr

def Sys.fdEvent : Sys → Option FdEvent
  | .opened fd => if fd = invalidSocket then none else some (.opened fd)
  | .closed fd => some (.closed fd)
  | _ => none

/-- A descriptor that could not be bound. -/
def Sys.unbound : Sys → Option Handle
  | .bound fd false => if fd = invalidSocket then none else some fd
  | _ => none

def fdEvents (log : List Sys) : List FdEvent := log.filterMap Sys.fdEvent

def unbound (log : List Sys) : List Handle := log.filterMap Sys.unbound

/-- The descriptors open after these calls. -/
def openFds (log : List Sys) : Finset Handle := openAfter ∅ (fdEvents log)

/-- What `epoll_wait` can report of a descriptor: the `data.ptr` it was given, and whether
`EPOLLIN` is asked for. -/
abbrev Interest := Handle → Option (NetUnit × Bool)

/-- `epoll_ctl` takes no invalid descriptor. -/
def Interest.set (i : Interest) (fd : Handle) (x : NetUnit × Bool) : Interest :=
  if fd = invalidSocket then i else Function.update i fd (some x)

def Interest.call (i : Interest) : Sys → Interest
  | .added fd unit true => i.set fd (unit, false)
  | .modified fd unit true => i.set fd (unit, true)
  | .closed fd => Function.update i fd none
  | _ => i

def Interest.after (i : Interest) (log : List Sys) : Interest := log.foldl Interest.call i

/-- The interest list of the dispatcher after these calls. -/
def interest (log : List Sys) : Interest := Interest.after (fun _ => none) log

/-- An event as `epoll_wait` reports it. -/
def EpollEvent.Reported (i : Interest) (e : EpollEvent) : Prop :=
  ∃ fd readable, i fd = some (e.ptr, readable) ∧ (e.has epollIn = true → readable = true)

/-! ## Calls of the units -/

/-- The handle that a unit closes when it is destroyed. -/
def heldHandle (sock : Handle) : List Handle := if sock = invalidSocket then [] else [sock]

/-- `~NetUnit`. -/
def destroyUnit (sock : Handle) : List Sys := (heldHandle sock).map .closed

namespace UDPServer

/-- The handles of the clients, in the order of the table. -/
def handles (s : UDPServer) : List Handle :=
  s.allClients.entries.flatMap fun entry => heldHandle entry.2.sock

/-- The system calls of `AttachNetClient`. -/
def attachLog (s : UDPServer) (calls : SockCalls) (c : UDPClient) : List Sys :=
  match s.allClients.lookup c.getUniqueID with
  | none =>
      .added c.getHandle (.client c.getUniqueID) calls.attach ::
        if calls.attach then [.modified c.getHandle (.client c.getUniqueID) calls.ctl] else []
  | some _ => []

/-- The system calls of `NewNetClient`. -/
def newNetClientLog (s : UDPServer) (calls : SockCalls) (raddr : SockaddrIn) : List Sys :=
  let fd := calls.socket
  let log := [.opened fd, .bound fd calls.bind]
  if calls.bind = false then log
  else if fd = invalidSocket then log
  else if calls.connect then
    let c := newUDPClient raddr fd
    let log := log ++ s.attachLog calls c
    if (s.attachNetClient calls c).2 then log
    else log ++ .closed fd :: destroyUnit c.getHandle
  else log ++ [.closed fd]

/-- The system calls of `Recv` about descriptors. -/
def recvLog (s : UDPServer) (calls : SockCalls) (read : Option (Bytes × SockaddrIn)) :
    List Sys :=
  match read with
  | none => []
  | some (_, addr) =>
      match s.allClients.lookup (makeUniqueID addr) with
      | none => s.newNetClientLog calls addr
      | some _ => []

end UDPServer

/-- A `UDPServer` with its `m_sock` of `NetUnit`, its dispatcher and `m_bRun`. -/
structure ServerObject where
  clients : UDPServer
  sock : Handle
  dispatch : Handle
  bRun : Bool

/-- What the system calls of one `Recv` answer: those of a `NewNetClient`, the `recvfrom` of
the listening socket, and the reads of a client's own socket. -/
structure RecvAnswers where
  calls : SockCalls
  read : Option (Bytes × SockaddrIn)
  soc : Socket

/-- Nothing to read. -/
def RecvAnswers.silent : RecvAnswers where
  calls := .succeed invalidSocket
  read := none
  soc := []

/-- What must not happen: a call through the pointer to a unit that is not there, or the
handshake copy of `GetKcpConvID` out of bounds. -/
inductive Fault where
  | dangling
  | copy
  deriving DecidableEq, Repr

/-- The loop of `UDPServer::Update`: the table, the calls so far, and the answers to come. -/
structure Round where
  clients : UDPServer
  log : List Sys
  answers : List RecvAnswers

/-- `Recv` on the unit of an event; a client's is given no datagram. -/
def Round.recv (r : Round) (unit : NetUnit) : Except Fault Round :=
  let answer := r.answers.headD .silent
  match unit with
  | .listen =>
      match r.clients.recv answer.calls answer.read answer.soc with
      | none => .error .copy
      | some res => .ok {
          clients := res.server
          log := r.log ++ r.clients.recvLog answer.calls answer.read
          answers := r.answers.tail }
  | .client key =>
      match r.clients.allClients.lookup key with
      | none => .error .dangling
      | some c =>
          match r.clients.recvClient .linux key c none answer.soc with
          | none => .error .copy
          | some res => .ok { r with clients := res.server, answers := r.answers.tail }

/-- After a fault nothing is called any more. -/
def Round.next (r : Except Fault Round) (unit : NetUnit) : Except Fault Round :=
  r.bind fun r => r.recv unit

namespace ServerObject

/-- `UDPServer(addr, uPort)`, where `epoll_create1` has returned `dispatch`. -/
def new (dispatch : Handle) : ServerObject where
  clients := .start
  sock := invalidSocket
  dispatch := dispatch
  bRun := false

/-- The server after `TryListen`, its system calls, and the value returned. -/
structure Listened where
  server : ServerObject
  log : List Sys
  ret : Bool

/-- `TryListen`: a listening socket that cannot be bound is not closed, and the answer of
`AttachHandleToDispatch` is not looked at. -/
def tryListen (s : ServerObject) (calls : SockCalls) : Listened :=
  if s.sock ≠ invalidSocket then { server := s, log := [], ret := false }
  else
    let soc := calls.socket
    if soc = invalidSocket then { server := s, log := [.opened soc], ret := false }
    else if calls.bind = false then
      { server := s, log := [.opened soc, .bound soc false], ret := false }
    else
      let s := { s with sock := soc }
      let log := [.opened soc, .bound soc true, .added soc .listen calls.attach,
        .modified soc .listen calls.ctl]
      if calls.ctl then { server := { s with bRun := true }, log := log, ret := true }
      else { server := s, log := log, ret := false }

/-- `UDPServer::Update`. -/
def update (s : ServerObject) (dlt : UInt32) (waited : Option (List EpollEvent))
    (answers : List RecvAnswers) : Except Fault (ServerObject × List Sys) := do
  let r ← Wheel.dispatch Round.next
    (.ok { clients := s.clients.updateClient dlt, log := [], answers := answers })
    (netDispatchUpdate waited)
  return ({ s with clients := r.clients }, r.log)

/-- `~UDPServer`: `FreeAllClient`, `UnInit` of the dispatcher, and `~NetUnit`. -/
def destroyLog (s : ServerObject) : List Sys :=
  (s.clients.handles.map .closed) ++ destroyUnit s.dispatch ++ destroyUnit s.sock

end ServerObject

/-- What the system calls of `TryConnect` answer. -/
structure ConnectCalls where
  socket : Handle
  bind : Bool
  getsockname : Bool
  connect : Bool

/-- `TryConnect`; `myAddr` is the address that `getsockname` gives. -/
def tryConnect (calls : ConnectCalls) (myAddr : SockaddrIn) : Option UDPClient × List Sys :=
  let fd := calls.socket
  let log := [.opened fd, .bound fd calls.bind]
  if calls.bind = false then (none, log)
  else if fd = invalidSocket then (none, log)
  else if calls.getsockname = false then (none, log ++ [.closed fd])
  else if calls.connect then (some ((newUDPClient myAddr fd).setClientType .connect), log)
  else (none, log ++ [.closed fd])

/-! ## Runs -/

/-- The server while it lives, the clients of `TryConnect` that were not attached, and the
system calls so far. -/
structure Process where
  server : Option ServerObject
  held : List UDPClient
  log : List Sys

namespace Process

def start (dispatch : Handle) : Process where
  server := some (.new dispatch)
  held := []
  log := [.opened dispatch]

/-- The handles that destructors will close. -/
def handles (p : Process) : List Handle :=
  (match p.server with
    | none => []
    | some s => heldHandle s.dispatch ++ heldHandle s.sock ++ s.clients.handles) ++
  p.held.flatMap fun c => heldHandle c.sock

/-- A call of the application. Clients of the table are the server's: only those it has not
taken are deleted by the application. -/
inductive Step : Process → Process → Prop where
  | tryListen {s : ServerObject} {held : List UDPClient} {log : List Sys} (calls : SockCalls) :
      Step ⟨some s, held, log⟩
        ⟨some (s.tryListen calls).server, held, log ++ (s.tryListen calls).log⟩
  | update {s s' : ServerObject} {held : List UDPClient} {log chunk : List Sys} (dlt : UInt32)
      (waited : Option (List EpollEvent)) (answers : List RecvAnswers)
      (hreported : ∀ events ∈ waited, ∀ e ∈ events, e.Reported (interest log))
      (h : s.update dlt waited answers = .ok (s', chunk)) :
      Step ⟨some s, held, log⟩ ⟨some s', held, log ++ chunk⟩
  | call {s : ServerObject} {held : List UDPClient} {log : List Sys} {key : UInt32}
      {c c' : UDPClient} (hget : s.clients.allClients.lookup key = some c) (call : Call)
      (hcall : c.call .linux call = some c') :
      Step ⟨some s, held, log⟩ ⟨some { s with clients := s.clients.put key c' }, held, log⟩
  | tryConnect {server : Option ServerObject} {held : List UDPClient} {log : List Sys}
      (calls : ConnectCalls) (myAddr : SockaddrIn) :
      Step ⟨server, held, log⟩ ⟨server, (Wheel.tryConnect calls myAddr).1.toList ++ held,
        log ++ (Wheel.tryConnect calls myAddr).2⟩
  | callHeld {server : Option ServerObject} {before after : List UDPClient} {c c' : UDPClient}
      {log : List Sys} (call : Call) (hcall : c.call .linux call = some c') :
      Step ⟨server, before ++ c :: after, log⟩ ⟨server, before ++ c' :: after, log⟩
  | attach {s : ServerObject} {before after : List UDPClient} {c : UDPClient} {log : List Sys}
      (calls : SockCalls) :
      Step ⟨some s, before ++ c :: after, log⟩
        ⟨some { s with clients := (s.clients.attachNetClient calls c).1 },
          if (s.clients.attachNetClient calls c).2 then before ++ after else before ++ c :: after,
          log ++ s.clients.attachLog calls c⟩
  | delete {server : Option ServerObject} {before after : List UDPClient} {c : UDPClient}
      {log : List Sys} :
      Step ⟨server, before ++ c :: after, log⟩
        ⟨server, before ++ after, log ++ destroyUnit c.getHandle⟩
  | destroy {s : ServerObject} {held : List UDPClient} {log : List Sys} :
      Step ⟨some s, held, log⟩ ⟨none, held, log ++ s.destroyLog⟩

/-- The runs of a process whose `epoll_create1` succeeds. -/
def Reachable (p : Process) : Prop :=
  ∃ dispatch, dispatch ≠ invalidSocket ∧ Relation.ReflTransGen Step (start dispatch) p

end Process

end UdpKcp.Wheel
