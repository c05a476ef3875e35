import UdpKcp.Plug.Blocks

/-! # The UDP client

`UDPClient.cpp` as compiled with `USE_KCP_CONTROL_TRANSFORM`. A client starts
without a conversation id and talks raw datagrams; once it has an id it owns a
control block and talks KCP. Which side picks the id is the client type: the
accept side takes its own unique id and sends it back, the connect side reads
it from the socket.
-/

namespace UdpKcp.Wheel

open ByteCodec (Bytes encodeLE decodeLE)
open Ikcp Plug

/-- The build: with or without `__LINUX__`. -/
inductive Platform where
  | linux
  | windows
  deriving DecidableEq, Repr

/-- `SOCKET`, a file descriptor. -/
abbrev Handle := Int

/-- `INVALID_SOCKET`. -/
def invalidSocket : Handle := -1

/-- The fields of `sockaddr_in` that the code reads, as stored. -/
structure SockaddrIn where
  sinAddr : UInt32
  sinPort : UInt16
  deriving DecidableEq, Repr

def makeUniqueID (address : SockaddrIn) : UInt32 :=
  address.sinAddr + (address.sinPort.toUInt32 <<< 16)

/-- `EUCT_ACCEPT` and `EUCT_CONNECT`. -/
inductive UDPClientType where
  | accept
  | connect
  deriving DecidableEq, Repr

/-- `MAX_CLIENT_BUFF_LEN`. -/
def maxClientBuffLen : Nat := 512

/-- The call that gave a datagram to `send`: the id reply of `CheckKcpPlug`, the raw
branch of `Send`, or `OutputCallback`. -/
inductive Origin where
  | idReply
  | raw
  | output
  deriving DecidableEq, Repr

structure Datagram where
  origin : Origin
  bytes : Bytes
  deriving DecidableEq, Repr

/-- A client. The constructors leave the type to `SetClientType`: `none` is a type
not set yet. What `m_buff` holds is never read back by a later call. -/
structure UDPClient where
  sock : Handle
  kAddrInfo : SockaddrIn
  plugUserData : Option IKCPCB
  buffOffset : Int
  bigID : UInt32
  convID : UInt32
  clientType : Option UDPClientType

/-- `UDPClient(addinfo, soc)`. -/
def newUDPClient (addinfo : SockaddrIn) (soc : Handle) : UDPClient where
  sock := soc
  kAddrInfo := addinfo
  plugUserData := none
  buffOffset := 0
  bigID := makeUniqueID addinfo
  convID := 0
  clientType := none

namespace UDPClient

def getHandle (c : UDPClient) : Handle := c.sock

def getUniqueID (c : UDPClient) : UInt32 := c.bigID

def getKcpConvID (c : UDPClient) : UInt32 := c.convID

def getBuffLeftLen (c : UDPClient) : Int := maxClientBuffLen - c.buffOffset

def setClientType (c : UDPClient) (tt : UDPClientType) : UDPClient :=
  { c with clientType := some tt }

/-- `SetKcpConvID`, with its two guards. -/
def setKcpConvID (c : UDPClient) (id : UInt32) : UDPClient :=
  if c.convID = 0 then
    let c := { c with convID := id }
    match c.plugUserData with
    | none => { c with plugUserData := some (newKcpPlugControlBlock c.convID) }
    | some _ => c
  else c

/-- `Update`: `KcpUpdate` does nothing without a block. -/
def update (c : UDPClient) (dlt : UInt32) : UDPClient × List Datagram :=
  match c.plugUserData with
  | none => (c, [])
  | some block =>
      ({ c with plugUserData := some (kcpUpdate block dlt).1 },
        (kcpUpdate block dlt).2.map (Datagram.mk .output))

/-- The client after `Send`, what it sent at once, the messages that `ikcp_send` accepted,
and the value returned. -/
structure Sent where
  client : UDPClient
  sent : List Datagram
  accepted : List Bytes
  ret : Int

/-- `Send`; the raw branch returns what `send` returns for a datagram it takes. -/
def send (c : UDPClient) (data : Bytes) : Sent :=
  if c.getKcpConvID = 0 then
    { client := c, sent := [⟨.raw, data⟩], accepted := [], ret := data.length }
  else
    match c.plugUserData with
    | none => { client := c, sent := [], accepted := [], ret := 0 }
    | some block =>
        { client := { c with plugUserData := some (kcpSend block data data.length).1 }
          sent := []
          accepted := if (kcpSend block data data.length).2 = 0 then [data] else []
          ret := (kcpSend block data data.length).2 }

/-- `RealRecv`: one read into the client's buffer. -/
def realRecv (c : UDPClient) (soc : Socket) : Option Bytes × Socket :=
  sockRecv soc c.getBuffLeftLen.toNat

/-- What `CheckKcpPlug` leaves, and the value it returns. -/
structure Checked where
  client : UDPClient
  soc : Socket
  sent : List Datagram
  ret : Bool

/-- `data` and `len` when the connect side calls `GetKcpConvID`: on Linux the result
of a read of its own, elsewhere what it was given. -/
def handshakeData (platform : Platform) (c : UDPClient) (data : Option Bytes) (soc : Socket) :
    (Bytes × Int) × Socket :=
  match platform with
  | .linux =>
      let read := c.realRecv soc
      match read.1 with
      | some d => ((d, d.length), read.2)
      | none => (([], -1), read.2)
  | .windows =>
      match data with
      | some d => ((d, d.length), soc)
      | none => (([], 0), soc)

/-- `CheckKcpPlug`; `none` is a copy in `GetKcpConvID` that the language does not define. -/
def checkKcpPlug (platform : Platform) (c : UDPClient) (data : Option Bytes) (soc : Socket) :
    Option Checked :=
  match c.clientType with
  | some .accept =>
      if c.getKcpConvID = 0 then do
        let id := c.getUniqueID
        let conv ← Plug.getKcpConvID (encodeLE 4 id.toNat) 4
        some {
          client := c.setKcpConvID conv
          soc := soc
          sent := [⟨.idReply, encodeLE 4 id.toNat⟩]
          ret := true }
      else some { client := c, soc := soc, sent := [], ret := false }
  | some .connect =>
      if c.getKcpConvID = 0 then do
        let read := c.handshakeData platform data soc
        let conv ← Plug.getKcpConvID read.1.1 read.1.2
        some { client := c.setKcpConvID conv, soc := read.2, sent := [], ret := true }
      else some { client := c, soc := soc, sent := [], ret := false }
  | none => some { client := c, soc := soc, sent := [], ret := false }

end UDPClient

/-- `snprintf("%u")`. -/
def decimal (n : UInt32) : Bytes := (Nat.toDigits 10 n.toNat).map fun ch => UInt8.ofNat ch.toNat

/-- The result of `Recv`: besides client, socket, datagrams sent and messages accepted for
sending, the messages that `ikcp_recv` took from the receive queue and the bytes given to
`OnRecvData`, if it was called. -/
structure Received where
  client : UDPClient
  soc : Socket
  sent : List Datagram
  accepted : List Bytes
  messages : List Bytes
  handed : Option Bytes

/-- A call of an application or of the event loop. -/
inductive Call where
  | send (data : Bytes)
  | update (dlt : UInt32)
  | recv (data : Option Bytes) (soc : Socket)

namespace UDPClient

/-- `OnRecvData` prints its argument and answers with the client's unique id. -/
def onRecvData (c : UDPClient) (_data : Bytes) : Sent := c.send (decimal c.getUniqueID)

/-- `Recv` after `CheckKcpPlug` has returned false. -/
def recvKcp (c : UDPClient) (data : Option Bytes) (soc : Socket) : Received :=
  match c.plugUserData with
  | none =>
      { client := c, soc := soc, sent := [], accepted := [], messages := [], handed := none }
  | some block =>
      let r := kcpRecv block data soc c.getBuffLeftLen
      let c := { c with plugUserData := some r.block }
      if r.out.length > 0 then
        let reply := c.onRecvData r.out
        { client := reply.client
          soc := r.soc
          sent := reply.sent
          accepted := reply.accepted
          messages := r.messages
          handed := some r.out }
      else
        { client := c
          soc := r.soc
          sent := []
          accepted := []
          messages := r.messages
          handed := none }

/-- `Recv`; `none` when the handshake copy is undefined. -/
def recv (platform : Platform) (c : UDPClient) (data : Option Bytes) (soc : Socket) :
    Option Received := do
  let checked ← c.checkKcpPlug platform data soc
  if checked.ret then
    some {
      client := checked.client
      soc := checked.soc
      sent := checked.sent
      accepted := []
      messages := []
      handed := none }
  else some (checked.client.recvKcp data checked.soc)

def call (platform : Platform) (c : UDPClient) : Call → Option UDPClient
  | .send data => some (c.send data).client
  | .update dlt => some (c.update dlt).1
  | .recv data soc => (c.recv platform data soc).map (·.client)

/-! ## What the calls do -/

theorem getKcpConvID_own (id : UInt32) : Plug.getKcpConvID (encodeLE 4 id.toNat) 4 = some id := by
  have hlt : id.toNat < 256 ^ 4 := id.toNat_lt
  have hread : decodeLE ((encodeLE 4 id.toNat).take 4) = id.toNat := by
    rw [List.take_of_length_le (by simp), ByteCodec.decodeLE_encodeLE hlt]
  unfold Plug.getKcpConvID
  rw [if_pos (by decide)]
  show some (UInt32.ofNat (decodeLE ((encodeLE 4 id.toNat).take 4))) = some id
  rw [hread, UInt32.ofNat_toNat]

/-- Nothing ever moves `m_buffOffset`, so a read has the whole buffer. -/
theorem getBuffLeftLen_full {c : UDPClient} (h : c.buffOffset = 0) :
    c.getBuffLeftLen = maxClientBuffLen := by
  unfold getBuffLeftLen
  rw [h]
  rfl

/-- The accept side's first `Recv` sets its id and answers with it, whatever it is given. -/
theorem recv_accept {platform : Platform} {c : UDPClient} (htype : c.clientType = some .accept)
    (hconv : c.convID = 0) (data : Option Bytes) (soc : Socket) :
    c.recv platform data soc = some {
      client := c.setKcpConvID c.bigID
      soc := soc
      sent := [⟨.idReply, encodeLE 4 c.bigID.toNat⟩]
      accepted := []
      messages := []
      handed := none } := by
  unfold recv checkKcpPlug
  simp [htype, getKcpConvID, hconv, getKcpConvID_own, getUniqueID]

/-- An accept side never copies more than its own id. -/
theorem recv_accept_total {c : UDPClient} (htype : c.clientType = some .accept)
    (platform : Platform) (data : Option Bytes) (soc : Socket) :
    ∃ r, c.recv platform data soc = some r := by
  unfold recv checkKcpPlug
  by_cases hconv : c.convID = 0
  · simp [htype, getKcpConvID, hconv, getKcpConvID_own, getUniqueID]
  · simp [htype, getKcpConvID, hconv]

/-- The connect side without an id takes what it reads for the id. -/
theorem recv_connect {platform : Platform} {c : UDPClient} (htype : c.clientType = some .connect)
    (hconv : c.convID = 0) (data : Option Bytes) (soc : Socket) :
    c.recv platform data soc =
      (Plug.getKcpConvID (c.handshakeData platform data soc).1.1
        (c.handshakeData platform data soc).1.2).map fun id =>
          { client := c.setKcpConvID id
            soc := (c.handshakeData platform data soc).2
            sent := []
            accepted := []
            messages := []
            handed := none } := by
  unfold recv checkKcpPlug
  simp only [htype, getKcpConvID, hconv, if_true]
  cases Plug.getKcpConvID (c.handshakeData platform data soc).1.1
      (c.handshakeData platform data soc).1.2 with
  | none => rfl
  | some id => rfl

/-- With an id, `Recv` is the KCP receive path. -/
theorem recv_plugged {platform : Platform} {c : UDPClient} (hconv : c.convID ≠ 0)
    (data : Option Bytes) (soc : Socket) :
    c.recv platform data soc = some (c.recvKcp data soc) := by
  unfold recv checkKcpPlug
  cases htype : c.clientType with
  | none => rfl
  | some tt =>
      cases tt with
      | accept => simp [getKcpConvID, hconv]
      | connect => simp [getKcpConvID, hconv]

/-- What a `Recv` amounts to: an accept side without an id takes its own, a connect side
without one takes what it reads, and any other client goes the KCP way. -/
inductive RecvOutcome (platform : Platform) (c : UDPClient) (data : Option Bytes) (soc : Socket) :
    Received → Prop where
  | own (htype : c.clientType = some .accept) (hconv : c.convID = 0) :
      RecvOutcome platform c data soc {
        client := c.setKcpConvID c.bigID
        soc := soc
        sent := [⟨.idReply, encodeLE 4 c.bigID.toNat⟩]
        accepted := []
        messages := []
        handed := none }
  | read (htype : c.clientType = some .connect) (hconv : c.convID = 0) (id : UInt32)
      (hid : Plug.getKcpConvID (c.handshakeData platform data soc).1.1
        (c.handshakeData platform data soc).1.2 = some id) :
      RecvOutcome platform c data soc {
        client := c.setKcpConvID id
        soc := (c.handshakeData platform data soc).2
        sent := []
        accepted := []
        messages := []
        handed := none }
  | kcp (hpast : c.convID = 0 → c.clientType = none) :
      RecvOutcome platform c data soc (c.recvKcp data soc)

theorem recv_outcome {platform : Platform} {c : UDPClient} {data : Option Bytes} {soc : Socket}
    {r : Received} (hr : c.recv platform data soc = some r) :
    RecvOutcome platform c data soc r := by
  by_cases hconv : c.convID = 0
  · cases htype : c.clientType with
    | none =>
        unfold recv checkKcpPlug at hr
        simp only [htype] at hr
        cases hr
        exact .kcp fun _ => htype
    | some tt =>
        cases tt with
        | accept =>
            rw [recv_accept htype hconv] at hr
            cases hr
            exact .own htype hconv
        | connect =>
            rw [recv_connect htype hconv] at hr
            obtain ⟨id, hid, rfl⟩ := Option.map_eq_some_iff.mp hr
            exact .read htype hconv id hid
  · rw [recv_plugged hconv] at hr
    cases hr
    exact .kcp fun hzero => absurd hzero hconv

/-- What no call ever changes. -/
structure Same (c c' : UDPClient) : Prop where
  sock : c'.sock = c.sock
  kAddrInfo : c'.kAddrInfo = c.kAddrInfo
  buffOffset : c'.buffOffset = c.buffOffset
  bigID : c'.bigID = c.bigID
  clientType : c'.clientType = c.clientType

/-- What a call that sets no id leaves alone. -/
structure Kept (c c' : UDPClient) : Prop extends Same c c' where
  convID : c'.convID = c.convID
  config : c'.plugUserData.map (·.config) = c.plugUserData.map (·.config)

theorem Same.refl (c : UDPClient) : Same c c := ⟨rfl, rfl, rfl, rfl, rfl⟩

theorem Same.trans {a b c : UDPClient} (hab : Same a b) (hbc : Same b c) : Same a c :=
  ⟨hbc.sock.trans hab.sock, hbc.kAddrInfo.trans hab.kAddrInfo,
    hbc.buffOffset.trans hab.buffOffset, hbc.bigID.trans hab.bigID,
    hbc.clientType.trans hab.clientType⟩

theorem Kept.refl (c : UDPClient) : Kept c c := ⟨Same.refl c, rfl, rfl⟩

theorem Kept.trans {a b c : UDPClient} (hab : Kept a b) (hbc : Kept b c) : Kept a c :=
  ⟨hab.toSame.trans hbc.toSame, hbc.convID.trans hab.convID, hbc.config.trans hab.config⟩

/-- The conversation id is one of the settings. -/
theorem Kept.conv {c c' : UDPClient} (h : Kept c c') :
    c'.plugUserData.map (·.conv) = c.plugUserData.map (·.conv) := by
  have hconv := congrArg (Option.map Config.conv) h.config
  rw [Option.map_map, Option.map_map] at hconv
  exact hconv

/-- The block is replaced by one with its settings. -/
theorem Kept.withBlock {c : UDPClient} {block block' : IKCPCB}
    (hblock : c.plugUserData = some block) (hconfig : block'.config = block.config) :
    Kept c { c with plugUserData := some block' } := by
  refine ⟨⟨rfl, rfl, rfl, rfl, rfl⟩, rfl, ?_⟩
  rw [hblock]
  exact congrArg some hconfig

theorem Kept.send (c : UDPClient) (data : Bytes) : Kept c (c.send data).client := by
  unfold UDPClient.send
  by_cases hraw : c.getKcpConvID = 0
  · rw [if_pos hraw]
    exact Kept.refl c
  · rw [if_neg hraw]
    cases hblock : c.plugUserData with
    | none => exact Kept.refl c
    | some block => exact Kept.withBlock hblock (kcpSend_config block data data.length)

theorem Kept.update (c : UDPClient) (dlt : UInt32) : Kept c (c.update dlt).1 := by
  unfold UDPClient.update
  cases hblock : c.plugUserData with
  | none => exact Kept.refl c
  | some block => exact Kept.withBlock hblock (kcpUpdate_config block dlt)

theorem Kept.recvKcp (c : UDPClient) (data : Option Bytes) (soc : Socket) :
    Kept c (c.recvKcp data soc).client := by
  unfold UDPClient.recvKcp
  cases hblock : c.plugUserData with
  | none => exact Kept.refl c
  | some block =>
      have hread := Kept.withBlock hblock (kcpRecv_config block data soc c.getBuffLeftLen)
      dsimp only
      split
      · exact hread.trans (Kept.send _ _)
      · exact hread

theorem Same.setKcpConvID (c : UDPClient) (id : UInt32) : Same c (c.setKcpConvID id) := by
  unfold UDPClient.setKcpConvID
  by_cases hconv : c.convID = 0
  · rw [if_pos hconv]
    cases hblock : c.plugUserData with
    | none => exact ⟨rfl, rfl, rfl, rfl, rfl⟩
    | some block => exact ⟨rfl, rfl, rfl, rfl, rfl⟩
  · rw [if_neg hconv]
    exact Same.refl c

theorem Same.recv {platform : Platform} {c : UDPClient} {data : Option Bytes} {soc : Socket}
    {r : Received} (hr : c.recv platform data soc = some r) : Same c r.client := by
  cases recv_outcome hr with
  | own htype hconv => exact Same.setKcpConvID c c.bigID
  | read htype hconv id hid => exact Same.setKcpConvID c id
  | kcp hpast => exact (Kept.recvKcp c data soc).toSame

theorem Same.call {platform : Platform} {c c' : UDPClient} {call : Call}
    (hcall : c.call platform call = some c') : Same c c' := by
  cases call with
  | send data =>
      cases hcall
      exact (Kept.send c data).toSame
  | update dlt =>
      cases hcall
      exact (Kept.update c dlt).toSame
  | recv data soc =>
      obtain ⟨r, hr, rfl⟩ := Option.map_eq_some_iff.mp hcall
      exact Same.recv hr

end UDPClient

end UdpKcp.Wheel
