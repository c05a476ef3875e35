import UdpKcp.Ikcp.Flush

/-! # The KCP plug

The wrappers of `KCPPlug.h` as compiled with `USE_KCP_CONTROL_TRANSFORM`. A
socket is what successive `recv` calls on it will find: a waiting datagram or a
pending error, and nothing more once the list is used up.
-/

namespace UdpKcp.Plug

open ByteCodec (Bytes decodeLE)
open Ikcp

/-- `MAX_UDP_MTU`. -/
def maxUdpMtu : Nat := 576

/-- Results of successive reads: `none` is a read that fails with an error. -/
abbrev Socket := List (Option Bytes)

/-- `recv(soc, buf, len, 0)` on a non-blocking datagram socket: the bytes stored,
or `none` for -1. A datagram longer than the buffer loses its tail. -/
def sockRecv (soc : Socket) (len : Nat) : Option Bytes × Socket :=
  match soc with
  | [] => (none, [])
  | none :: rest => (none, rest)
  | some d :: rest => (some (d.take len), rest)

/-- `GetKcpConvID` when the copy stays inside the four bytes of `id`; `none` is a
copy of a negative or larger length, whose effect the language does not define. -/
def getKcpConvID (data : Bytes) (len : Int) : Option UInt32 :=
  if 0 ≤ len ∧ len ≤ 4 then some (UInt32.ofNat (decodeLE (data.take len.toNat))) else none

/-- `NewKcpPlugControlBlock`; a refused MTU would leave the block as it was. -/
def newKcpPlugControlBlock (uconv : UInt32) : IKCPCB :=
  let kcp := ikcpWndsize (ikcpNodelay (ikcpCreate uconv) 0 10 0 0) 128 128
  match ikcpSetmtu kcp maxUdpMtu with
  | .ok kcp => kcp
  | .error _ => kcp

/-- `KcpUpdate`. -/
def kcpUpdate (block : IKCPCB) (dlt : UInt32) : IKCPCB × List Bytes := ikcpUpdate block dlt

/-- `KcpSend`: 0 on success, else the error of `ikcp_send`. -/
def kcpSend (block : IKCPCB) (data : Bytes) (len : Int) : IKCPCB × Int :=
  match ikcpSend block data len with
  | .ok block => (block, 0)
  | .error code => (block, code)

/-- The socket loop of `KcpRecv`: every datagram read goes to `ikcp_input`. -/
def recvLoop : IKCPCB → Socket → IKCPCB × Socket
  | pcb, [] => (pcb, [])
  | pcb, none :: soc => (pcb, soc)
  | pcb, some d :: soc =>
      let n := d.take maxUdpMtu
      if n.length > 0 then recvLoop (ikcpInput pcb n).1 soc else (pcb, soc)

/-- What the drain loop has produced: the block and the messages that `ikcp_recv`
returned. -/
structure Drained where
  block : IKCPCB
  messages : List Bytes

/-- The drain loop of `KcpRecv`. Every successful `ikcp_recv` takes a segment, so
fuel above the number of received segments is never exhausted. -/
def drainLoop : Nat → IKCPCB → Int → Drained
  | 0, pcb, _ => { block := pcb, messages := [] }
  | fuel + 1, pcb, maxlen =>
      if maxlen > 0 then
        match ikcpRecv pcb maxlen with
        | .error _ => { block := pcb, messages := [] }
        | .ok (bytes, pcb) =>
            let rest := drainLoop fuel pcb (maxlen - bytes.length)
            { block := rest.block, messages := bytes :: rest.messages }
      else { block := pcb, messages := [] }

def drain (pcb : IKCPCB) (maxlen : Int) : Drained :=
  drainLoop (pcb.rcvQueue.length + pcb.rcvBuf.length + 1) pcb maxlen

/-- The result of `KcpRecv`. The bytes stored at `outbuff` are the messages one
after the other, and the value returned is their number. -/
structure RecvResult where
  block : IKCPCB
  soc : Socket
  messages : List Bytes

def RecvResult.out (r : RecvResult) : Bytes := r.messages.flatten

/-- The block after `KcpRecv` has given `input` and the socket's datagrams to
`ikcp_input`, and what is left of the socket. -/
def kcpRecvInput (block : IKCPCB) (input : Option Bytes) (soc : Socket) : IKCPCB × Socket :=
  let pcb :=
    match input with
    | some data => if data.length > 0 then (ikcpInput block data).1 else block
    | none => block
  recvLoop pcb soc

/-- `KcpRecv`. -/
def kcpRecv (block : IKCPCB) (input : Option Bytes) (soc : Socket) (maxlen : Int) : RecvResult :=
  let read := kcpRecvInput block input soc
  let drained := drain read.1 maxlen
  { block := drained.block, soc := read.2, messages := drained.messages }

/-! ## What reaches `ikcp_input` -/

/-- The byte strings that the socket loop of `KcpRecv` gives to `ikcp_input`. -/
def loopInputs : Socket → List Bytes
  | [] => []
  | none :: _ => []
  | some d :: soc =>
      if (d.take maxUdpMtu).length > 0 then d.take maxUdpMtu :: loopInputs soc else []

/-- The byte strings that `KcpRecv` gives to `ikcp_input`, in order. -/
def kcpRecvInputs (input : Option Bytes) (soc : Socket) : List Bytes :=
  match input with
  | some data => if data.length > 0 then data :: loopInputs soc else loopInputs soc
  | none => loopInputs soc

/-- The block after `ikcp_input` was given these byte strings. -/
def inputAll (block : IKCPCB) (inputs : List Bytes) : IKCPCB :=
  inputs.foldl (fun pcb data => (ikcpInput pcb data).1) block

theorem recvLoop_eq (pcb : IKCPCB) (soc : Socket) :
    (recvLoop pcb soc).1 = inputAll pcb (loopInputs soc) := by
  induction soc generalizing pcb with
  | nil => rfl
  | cons read soc ih =>
      cases read with
      | none => rfl
      | some d =>
          unfold recvLoop loopInputs
          dsimp only
          split
          · exact ih _
          · rfl

/-- `KcpRecv` is `ikcp_input` on these strings, then the drain loop. -/
theorem kcpRecvInput_eq (block : IKCPCB) (input : Option Bytes) (soc : Socket) :
    (kcpRecvInput block input soc).1 = inputAll block (kcpRecvInputs input soc) := by
  unfold kcpRecvInput kcpRecvInputs
  cases input with
  | none => exact recvLoop_eq block soc
  | some data =>
      dsimp only
      split
      · exact recvLoop_eq _ soc
      · exact recvLoop_eq block soc

end UdpKcp.Plug
