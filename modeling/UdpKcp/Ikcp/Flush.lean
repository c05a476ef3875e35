import UdpKcp.Ikcp.Input
import UdpKcp.Library.Packing

/-! # Flushing and the update timer

`ikcp_flush` writes acknowledgements, window probes and due data segments
through one moving pointer into datagrams of at most `mtu` bytes, opens the
send window on the way, and finally adjusts the congestion window.
`ikcp_update` stamps the clock and flushes when the flush timer is due.
-/

namespace UdpKcp.Ikcp

open ByteCodec (Bytes)
open Packing (Packer)

/-- `ikcp_wnd_unused`. -/
def ikcpWndUnused (kcp : IKCPCB) : UInt32 :=
  if kcp.nrcvQue < kcp.rcvWnd.toNat then kcp.rcvWnd - UInt32.ofNat kcp.nrcvQue else 0

/-! ## Acknowledgements and probes -/

/-- The local `seg` of `ikcp_flush` as it is first filled in. -/
def flushSeg (kcp : IKCPCB) : IKCPSEG where
  conv := kcp.conv
  cmd := ikcpCmdAck
  frg := 0
  wnd := ikcpWndUnused kcp
  una := kcp.rcvNxt
  sn := 0
  ts := 0

/-- Write one segment at the pointer: when header and payload do not fit below
the MTU, the bytes so far go to the output callback first. -/
def writeSeg (mtu : UInt32) (out : Packer UInt8) (seg : IKCPSEG) : Packer UInt8 :=
  out.put mtu.toNat seg.bytes

/-- The acknowledgement loop, which leaves its last `sn` and `ts` in `seg`. -/
def flushAcks (mtu : UInt32) : IKCPSEG × Packer UInt8 → List (UInt32 × UInt32) →
    IKCPSEG × Packer UInt8
  | acc, [] => acc
  | (seg, out), (sn, ts) :: acks =>
      let seg := { seg with sn := sn, ts := ts }
      flushAcks mtu (seg, writeSeg mtu out seg) acks

/-- The probe timer, which runs while the remote window is zero. -/
def probeTimer (kcp : IKCPCB) : IKCPCB :=
  if kcp.rmtWnd = 0 then
    if kcp.probeWait = 0 then
      { kcp with probeWait := ikcpProbeInit, tsProbe := kcp.current + ikcpProbeInit }
    else if itimediff kcp.current kcp.tsProbe ≥ 0 then
      let wait := if kcp.probeWait < ikcpProbeInit then ikcpProbeInit else kcp.probeWait
      let wait := wait + wait / 2
      let wait := if wait > ikcpProbeLimit then ikcpProbeLimit else wait
      { kcp with
        probeWait := wait
        tsProbe := kcp.current + wait
        probe := kcp.probe ||| ikcpAskSend }
    else kcp
  else { kcp with tsProbe := 0, probeWait := 0 }

/-- One pending probe command, if its bit is set. -/
def flushProbe (mtu : UInt32) (probe bit cmd : UInt32) (acc : IKCPSEG × Packer UInt8) :
    IKCPSEG × Packer UInt8 :=
  if probe &&& bit ≠ 0 then
    let seg := { acc.1 with cmd := cmd }
    (seg, writeSeg mtu acc.2 seg)
  else acc

/-! ## Opening the send window -/

/-- The local `cwnd` of `ikcp_flush`. -/
def flushCwnd (kcp : IKCPCB) : UInt32 :=
  let cwnd := imin kcp.sndWnd kcp.rmtWnd
  if kcp.nocwnd = 0 then imin kcp.cwnd cwnd else cwnd

/-- What a segment receives when it moves from `snd_queue` to `snd_buf`. -/
def openSegment (kcp : IKCPCB) (wnd sn : UInt32) (newseg : IKCPSEG) : IKCPSEG :=
  { newseg with
    conv := kcp.conv
    cmd := ikcpCmdPush
    wnd := wnd
    ts := kcp.current
    sn := sn
    una := kcp.rcvNxt
    resendts := kcp.current
    rto := toU32 kcp.rxRto
    fastack := 0
    xmit := 0 }

/-- The move loop: segments opened, numbered from `sndNxt`, and those left queued. -/
def openWindow (kcp : IKCPCB) (wnd limit : UInt32) :
    UInt32 → List IKCPSEG → List IKCPSEG × List IKCPSEG
  | _, [] => ([], [])
  | sndNxt, newseg :: queue =>
      if itimediff sndNxt limit < 0 then
        let opened := openWindow kcp wnd limit (sndNxt + 1) queue
        (openSegment kcp wnd sndNxt newseg :: opened.1, opened.2)
      else ([], newseg :: queue)

/-- `snd_queue -> snd_buf` on the control block. -/
def moveSndQueue (kcp : IKCPCB) (wnd cwnd : UInt32) : IKCPCB :=
  let opened := openWindow kcp wnd (kcp.sndUna + cwnd) kcp.sndNxt kcp.sndQueue
  { kcp with
    sndQueue := opened.2
    nsndQue := kcp.nsndQue - opened.1.length
    sndBuf := kcp.sndBuf ++ opened.1
    nsndBuf := kcp.nsndBuf + opened.1.length
    sndNxt := kcp.sndNxt + UInt32.ofNat opened.1.length }

/-! ## Data segments -/

/-- Why the data loop transmits a segment, if it does. -/
inductive SendReason where
  | idle
  | first
  | timeout
  | fast
  deriving Repr, DecidableEq

/-- `resent`: the fast-ack count that triggers a retransmission. -/
def flushResent (kcp : IKCPCB) : UInt32 :=
  if kcp.fastresend > 0 then toU32 kcp.fastresend else 0xffffffff

def flushRtomin (kcp : IKCPCB) : UInt32 :=
  if kcp.nodelay = 0 then toU32 (kcp.rxRto >>> (3 : Nat)) else 0

/-- The three-way test at the head of the data loop. -/
def sendReason (kcp : IKCPCB) (segment : IKCPSEG) : SendReason :=
  if segment.xmit = 0 then .first
  else if itimediff kcp.current segment.resendts ≥ 0 then .timeout
  else if segment.fastack ≥ flushResent kcp then
    if asI32 segment.xmit ≤ kcp.fastlimit ∨ kcp.fastlimit ≤ 0 then .fast else .idle
  else .idle

/-- The retransmission timeout after a timeout. -/
def backoff (kcp : IKCPCB) (segment : IKCPSEG) : UInt32 :=
  if kcp.nodelay = 0 then segment.rto + imax segment.rto (toU32 kcp.rxRto)
  else
    let step := if kcp.nodelay < 2 then asI32 segment.rto else kcp.rxRto
    segment.rto + toU32 (step.tdiv 2)

/-- The segment after the data loop has looked at it. -/
def stampSegment (kcp : IKCPCB) (wnd : UInt32) (segment : IKCPSEG) : IKCPSEG :=
  let sent := { segment with
    xmit := segment.xmit + 1, ts := kcp.current, wnd := wnd, una := kcp.rcvNxt }
  match sendReason kcp segment with
  | .idle => segment
  | .first =>
      { sent with
        rto := toU32 kcp.rxRto
        resendts := kcp.current + toU32 kcp.rxRto + flushRtomin kcp }
  | .timeout =>
      { sent with rto := backoff kcp segment, resendts := kcp.current + backoff kcp segment }
  | .fast => { sent with fastack := 0, resendts := kcp.current + segment.rto }

/-- The accumulators of the data loop. -/
structure DataLoop where
  /-- Segments behind the loop's cursor. -/
  done : List IKCPSEG := []
  out : Packer UInt8
  /-- `kcp->xmit` and `kcp->state`. -/
  xmit : UInt32
  state : UInt32
  change : Nat := 0
  lost : Bool := false

/-- One round of the data loop. -/
def flushSegment (kcp : IKCPCB) (wnd : UInt32) (st : DataLoop) (segment : IKCPSEG) : DataLoop :=
  let reason := sendReason kcp segment
  let segment := stampSegment kcp wnd segment
  let st := { st with done := st.done ++ [segment] }
  if reason = .idle then st
  else
    { st with
      out := writeSeg kcp.mtu st.out segment
      xmit := if reason = .timeout then st.xmit + 1 else st.xmit
      state := if segment.xmit ≥ kcp.deadLink then 0xffffffff else st.state
      change := if reason = .fast then st.change + 1 else st.change
      lost := st.lost || decide (reason = .timeout) }

/-! ## Congestion window -/

def raiseThresh (x : UInt32) : UInt32 := if x < ikcpThreshMin then ikcpThreshMin else x

/-- The window updates at the end of `ikcp_flush`. -/
def flushCongestion (kcp : IKCPCB) (change : Nat) (lost : Bool) (cwnd resent : UInt32) : IKCPCB :=
  let kcp :=
    if change ≠ 0 then
      let ssthresh := raiseThresh ((kcp.sndNxt - kcp.sndUna) / 2)
      { kcp with
        ssthresh := ssthresh
        cwnd := ssthresh + resent
        incr := (ssthresh + resent) * kcp.mss }
    else kcp
  let kcp :=
    if lost then { kcp with ssthresh := raiseThresh (cwnd / 2), cwnd := 1, incr := kcp.mss }
    else kcp
  if kcp.cwnd < 1 then { kcp with cwnd := 1, incr := kcp.mss } else kcp

/-! ## ikcp_flush and ikcp_update -/

/-- `ikcp_flush`: the block afterwards and the datagrams handed to the output
callback, in order. -/
def ikcpFlush (kcp : IKCPCB) : IKCPCB × List Bytes :=
  if kcp.updated = 0 then (kcp, [])
  else
    let acks := flushAcks kcp.mtu (flushSeg kcp, {}) kcp.acklist
    let kcp := probeTimer { kcp with acklist := [] }
    let wask := flushProbe kcp.mtu kcp.probe ikcpAskSend ikcpCmdWask acks
    let wins := flushProbe kcp.mtu kcp.probe ikcpAskTell ikcpCmdWins wask
    let kcp := { kcp with probe := 0 }
    let cwnd := flushCwnd kcp
    let kcp := moveSndQueue kcp wins.1.wnd cwnd
    let loop := kcp.sndBuf.foldl (flushSegment kcp wins.1.wnd)
      { out := wins.2, xmit := kcp.xmit, state := kcp.state }
    let kcp := { kcp with sndBuf := loop.done, xmit := loop.xmit, state := loop.state }
    (flushCongestion kcp loop.change loop.lost cwnd (flushResent kcp), loop.out.output)

/-- The clock and timer part of `ikcp_update`: the block that would be flushed,
and whether the flush is due. -/
def updateTimer (kcp : IKCPCB) (current : UInt32) : IKCPCB × Bool :=
  let kcp := { kcp with current := current }
  let kcp :=
    if kcp.updated = 0 then { kcp with updated := 1, tsFlush := kcp.current } else kcp
  let slap := itimediff kcp.current kcp.tsFlush
  let reset := slap ≥ 10000 ∨ slap < -10000
  let kcp := if reset then { kcp with tsFlush := kcp.current } else kcp
  let slap := if reset then 0 else slap
  if slap ≥ 0 then
    let tsFlush := kcp.tsFlush + kcp.interval
    let tsFlush :=
      if itimediff kcp.current tsFlush ≥ 0 then kcp.current + kcp.interval else tsFlush
    ({ kcp with tsFlush := tsFlush }, true)
  else (kcp, false)

/-- `ikcp_update`. -/
def ikcpUpdate (kcp : IKCPCB) (current : UInt32) : IKCPCB × List Bytes :=
  let timed := updateTimer kcp current
  if timed.2 then ikcpFlush timed.1 else (timed.1, [])

end UdpKcp.Ikcp
