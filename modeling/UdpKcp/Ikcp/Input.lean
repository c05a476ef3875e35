import UdpKcp.Ikcp.Queues
import UdpKcp.Ikcp.Wire

/-! # Datagram input

`ikcp_input` reads segments off a datagram until fewer than 24 bytes are left or
a segment is malformed. Every segment updates the remote window and the send
buffer through its `una`; acknowledgements, data and window probes then take
their own branches. After the last segment the fast-ack counters and the
congestion window are brought up to date; an error return skips that tail.
-/

namespace UdpKcp.Ikcp

open ByteCodec (Bytes)

/-! ## Acknowledgements -/

/-- `ikcp_update_ack`. Products and sums are `int`, `delta` is `long`, and the
sum with `_imax_` is unsigned. -/
def ikcpUpdateAck (kcp : IKCPCB) (rtt : Int) : IKCPCB :=
  let kcp :=
    if kcp.rxSrtt = 0 then { kcp with rxSrtt := rtt, rxRttval := rtt.tdiv 2 }
    else
      let delta := toI32 (rtt - kcp.rxSrtt)
      let delta := if delta < 0 then -delta else delta
      let rttval := toI32 ((toI32 (3 * kcp.rxRttval) + delta).tdiv 4)
      let srtt := (toI32 (toI32 (7 * kcp.rxSrtt) + rtt)).tdiv 8
      { kcp with rxRttval := rttval, rxSrtt := if srtt < 1 then 1 else srtt }
  let rto := toU32 kcp.rxSrtt + imax kcp.interval (toU32 (toI32 (4 * kcp.rxRttval)))
  { kcp with rxRto := asI32 (ibound (toU32 kcp.rxMinrto) rto ikcpRtoMax) }

/-- `ikcp_shrink_buf`. -/
def ikcpShrinkBuf (kcp : IKCPCB) : IKCPCB :=
  { kcp with
    sndUna := match kcp.sndBuf with
      | seg :: _ => seg.sn
      | [] => kcp.sndNxt }

/-- The list walk of `ikcp_parse_ack`: delete the first match, stop at a larger number. -/
def removeAcked (sn : UInt32) : List IKCPSEG → List IKCPSEG
  | [] => []
  | seg :: next =>
      if sn = seg.sn then next
      else if itimediff sn seg.sn < 0 then seg :: next
      else seg :: removeAcked sn next

/-- `ikcp_parse_ack`. -/
def ikcpParseAck (kcp : IKCPCB) (sn : UInt32) : IKCPCB :=
  if itimediff sn kcp.sndUna < 0 ∨ itimediff sn kcp.sndNxt ≥ 0 then kcp
  else
    let sndBuf := removeAcked sn kcp.sndBuf
    { kcp with
      sndBuf := sndBuf
      nsndBuf := kcp.nsndBuf - (kcp.sndBuf.length - sndBuf.length) }

/-- The list walk of `ikcp_parse_una`: drop from the head while below `una`. -/
def dropUnacked (una : UInt32) : List IKCPSEG → List IKCPSEG
  | [] => []
  | seg :: next => if itimediff una seg.sn > 0 then dropUnacked una next else seg :: next

/-- `ikcp_parse_una`. -/
def ikcpParseUna (kcp : IKCPCB) (una : UInt32) : IKCPCB :=
  let sndBuf := dropUnacked una kcp.sndBuf
  { kcp with
    sndBuf := sndBuf
    nsndBuf := kcp.nsndBuf - (kcp.sndBuf.length - sndBuf.length) }

/-- The list walk of `ikcp_parse_fastack`. -/
def countFastack (sn : UInt32) : List IKCPSEG → List IKCPSEG
  | [] => []
  | seg :: next =>
      if itimediff sn seg.sn < 0 then seg :: next
      else if sn ≠ seg.sn then { seg with fastack := seg.fastack + 1 } :: countFastack sn next
      else seg :: countFastack sn next

/-- `ikcp_parse_fastack`, compiled without `IKCP_FASTACK_CONSERVE`: the time
stamp is not looked at. -/
def ikcpParseFastack (kcp : IKCPCB) (sn _ts : UInt32) : IKCPCB :=
  if itimediff sn kcp.sndUna < 0 ∨ itimediff sn kcp.sndNxt ≥ 0 then kcp
  else { kcp with sndBuf := countFastack sn kcp.sndBuf }

/-- `ikcp_ack_push`. -/
def ikcpAckPush (kcp : IKCPCB) (sn ts : UInt32) : IKCPCB :=
  { kcp with acklist := kcp.acklist ++ [(sn, ts)] }

/-! ## Data -/

/-- The insertion walk of `ikcp_parse_data` from the tail of `rcv_buf`, on the
reversed list: `none` when the number is already there. -/
def insertFromTail (newseg : IKCPSEG) : List IKCPSEG → Option (List IKCPSEG)
  | [] => some [newseg]
  | seg :: prev =>
      if seg.sn = newseg.sn then none
      else if itimediff newseg.sn seg.sn > 0 then some (newseg :: seg :: prev)
      else (insertFromTail newseg prev).map (seg :: ·)

/-- `ikcp_parse_data`. -/
def ikcpParseData (kcp : IKCPCB) (newseg : IKCPSEG) : IKCPCB :=
  if itimediff newseg.sn (kcp.rcvNxt + kcp.rcvWnd) ≥ 0 ∨ itimediff newseg.sn kcp.rcvNxt < 0 then
    kcp
  else
    let kcp :=
      match insertFromTail newseg kcp.rcvBuf.reverse with
      | some rcvBuf => { kcp with rcvBuf := rcvBuf.reverse, nrcvBuf := kcp.nrcvBuf + 1 }
      | none => kcp
    moveRcvBuf kcp

/-! ## ikcp_input -/

/-- The control block together with the locals of `ikcp_input` that live across
the loop: `flag`, `maxack` and `latest_ts`. -/
structure InputState where
  kcp : IKCPCB
  flag : Bool := false
  maxack : UInt32 := 0
  latestTs : UInt32 := 0

/-- The acknowledgement branch. -/
def inputAck (st : InputState) (h : SegHeader) : InputState :=
  let kcp := st.kcp
  let rtt := itimediff kcp.current h.ts
  let kcp := if rtt ≥ 0 then ikcpUpdateAck kcp rtt else kcp
  let kcp := ikcpShrinkBuf (ikcpParseAck kcp h.sn)
  if st.flag = false ∨ itimediff h.sn st.maxack > 0 then
    { kcp := kcp, flag := true, maxack := h.sn, latestTs := h.ts }
  else { st with kcp := kcp }

/-- The segment that the data branch copies out of the datagram. -/
def receivedSegment (h : SegHeader) (payload : Bytes) : IKCPSEG where
  conv := h.conv
  cmd := h.cmd.toUInt32
  frg := h.frg.toUInt32
  wnd := h.wnd.toUInt32
  ts := h.ts
  sn := h.sn
  una := h.una
  data := payload

/-- The data branch: acknowledge everything below the window's end, keep what is
inside the window. -/
def inputPush (kcp : IKCPCB) (h : SegHeader) (payload : Bytes) : IKCPCB :=
  if itimediff h.sn (kcp.rcvNxt + kcp.rcvWnd) < 0 then
    let kcp := ikcpAckPush kcp h.sn h.ts
    if itimediff h.sn kcp.rcvNxt ≥ 0 then ikcpParseData kcp (receivedSegment h payload) else kcp
  else kcp

/-- What every segment does before its own branch. -/
def inputCommon (kcp : IKCPCB) (h : SegHeader) : IKCPCB :=
  ikcpShrinkBuf (ikcpParseUna { kcp with rmtWnd := h.wnd.toUInt32 } h.una)

/-- One well-formed segment of the loop in `ikcp_input`. -/
def inputSegment (st : InputState) (h : SegHeader) (payload : Bytes) : InputState :=
  let st := { st with kcp := inputCommon st.kcp h }
  if h.cmd.toUInt32 = ikcpCmdAck then inputAck st h
  else if h.cmd.toUInt32 = ikcpCmdPush then { st with kcp := inputPush st.kcp h payload }
  else if h.cmd.toUInt32 = ikcpCmdWask then
    { st with kcp := { st.kcp with probe := st.kcp.probe ||| ikcpAskTell } }
  else st

def validCmd (cmd : UInt8) : Prop :=
  cmd.toUInt32 = ikcpCmdPush ∨ cmd.toUInt32 = ikcpCmdAck ∨ cmd.toUInt32 = ikcpCmdWask ∨
    cmd.toUInt32 = ikcpCmdWins

instance (cmd : UInt8) : Decidable (validCmd cmd) := by
  unfold validCmd
  infer_instance

/-- The loop of `ikcp_input`; every round uses up at least 24 bytes of `data`, so
fuel as long as the datagram is never exhausted. `some code` is an error return. -/
def inputLoop : Nat → InputState → Bytes → InputState × Option Int
  | 0, st, _ => (st, none)
  | fuel + 1, st, data =>
      if data.length < ikcpOverhead then (st, none)
      else
        let h := (decodeHeader data).1
        let body := (decodeHeader data).2
        if h.conv ≠ st.kcp.conv then (st, some (-1))
        else if body.length < h.len.toNat ∨ asI32 h.len < 0 then (st, some (-2))
        else if ¬ validCmd h.cmd then (st, some (-3))
        else
          inputLoop fuel (inputSegment st h (body.take h.len.toNat)) (body.drop h.len.toNat)

/-- Slow start below `ssthresh`, congestion avoidance above it. -/
def growCwnd (kcp : IKCPCB) : IKCPCB :=
  let mss := kcp.mss
  if kcp.cwnd < kcp.ssthresh then { kcp with cwnd := kcp.cwnd + 1, incr := kcp.incr + mss }
  else
    let incr := if kcp.incr < mss then mss else kcp.incr
    let incr := incr + ((mss * mss) / incr + mss / 16)
    if (kcp.cwnd + 1) * mss ≤ incr then
      { kcp with incr := incr, cwnd := (incr + mss - 1) / (if mss > 0 then mss else 1) }
    else { kcp with incr := incr }

/-- The congestion window update at the end of `ikcp_input`. -/
def inputCwnd (kcp : IKCPCB) (prevUna : UInt32) : IKCPCB :=
  if itimediff kcp.sndUna prevUna > 0 then
    if kcp.cwnd < kcp.rmtWnd then
      let kcp := growCwnd kcp
      if kcp.cwnd > kcp.rmtWnd then
        { kcp with cwnd := kcp.rmtWnd, incr := kcp.rmtWnd * kcp.mss }
      else kcp
    else kcp
  else kcp

/-- What `ikcp_input` does after the loop. -/
def inputTail (st : InputState) (prevUna : UInt32) : IKCPCB :=
  let kcp := if st.flag then ikcpParseFastack st.kcp st.maxack st.latestTs else st.kcp
  inputCwnd kcp prevUna

/-- `ikcp_input`: the block afterwards and the value returned. -/
def ikcpInput (kcp : IKCPCB) (data : Bytes) : IKCPCB × Int :=
  if data.length < ikcpOverhead then (kcp, -1)
  else
    match inputLoop data.length { kcp := kcp } data with
    | (st, none) => (inputTail st kcp.sndUna, 0)
    | (st, some code) => (st.kcp, code)

/-! ## Whole datagrams of whole segments -/

/-- A segment that a block with conversation id `conv` accepts. -/
structure Acceptable (conv : UInt32) (seg : IKCPSEG) : Prop extends seg.Encodable where
  conv_eq : seg.conv = conv
  cmd_valid : validCmd seg.cmd.toUInt8

/-- The loop state after a list of segments. -/
def inputSegments (st : InputState) (segs : List IKCPSEG) : InputState :=
  segs.foldl (fun st seg => inputSegment st seg.header seg.data) st

@[simp] theorem inputSegments_nil (st : InputState) : inputSegments st [] = st := rfl

@[simp] theorem inputSegments_cons (st : InputState) (seg : IKCPSEG) (segs : List IKCPSEG) :
    inputSegments st (seg :: segs) =
      inputSegments (inputSegment st seg.header seg.data) segs := rfl

end UdpKcp.Ikcp
