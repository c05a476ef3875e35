import UdpKcp.Ikcp.Types

/-! # Sending into and receiving from the queues

`ikcp_send` cuts a message into segments at the tail of `snd_queue`;
`ikcp_peeksize` and `ikcp_recv` look at and take the message at the head of
`rcv_queue`. Receiving then moves segments that have become consecutive from
`rcv_buf`, a step that `ikcp_parse_data` shares.
-/

namespace UdpKcp.Ikcp

open ByteCodec (Bytes)

/-! ## ikcp_send -/

/-- The fragment loop of `ikcp_send`: `count` segments, numbered downwards
unless the block is in stream mode. -/
def sendFragments (mss : Nat) (stream : Int) : Nat → Bytes → List IKCPSEG
  | 0, _ => []
  | count + 1, buffer =>
      let size := if buffer.length > mss then mss else buffer.length
      { frg := if stream = 0 then UInt32.ofNat count else 0, data := buffer.take size } ::
        sendFragments mss stream count (buffer.drop size)

/-- The stream-mode prelude of `ikcp_send`: fill up the last queued segment.
Returns the new queue and what is left of the buffer. -/
def extendLast (kcp : IKCPCB) (buffer : Bytes) : List IKCPSEG × Bytes :=
  match kcp.sndQueue.getLast? with
  | none => (kcp.sndQueue, buffer)
  | some old =>
      if old.data.length < kcp.mss.toNat then
        let capacity := kcp.mss.toNat - old.data.length
        let extend := if buffer.length < capacity then buffer.length else capacity
        (kcp.sndQueue.dropLast ++ [{ frg := 0, data := old.data ++ buffer.take extend }],
          buffer.drop extend)
      else (kcp.sndQueue, buffer)

/-- `count` in `ikcp_send`. The unsigned sum `len + mss - 1` does not wrap for
any `int` length. -/
def sendCount (mss length : Nat) : Nat :=
  if length ≤ mss then 1 else (length + mss - 1) / mss

/-- `ikcp_send`, with allocation succeeding: `len` bytes at `buffer`. -/
def ikcpSend (kcp : IKCPCB) (buffer : Bytes) (len : Int) : Except Int IKCPCB :=
  if len < 0 then .error (-1)
  else
    let buffer := buffer.take len.toNat
    let (sndQueue, rest) :=
      if kcp.stream ≠ 0 then extendLast kcp buffer else (kcp.sndQueue, buffer)
    if kcp.stream ≠ 0 ∧ rest.length = 0 then .ok { kcp with sndQueue := sndQueue }
    else
      let count := sendCount kcp.mss.toNat rest.length
      if count ≥ ikcpWndRcv.toNat then .error (-2)
      else
        let count := if count = 0 then 1 else count
        .ok { kcp with
          sndQueue := sndQueue ++ sendFragments kcp.mss.toNat kcp.stream count rest
          nsndQue := kcp.nsndQue + count }

/-! ## ikcp_peeksize and ikcp_recv -/

/-- The walk of `ikcp_peeksize`: total length up to the first number zero. -/
def peekLength : List IKCPSEG → Int
  | [] => 0
  | seg :: p =>
      if seg.frg = 0 then (seg.data.length : Int) else seg.data.length + peekLength p

/-- `ikcp_peeksize`. -/
def ikcpPeeksize (kcp : IKCPCB) : Int :=
  match kcp.rcvQueue with
  | [] => -1
  | seg :: _ =>
      if seg.frg = 0 then (seg.data.length : Int)
      else if kcp.nrcvQue < (seg.frg + 1).toNat then -1
      else peekLength kcp.rcvQueue

/-- The merge walk of `ikcp_recv`: the segments merged and those left queued. -/
def mergeFragments : List IKCPSEG → List IKCPSEG × List IKCPSEG
  | [] => ([], [])
  | seg :: p =>
      if seg.frg = 0 then ([seg], p)
      else (seg :: (mergeFragments p).1, (mergeFragments p).2)

/-- The loop that moves available data from `rcv_buf` to `rcv_queue`: the
segments moved, which are consecutive from `rcvNxt`, and those left behind. -/
def moveAvailable (rcvWnd : UInt32) : UInt32 → Nat → List IKCPSEG → List IKCPSEG × List IKCPSEG
  | _, _, [] => ([], [])
  | rcvNxt, nrcvQue, seg :: rest =>
      if seg.sn = rcvNxt ∧ nrcvQue < rcvWnd.toNat then
        let moved := moveAvailable rcvWnd (rcvNxt + 1) (nrcvQue + 1) rest
        (seg :: moved.1, moved.2)
      else ([], seg :: rest)

/-- `rcv_buf -> rcv_queue` on the control block. -/
def moveRcvBuf (kcp : IKCPCB) : IKCPCB :=
  let moved := moveAvailable kcp.rcvWnd kcp.rcvNxt kcp.nrcvQue kcp.rcvBuf
  { kcp with
    rcvBuf := moved.2
    nrcvBuf := kcp.nrcvBuf - moved.1.length
    rcvQueue := kcp.rcvQueue ++ moved.1
    nrcvQue := kcp.nrcvQue + moved.1.length
    rcvNxt := kcp.rcvNxt + UInt32.ofNat moved.1.length }

/-- `ikcp_recv`: the error code, or the bytes merged into the buffer (their
number is the value returned) and the block afterwards. A negative `len` peeks. -/
def ikcpRecv (kcp : IKCPCB) (len : Int) : Except Int (Bytes × IKCPCB) :=
  if kcp.rcvQueue = [] then .error (-1)
  else
    let peeksize := ikcpPeeksize kcp
    if peeksize < 0 then .error (-2)
    else if peeksize > len.natAbs then .error (-3)
    else
      let recover := decide (kcp.nrcvQue ≥ kcp.rcvWnd.toNat)
      let merged := (mergeFragments kcp.rcvQueue).1
      let kcp :=
        if len < 0 then kcp
        else
          { kcp with
            rcvQueue := (mergeFragments kcp.rcvQueue).2
            nrcvQue := kcp.nrcvQue - merged.length }
      let kcp := moveRcvBuf kcp
      let kcp :=
        if kcp.nrcvQue < kcp.rcvWnd.toNat ∧ recover then
          { kcp with probe := kcp.probe ||| ikcpAskTell }
        else kcp
      .ok (merged.flatMap (·.data), kcp)

/-! ## Frames -/

@[simp] theorem moveRcvBuf_config (kcp : IKCPCB) : (moveRcvBuf kcp).config = kcp.config := rfl

theorem moveAvailable_append (rcvWnd rcvNxt : UInt32) (nrcvQue : Nat) (buf : List IKCPSEG) :
    (moveAvailable rcvWnd rcvNxt nrcvQue buf).1 ++ (moveAvailable rcvWnd rcvNxt nrcvQue buf).2 =
      buf := by
  induction buf generalizing rcvNxt nrcvQue with
  | nil => rfl
  | cons seg rest ih =>
      unfold moveAvailable
      split
      · simp [ih]
      · rfl

theorem mergeFragments_append (queue : List IKCPSEG) :
    (mergeFragments queue).1 ++ (mergeFragments queue).2 = queue := by
  induction queue with
  | nil => rfl
  | cons seg p ih =>
      unfold mergeFragments
      split
      · rfl
      · simp [ih]

end UdpKcp.Ikcp
