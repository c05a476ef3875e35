import UdpKcp.Library.ByteCodec
import UdpKcp.Library.Serial

/-! # Segments, control block and the arithmetic helpers

The fields follow `struct IKCPSEG` and `struct IKCPCB`. Unsigned 32-bit fields
are `UInt32`; `int` and `IINT32` fields are integers. A segment owns its
payload, so `len` is the length of `data`; the four queues and the ack list are
lists, so their counters are natural numbers. Fields that no modelled function
reads (`ts_recent`, `ts_lastack`, the log hooks, the scratch buffer) are absent.
-/

namespace UdpKcp.Ikcp

open ByteCodec (Bytes)

/-! ## Constants -/

def ikcpRtoNdl : Int := 30
def ikcpRtoMin : Int := 100
def ikcpRtoDef : Int := 200
def ikcpRtoMax : UInt32 := 60000
def ikcpCmdPush : UInt32 := 81
def ikcpCmdAck : UInt32 := 82
def ikcpCmdWask : UInt32 := 83
def ikcpCmdWins : UInt32 := 84
def ikcpAskSend : UInt32 := 1
def ikcpAskTell : UInt32 := 2
def ikcpWndSnd : UInt32 := 32
def ikcpWndRcv : UInt32 := 128
def ikcpMtuDef : UInt32 := 1400
def ikcpInterval : UInt32 := 100
def ikcpOverhead : Nat := 24
def ikcpDeadlink : UInt32 := 20
def ikcpThreshInit : UInt32 := 2
def ikcpThreshMin : UInt32 := 2
def ikcpProbeInit : UInt32 := 7000
def ikcpProbeLimit : UInt32 := 120000
def ikcpFastackLimit : Int := 5

/-! ## Arithmetic helpers -/

def imin (a b : UInt32) : UInt32 := if a ≤ b then a else b

def imax (a b : UInt32) : UInt32 := if a ≥ b then a else b

theorem imin_toNat (a b : UInt32) : (imin a b).toNat = min a.toNat b.toNat := by
  unfold imin
  split
  · rename_i hle
    exact (Nat.min_eq_left (UInt32.le_iff_toNat_le.mp hle)).symm
  · rename_i hgt
    rw [UInt32.le_iff_toNat_le] at hgt
    exact (Nat.min_eq_right (by omega)).symm

theorem imax_toNat (a b : UInt32) : (imax a b).toNat = max a.toNat b.toNat := by
  unfold imax
  split
  · rename_i hge
    exact (Nat.max_eq_left (UInt32.le_iff_toNat_le.mp hge)).symm
  · rename_i hlt
    rw [ge_iff_le, UInt32.le_iff_toNat_le] at hlt
    exact (Nat.max_eq_right (by omega)).symm

def ibound (lower middle upper : UInt32) : UInt32 := imin (imax lower middle) upper

/-- `(IINT32)(later - earlier)`. -/
def itimediff (later earlier : UInt32) : Int := Serial.diff later earlier

/-- Conversion to `IUINT32`: reduction modulo `2 ^ 32`. -/
def toU32 (x : Int) : UInt32 := UInt32.ofNat (x % 2 ^ 32).toNat

/-- Conversion to `IINT32`: the representative modulo `2 ^ 32` in the signed range.
Signed overflow is given the same two's complement value. -/
def toI32 (x : Int) : Int := Int.bmod x (2 ^ 32)

/-- Reading an unsigned word as a signed one. -/
def asI32 (x : UInt32) : Int := x.toBitVec.toInt

/-! ## Segments -/

structure IKCPSEG where
  conv : UInt32 := 0
  cmd : UInt32 := 0
  frg : UInt32 := 0
  wnd : UInt32 := 0
  ts : UInt32 := 0
  sn : UInt32 := 0
  una : UInt32 := 0
  resendts : UInt32 := 0
  rto : UInt32 := 0
  fastack : UInt32 := 0
  xmit : UInt32 := 0
  data : Bytes := []
  deriving Repr, DecidableEq

/-- `seg->len`, kept equal to the payload size wherever a segment is made. -/
def IKCPSEG.len (seg : IKCPSEG) : UInt32 := UInt32.ofNat seg.data.length

/-! ## Control block -/

structure IKCPCB where
  conv : UInt32
  mtu : UInt32
  mss : UInt32
  state : UInt32
  sndUna : UInt32
  sndNxt : UInt32
  rcvNxt : UInt32
  ssthresh : UInt32
  rxRttval : Int
  rxSrtt : Int
  rxRto : Int
  rxMinrto : Int
  sndWnd : UInt32
  rcvWnd : UInt32
  rmtWnd : UInt32
  cwnd : UInt32
  probe : UInt32
  current : UInt32
  interval : UInt32
  tsFlush : UInt32
  xmit : UInt32
  nrcvBuf : Nat
  nsndBuf : Nat
  nrcvQue : Nat
  nsndQue : Nat
  nodelay : UInt32
  updated : UInt32
  tsProbe : UInt32
  probeWait : UInt32
  deadLink : UInt32
  incr : UInt32
  sndQueue : List IKCPSEG
  rcvQueue : List IKCPSEG
  sndBuf : List IKCPSEG
  rcvBuf : List IKCPSEG
  /-- `(sn, ts)` of the segments to acknowledge, oldest first. -/
  acklist : List (UInt32 × UInt32)
  fastresend : Int
  fastlimit : Int
  nocwnd : Int
  stream : Int
  deriving Repr, DecidableEq

/-! ## Creation and settings -/

/-- `ikcp_create`, with allocation succeeding. -/
def ikcpCreate (conv : UInt32) : IKCPCB where
  conv := conv
  mtu := ikcpMtuDef
  mss := ikcpMtuDef - UInt32.ofNat ikcpOverhead
  state := 0
  sndUna := 0
  sndNxt := 0
  rcvNxt := 0
  ssthresh := ikcpThreshInit
  rxRttval := 0
  rxSrtt := 0
  rxRto := ikcpRtoDef
  rxMinrto := ikcpRtoMin
  sndWnd := ikcpWndSnd
  rcvWnd := ikcpWndRcv
  rmtWnd := ikcpWndRcv
  cwnd := 0
  probe := 0
  current := 0
  interval := ikcpInterval
  tsFlush := ikcpInterval
  xmit := 0
  nrcvBuf := 0
  nsndBuf := 0
  nrcvQue := 0
  nsndQue := 0
  nodelay := 0
  updated := 0
  tsProbe := 0
  probeWait := 0
  deadLink := ikcpDeadlink
  incr := 0
  sndQueue := []
  rcvQueue := []
  sndBuf := []
  rcvBuf := []
  acklist := []
  fastresend := 0
  fastlimit := ikcpFastackLimit
  nocwnd := 0
  stream := 0

/-- The interval accepted by `ikcp_nodelay`, between 10 and 5000 milliseconds. -/
def clampInterval (interval : Int) : Int :=
  if interval > 5000 then 5000 else if interval < 10 then 10 else interval

/-- `ikcp_nodelay`: a negative argument leaves its setting alone. -/
def ikcpNodelay (kcp : IKCPCB) (nodelay interval resend nc : Int) : IKCPCB :=
  let kcp :=
    if nodelay ≥ 0 then
      { kcp with
        nodelay := toU32 nodelay
        rxMinrto := if nodelay ≠ 0 then ikcpRtoNdl else ikcpRtoMin }
    else kcp
  let kcp := if interval ≥ 0 then { kcp with interval := toU32 (clampInterval interval) } else kcp
  let kcp := if resend ≥ 0 then { kcp with fastresend := resend } else kcp
  if nc ≥ 0 then { kcp with nocwnd := nc } else kcp

/-- `ikcp_wndsize`. -/
def ikcpWndsize (kcp : IKCPCB) (sndwnd rcvwnd : Int) : IKCPCB :=
  let kcp := if sndwnd > 0 then { kcp with sndWnd := toU32 sndwnd } else kcp
  if rcvwnd > 0 then { kcp with rcvWnd := imax (toU32 rcvwnd) ikcpWndRcv } else kcp

/-- `ikcp_setmtu`, with allocation succeeding; too small a value is refused with -1. -/
def ikcpSetmtu (kcp : IKCPCB) (mtu : Int) : Except Int IKCPCB :=
  if mtu < 50 ∨ mtu < ikcpOverhead then .error (-1)
  else .ok { kcp with mtu := toU32 mtu, mss := toU32 mtu - UInt32.ofNat ikcpOverhead }

/-! ## Settings that running the protocol never changes -/

/-- The fields that only `ikcp_create` and the setters write. -/
structure Config where
  conv : UInt32
  mtu : UInt32
  mss : UInt32
  rxMinrto : Int
  sndWnd : UInt32
  rcvWnd : UInt32
  interval : UInt32
  nodelay : UInt32
  deadLink : UInt32
  fastresend : Int
  fastlimit : Int
  nocwnd : Int
  stream : Int
  deriving DecidableEq

def IKCPCB.config (kcp : IKCPCB) : Config where
  conv := kcp.conv
  mtu := kcp.mtu
  mss := kcp.mss
  rxMinrto := kcp.rxMinrto
  sndWnd := kcp.sndWnd
  rcvWnd := kcp.rcvWnd
  interval := kcp.interval
  nodelay := kcp.nodelay
  deadLink := kcp.deadLink
  fastresend := kcp.fastresend
  fastlimit := kcp.fastlimit
  nocwnd := kcp.nocwnd
  stream := kcp.stream

end UdpKcp.Ikcp
