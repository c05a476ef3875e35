import UdpKcp.Wheel.Client

/-! # The plain build

`KcpRecv` and `UDPClient::Recv` as compiled without `USE_KCP_CONTROL_TRANSFORM`. The
datagram that came in through the server is copied to the client's buffer, and
those on the client's own socket are read behind it.
-/

namespace UdpKcp.Wheel

open ByteCodec (Bytes)
open Plug

/-- A byte and the index from `outbuff` that it is stored at. -/
abbrev Store := UInt8 × ℕ

/-- The stores of `memcpy`, or of `recv`, to the bytes from `index` on. -/
def storesAt (index : ℕ) (bytes : Bytes) : List Store := bytes.zipIdx index

/-- What the memory at `index` from `outbuff` holds after these stores, if one reached it. -/
def contents (stores : List Store) (index : ℕ) : Option UInt8 :=
  stores.foldl (fun old store => if store.2 = index then some store.1 else old) none

/-- The result of `KcpRecv`: the value returned, what `recv` brought, and all stores in
order. -/
structure PlainRecv where
  soc : Socket
  chunks : List Bytes
  stores : List Store
  ret : ℕ

/-- The loop is left. -/
def PlainRecv.stop (soc : Socket) (currLen : ℕ) : PlainRecv where
  soc := soc
  chunks := []
  stores := []
  ret := currLen

/-- The `while` loop of `KcpRecv`. -/
def plainLoop : Socket → ℕ → Int → PlainRecv
  | [], currLen, _ => .stop [] currLen
  | read :: soc, currLen, maxlen =>
      if maxlen > 0 then
        match sockRecv (read :: soc) maxlen.toNat with
        | (some n, _) =>
            if n.length > 0 then
              let rest := plainLoop soc (currLen + n.length) (maxlen - n.length)
              { rest with
                chunks := n :: rest.chunks
                stores := storesAt currLen n ++ rest.stores }
            else .stop soc currLen
        | (none, _) => .stop soc currLen
      else .stop (read :: soc) currLen

/-- `KcpRecv` of the plain build. -/
def plainKcpRecv (input : Option Bytes) (soc : Socket) (maxlen : Int) : PlainRecv :=
  match input with
  | some data =>
      let r := plainLoop soc data.length maxlen
      { r with stores := storesAt 0 data ++ r.stores }
  | none => plainLoop soc 0 maxlen

/-- `Recv` of the plain build up to `OnRecvData`: `CheckKcpPlug` returns false at once. -/
def UDPClient.plainRecv (c : UDPClient) (data : Option Bytes) (soc : Socket) : PlainRecv :=
  plainKcpRecv data soc c.getBuffLeftLen

/-- What is wanted of a `Recv` with room for `maxlen` bytes. -/
structure Bounded (data : Bytes) (maxlen : ℕ) (r : PlainRecv) : Prop where
  inside : ∀ store ∈ r.stores, store.2 < maxlen
  ret : r.ret ≤ maxlen
  bytes : (List.range r.ret).map (contents r.stores) = (data ++ r.chunks.flatten).map some

/-- The bytes that a socket holds up to the first read that brings none. -/
def pendingLength : Socket → ℕ
  | some d :: soc => if d.length > 0 then d.length + pendingLength soc else 0
  | none :: _ => 0
  | [] => 0

/-! ## The stores -/

theorem storesAt_append (index : ℕ) (xs ys : Bytes) :
    storesAt index (xs ++ ys) = storesAt index xs ++ storesAt (index + xs.length) ys :=
  List.zipIdx_append

/-- Later stores elsewhere leave a byte alone. -/
theorem contents_append_fresh (stores : List Store) {later : List Store} {index : ℕ}
    (h : ∀ store ∈ later, store.2 ≠ index) :
    contents (stores ++ later) index = contents stores index := by
  induction later using List.reverseRecOn with
  | nil => simp
  | append_singleton later store ih =>
      have hstore : store.2 ≠ index := h store (by simp)
      have hrest := ih fun s hs => h s (by simp [hs])
      rw [← List.append_assoc]
      simpa [contents, hstore] using hrest

/-- Bytes stored one after the other are read back in order. -/
theorem contents_storesAt (bytes : Bytes) :
    (List.range bytes.length).map (contents (storesAt 0 bytes)) = bytes.map some := by
  induction bytes using List.reverseRecOn with
  | nil => rfl
  | append_singleton bytes x ih =>
      have hlast : contents (storesAt 0 (bytes ++ [x])) bytes.length = some x := by
        rw [storesAt_append]
        simp [contents, storesAt]
      have hbefore : ∀ i ∈ List.range bytes.length,
          contents (storesAt 0 (bytes ++ [x])) i = contents (storesAt 0 bytes) i := by
        intro i hi
        rw [storesAt_append]
        apply contents_append_fresh
        have hlt := List.mem_range.mp hi
        simp [storesAt]
        omega
      rw [List.length_append, List.length_singleton, List.range_succ, List.map_append,
        List.map_congr_left hbefore, ih]
      simp [hlast]

/-- The loop stores what it reads behind what is there, and reads what is pending, cut
off where `maxlen` is used up. -/
theorem plainLoop_eq (soc : Socket) (currLen : ℕ) (maxlen : Int) :
    (plainLoop soc currLen maxlen).stores =
        storesAt currLen (plainLoop soc currLen maxlen).chunks.flatten ∧
      (plainLoop soc currLen maxlen).ret =
        currLen + (plainLoop soc currLen maxlen).chunks.flatten.length ∧
      (plainLoop soc currLen maxlen).chunks.flatten.length =
        min maxlen.toNat (pendingLength soc) := by
  induction soc generalizing currLen maxlen with
  | nil => simp [plainLoop, PlainRecv.stop, storesAt, pendingLength]
  | cons read soc ih =>
      unfold plainLoop
      by_cases hroom : maxlen > 0
      · rw [if_pos hroom]
        cases read with
        | none => simp [sockRecv, PlainRecv.stop, storesAt, pendingLength]
        | some d =>
            have htake : (d.take maxlen.toNat).length = min maxlen.toNat d.length :=
              List.length_take
            dsimp only [sockRecv]
            by_cases hsome : (d.take maxlen.toNat).length > 0
            · obtain ⟨hstores, hret, hlen⟩ := ih (currLen + (d.take maxlen.toNat).length)
                (maxlen - (d.take maxlen.toNat).length)
              rw [if_pos hsome]
              dsimp only
              rw [List.flatten_cons, storesAt_append, List.length_append, hstores, hret, hlen,
                pendingLength, if_pos (by omega)]
              exact ⟨rfl, by omega, by omega⟩
            · rw [if_neg hsome, pendingLength, if_neg (by omega)]
              simp [PlainRecv.stop, storesAt]
      · have hzero : maxlen.toNat = 0 := by omega
        rw [if_neg hroom, hzero]
        simp [PlainRecv.stop, storesAt]

/-- All stores of a `KcpRecv` with a datagram, and the value it returns. -/
theorem plainKcpRecv_eq (data : Bytes) (soc : Socket) (maxlen : Int) :
    ∃ chunks : List Bytes, (plainKcpRecv (some data) soc maxlen).chunks = chunks ∧
      (plainKcpRecv (some data) soc maxlen).stores = storesAt 0 (data ++ chunks.flatten) ∧
      (plainKcpRecv (some data) soc maxlen).ret = (data ++ chunks.flatten).length ∧
      chunks.flatten.length = min maxlen.toNat (pendingLength soc) := by
  obtain ⟨hstores, hret, hlen⟩ := plainLoop_eq soc data.length maxlen
  refine ⟨(plainLoop soc data.length maxlen).chunks, rfl, ?_, ?_, hlen⟩
  · simp [plainKcpRecv, storesAt_append, hstores]
  · simp [plainKcpRecv, hret]

/-! ## The client -/

/-- A client of the plain build receives within its buffer, whatever its socket holds,
exactly when it is given an empty datagram or the pending bytes fit behind the one it is
given. -/
theorem plainRecv_bounded_iff (addinfo : SockaddrIn) (soc : Handle) (tt : UDPClientType)
    {data : Bytes} (hdata : data.length ≤ 512) (sock : Socket) :
    Bounded data maxClientBuffLen
        (((newUDPClient addinfo soc).setClientType tt).plainRecv (some data) sock) ↔
      (data = [] ∨ data.length + pendingLength sock ≤ 512) := by
  have hmax : maxClientBuffLen = 512 := rfl
  have hleft : ((newUDPClient addinfo soc).setClientType tt).getBuffLeftLen = 512 := rfl
  unfold UDPClient.plainRecv
  rw [hleft, hmax]
  obtain ⟨chunks, hchunks, hstores, hret, hlen⟩ := plainKcpRecv_eq data sock 512
  rw [List.length_append] at hret
  have hroom : Int.toNat 512 = 512 := rfl
  rw [← List.length_eq_zero_iff]
  constructor
  · intro hbounded
    have hfits := hbounded.ret
    omega
  · intro hfits
    have htotal : (data ++ chunks.flatten).length ≤ 512 := by
      rw [List.length_append]
      omega
    refine ⟨?_, by omega, ?_⟩
    · intro store hstore
      rw [hstores] at hstore
      have hlt := (List.mem_zipIdx hstore).2.1
      omega
    · rw [hret, ← List.length_append, hstores, hchunks]
      exact contents_storesAt _

/-- Two bytes from the server and one from the socket. -/
theorem plainRecv_bounded_three :
    Bounded [1, 2] maxClientBuffLen
      (((newUDPClient ⟨0, 0⟩ 5).setClientType .accept).plainRecv (some [1, 2]) [some [3]]) :=
  (plainRecv_bounded_iff ⟨0, 0⟩ 5 .accept (by decide) [some [3]]).mpr (Or.inr (by decide))

/-- One byte from the server and 512 from the socket: 513 are stored and returned. -/
theorem plainRecv_bounded_full :
    (((newUDPClient ⟨0, 0⟩ 5).setClientType .accept).plainRecv (some [1])
        [some (List.replicate 512 0)]).ret = 513 ∧
      ¬ Bounded [1] maxClientBuffLen (((newUDPClient ⟨0, 0⟩ 5).setClientType .accept).plainRecv
        (some [1]) [some (List.replicate 512 0)]) := by
  have hret : (((newUDPClient ⟨0, 0⟩ 5).setClientType .accept).plainRecv (some [1])
      [some (List.replicate 512 0)]).ret = 513 := by decide +kernel
  refine ⟨hret, ?_⟩
  intro hbounded
  have hle := hbounded.ret
  rw [hret] at hle
  exact absurd hle (by decide)

end UdpKcp.Wheel
