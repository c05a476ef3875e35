import UdpKcp.Wheel.Server

/-! # Dispatching events

`NetDispatch::Update` and the loop of `UDPServer::Update` in the Linux build: the first
collects what `epoll_wait` says of a socket in a mask, the second compares that
mask with the single events.
-/

namespace UdpKcp.Wheel

/-- A unit attached to the dispatcher: the server itself, or a client under its key. -/
inductive NetUnit where
  | listen
  | client (key : UInt32)
  deriving DecidableEq, Repr

/-- `ENE_READ`, `ENE_WRITE` and `ENE_CLOSE`. -/
def eneRead : UInt16 := 0x01
def eneWrite : UInt16 := 0x02
def eneClose : UInt16 := 0x04

/-- The bits of `epoll_event::events` that the code looks at. -/
def epollIn : UInt32 := 0x001
def epollOut : UInt32 := 0x004
def epollErr : UInt32 := 0x008
def epollHup : UInt32 := 0x010

structure EpollEvent where
  events : UInt32
  ptr : NetUnit
  deriving DecidableEq, Repr

def EpollEvent.has (e : EpollEvent) (bit : UInt32) : Bool := e.events &&& bit ≠ 0

structure NetEventInfo where
  evt : UInt16
  userdata : NetUnit

/-- The mask that `NetDispatch::Update` collects. -/
def EpollEvent.evt (e : EpollEvent) : UInt16 :=
  let evt := 0
  let evt := if e.has epollErr || e.has epollHup then evt ||| eneClose else evt
  let evt := if e.has epollIn then evt ||| eneRead else evt
  if e.has epollOut then evt ||| eneWrite else evt

def EpollEvent.info (e : EpollEvent) : NetEventInfo where
  evt := e.evt
  userdata := e.ptr

/-- `NetDispatch::Update`; `none` is an `epoll_wait` that fails. -/
def netDispatchUpdate (waited : Option (List EpollEvent)) : List NetEventInfo :=
  match waited with
  | none => []
  | some events => events.map EpollEvent.info

/-- The loop of `UDPServer::Update`, for any effect of `Recv` on a unit. The branches for
`ENE_WRITE`, `ENE_CLOSE` and everything else are empty. -/
def dispatch {σ : Type} (recv : σ → NetUnit → σ) : σ → List NetEventInfo → σ
  | s, [] => s
  | s, rInfo :: infos =>
      if rInfo.evt = eneRead then dispatch recv (recv s rInfo.userdata) infos
      else dispatch recv s infos

/-- The units that `Recv` is called on, in order. -/
def recvCalls (waited : Option (List EpollEvent)) : List NetUnit :=
  dispatch (fun calls unit => calls ++ [unit]) [] (netDispatchUpdate waited)

/-- The units that are readable, in the order of their events. -/
def readableUnits (events : List EpollEvent) : List NetUnit :=
  (events.filter (·.has epollIn)).map (·.ptr)

/-! ## What is dispatched -/

theorem dispatch_eq {σ : Type} (recv : σ → NetUnit → σ) (s : σ) (infos : List NetEventInfo) :
    dispatch recv s infos =
      ((infos.filter (·.evt = eneRead)).map (·.userdata)).foldl recv s := by
  induction infos generalizing s with
  | nil => rfl
  | cons rInfo infos ih =>
      unfold dispatch
      by_cases hread : rInfo.evt = eneRead
      · simp [hread, ih]
      · simp [hread, ih]

theorem foldl_log (units calls : List NetUnit) :
    units.foldl (fun calls unit => calls ++ [unit]) calls = calls ++ units := by
  induction units generalizing calls with
  | nil => simp
  | cons unit units ih => simp [ih]

/-- Whatever `Recv` does, a batch amounts to the calls of `Recv` it makes. -/
theorem dispatch_calls {σ : Type} (recv : σ → NetUnit → σ) (s : σ)
    (waited : Option (List EpollEvent)) :
    dispatch recv s (netDispatchUpdate waited) = (recvCalls waited).foldl recv s := by
  rw [recvCalls, dispatch_eq, dispatch_eq, foldl_log, List.nil_append]

/-- `EPOLLIN` and none of the other bits. -/
def EpollEvent.onlyIn (e : EpollEvent) : Bool :=
  e.has epollIn && !(e.has epollOut || e.has epollErr || e.has epollHup)

/-- The mask is `ENE_READ` itself exactly when nothing else was collected. -/
theorem evt_read_iff (e : EpollEvent) : e.evt = eneRead ↔ e.onlyIn = true := by
  unfold EpollEvent.evt EpollEvent.onlyIn
  cases e.has epollIn <;> cases e.has epollOut <;> cases e.has epollErr <;>
    cases e.has epollHup <;> decide

theorem recvCalls_eq (events : List EpollEvent) :
    recvCalls (some events) = (events.filter EpollEvent.onlyIn).map (·.ptr) := by
  have hmasks : (events.map EpollEvent.info).filter (·.evt = eneRead) =
      (events.filter EpollEvent.onlyIn).map EpollEvent.info := by
    rw [List.filter_map]
    congr 1
    apply List.filter_congr
    intro e _
    simp [EpollEvent.info, evt_read_iff]
  rw [recvCalls, netDispatchUpdate, dispatch_eq, foldl_log, List.nil_append, hmasks,
    List.map_map]
  rfl

/-- An event that would be read, were it for `EPOLLIN` alone. -/
theorem onlyIn_has {e : EpollEvent} (h : e.onlyIn = true) : e.has epollIn = true := by
  unfold EpollEvent.onlyIn at h
  simp only [Bool.and_eq_true] at h
  exact h.1

/-- For every batch, `Recv` is called once on each readable unit, in order, and on no other,
exactly when no event has another bit beside `EPOLLIN`. -/
theorem recvCalls_readable_iff (events : List EpollEvent) :
    recvCalls (some events) = readableUnits events ↔
      ∀ e ∈ events, e.has epollIn → ¬ (e.has epollOut ∨ e.has epollErr ∨ e.has epollHup) := by
  have honly : (∀ e ∈ events, e.has epollIn → ¬ (e.has epollOut ∨ e.has epollErr ∨
      e.has epollHup)) ↔ ∀ e ∈ events, e.onlyIn = e.has epollIn := by
    apply forall₂_congr
    intro e _
    unfold EpollEvent.onlyIn
    cases e.has epollIn <;> simp [not_or, and_assoc]
  rw [honly, recvCalls_eq, readableUnits]
  constructor
  · intro heq
    have hlen := congrArg List.length heq
    rw [List.length_map, List.length_map] at hlen
    have hsame : events.filter EpollEvent.onlyIn = events.filter (·.has epollIn) :=
      (List.monotone_filter_right events fun e => onlyIn_has).eq_of_length hlen
    intro e he
    refine Bool.eq_iff_iff.mpr ⟨onlyIn_has, fun hin => ?_⟩
    have hmem : e ∈ events.filter EpollEvent.onlyIn := by
      rw [hsame]
      exact List.mem_filter.mpr ⟨he, hin⟩
    exact (List.mem_filter.mp hmem).2
  · intro hall
    rw [List.filter_congr hall]

/-- A connected socket with a datagram and a pending error, as after a datagram that was
refused: nobody is called. -/
theorem recvCalls_readable_error :
    recvCalls (some [{ events := epollIn ||| epollErr, ptr := .client 7 }]) = [] ∧
      recvCalls (some [{ events := epollIn ||| epollErr, ptr := .client 7 }]) ≠
        readableUnits [{ events := epollIn ||| epollErr, ptr := .client 7 }] := by
  decide

end UdpKcp.Wheel
