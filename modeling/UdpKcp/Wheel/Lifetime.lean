import UdpKcp.Wheel.SystemCalls

/-! # The life of a process

Every descriptor is open for one reason: a unit will close it, or it could not be
bound. And whatever the dispatcher can report belongs to a unit that is alive.
-/

namespace UdpKcp.Wheel

open ByteCodec (Bytes)
open Ikcp Plug
open UDPClient (Same)

/-! ## Who holds a handle -/

namespace UDPServer

/-- The keys of the table with the handles of their clients. -/
def holders (s : UDPServer) : List (UInt32 × Handle) :=
  s.allClients.entries.map fun entry => (entry.1, entry.2.sock)

theorem handles_holders (s : UDPServer) :
    s.handles = s.holders.flatMap fun holder => heldHandle holder.2 := by
  unfold handles holders
  rw [List.flatMap_map]

theorem mem_holders {s : UDPServer} {key : UInt32} {fd : Handle} :
    (key, fd) ∈ s.holders ↔ ∃ c, s.allClients.lookup key = some c ∧ c.sock = fd := by
  unfold holders
  rw [List.mem_map]
  constructor
  · rintro ⟨⟨key', c⟩, hentry, heq⟩
    cases heq
    exact ⟨c, AList.mem_lookup_iff.mpr hentry, rfl⟩
  · rintro ⟨c, hget, rfl⟩
    exact ⟨⟨key, c⟩, AList.mem_lookup_iff.mp hget, rfl⟩

theorem holders_nodup (s : UDPServer) : s.holders.Nodup := by
  have hkeys : (s.holders.map Prod.fst).Nodup := by
    unfold holders
    rw [List.map_map]
    exact s.allClients.nodupKeys
  exact List.Nodup.of_map _ hkeys

/-- The clients of a table whose holders are known hold their handles. -/
theorem handles_perm {s : UDPServer} {holders : List (UInt32 × Handle)} (hnodup : holders.Nodup)
    (hmem : ∀ key fd, (key, fd) ∈ s.holders ↔ (key, fd) ∈ holders) :
    s.handles.Perm (holders.flatMap fun holder => heldHandle holder.2) := by
  rw [handles_holders]
  apply List.Perm.flatMap_right
  rw [List.perm_ext_iff_of_nodup s.holders_nodup hnodup]
  exact fun holder => hmem holder.1 holder.2

theorem handles_touched {s s' : UDPServer} (h : Touched s s') : s'.handles.Perm s.handles := by
  rw [s.handles_holders]
  apply handles_perm s.holders_nodup
  intro key fd
  rw [mem_holders, mem_holders]
  constructor
  · rintro ⟨c', hget, rfl⟩
    obtain ⟨c, hold, hsame⟩ := h.old key c' hget
    exact ⟨c, hold, hsame.sock.symm⟩
  · rintro ⟨c, hget, rfl⟩
    obtain ⟨c', hnew, hsame⟩ := h.new key c hget
    exact ⟨c', hnew, hsame.sock⟩

/-- A client under a new key brings its handle. -/
theorem handles_grown {s s' : UDPServer} {key : UInt32} {c : UDPClient}
    (hnone : s.allClients.lookup key = none)
    (htable : ∀ other, s'.allClients.lookup other =
      if other = key then some c else s.allClients.lookup other) :
    s'.handles.Perm (heldHandle c.sock ++ s.handles) := by
  have hfresh : (key, c.sock) ∉ s.holders := by
    rw [mem_holders]
    rintro ⟨old, hget, -⟩
    rw [hnone] at hget
    cases hget
  have hnodup := List.nodup_cons.mpr ⟨hfresh, s.holders_nodup⟩
  rw [s.handles_holders]
  apply handles_perm hnodup
  intro other fd
  rw [mem_holders, List.mem_cons, mem_holders, htable]
  by_cases hkey : other = key
  · subst hkey
    rw [if_pos rfl, hnone]
    simp [eq_comm]
  · rw [if_neg hkey]
    simp [hkey]

end UDPServer

namespace Process

/-- `fd` belongs to a living unit, the one that the dispatcher was given with it. Only the
server and the clients of its table are watched for `EPOLLIN`. -/
inductive Live (p : Process) (fd : Handle) : NetUnit × Bool → Prop where
  | listen {s : ServerObject} (hvalid : fd ≠ invalidSocket) (hs : p.server = some s)
      (hfd : s.sock = fd) (readable : Bool) : Live p fd (.listen, readable)
  | client {s : ServerObject} {key : UInt32} {c : UDPClient} (hvalid : fd ≠ invalidSocket)
      (hs : p.server = some s) (hget : s.clients.allClients.lookup key = some c)
      (hfd : c.sock = fd) (readable : Bool) : Live p fd (.client key, readable)
  | held {c : UDPClient} (hvalid : fd ≠ invalidSocket) (hc : c ∈ p.held) (hfd : c.sock = fd) :
      Live p fd (.client c.bigID, false)

/-- What a piece of the log does to descriptors and to the interest list, from `p` to `p'`. -/
structure Move (p p' : Process) (chunk : List Sys) : Prop where
  log : p'.log = p.log ++ chunk
  opens : ∀ (fds : Finset Handle) (rest : Multiset Handle), Fresh fds (fdEvents chunk) →
    fds.val = (p.handles : List Handle) + rest →
      (openAfter fds (fdEvents chunk)).val = (p'.handles ++ unbound chunk : List Handle) + rest
  once : ∀ (fds : Finset Handle) (rest : Multiset Handle), Granted chunk →
    Fresh fds (fdEvents chunk) → fds.val = (p.handles : List Handle) + rest →
      ClosesOpen fds (fdEvents chunk)
  live : ∀ i : Interest, (∀ fd x, i fd = some x → p.Live fd x) →
    ∀ fd x, i.after chunk fd = some x → p'.Live fd x

section Move

variable {p p' p'' : Process} {chunk chunk' : List Sys}

theorem Move.trans (h : Move p p' chunk) (h' : Move p' p'' chunk') :
    Move p p'' (chunk ++ chunk') := by
  have hrest : ∀ (fds : Finset Handle) (rest : Multiset Handle), Fresh fds (fdEvents chunk) →
      fds.val = (p.handles : List Handle) + rest →
        (openAfter fds (fdEvents chunk)).val =
          (p'.handles : List Handle) + ((unbound chunk : List Handle) + rest) := by
    intro fds rest hfresh hfds
    rw [h.opens fds rest hfresh hfds, ← Multiset.coe_add, Multiset.add_assoc]
  constructor
  · rw [h'.log, h.log, List.append_assoc]
  · intro fds rest hfresh hfds
    rw [fdEvents_append] at hfresh ⊢
    obtain ⟨hfirst, hsecond⟩ := (fresh_append _ _ _).mp hfresh
    rw [openAfter_append, h'.opens _ _ hsecond (hrest fds rest hfirst hfds), unbound_append,
      ← Multiset.coe_add, ← Multiset.coe_add, ← Multiset.coe_add, Multiset.add_assoc,
      Multiset.add_assoc]
    congr 1
    rw [add_left_comm, Multiset.add_assoc]
  · intro fds rest hgranted hfresh hfds
    rw [fdEvents_append] at hfresh ⊢
    obtain ⟨hfirst, hsecond⟩ := (fresh_append _ _ _).mp hfresh
    obtain ⟨hgrant, hgrant'⟩ := granted_append.mp hgranted
    rw [closesOpen_append]
    exact ⟨h.once fds rest hgrant hfirst hfds,
      h'.once _ _ hgrant' hsecond (hrest fds rest hfirst hfds)⟩
  · intro i hi fd x hx
    rw [Interest.after_append] at hx
    exact h'.live _ (h.live i hi) fd x hx

/-- Calls of `epoll_ctl` at most. -/
theorem Move.controls {fd : Handle} {unit : NetUnit} (hc : Controls fd unit chunk)
    (hlog : p'.log = p.log ++ chunk) (hhandles : p'.handles.Perm p.handles)
    (hlive : ∀ i : Interest, (∀ fd x, i fd = some x → p.Live fd x) →
      ∀ fd x, i.after chunk fd = some x → p'.Live fd x) : Move p p' chunk := by
  refine ⟨hlog, ?_, ?_, hlive⟩
  · intro fds rest hfresh hfds
    rw [hc.fdEvents, hc.unbound, List.append_nil, Multiset.coe_eq_coe.mpr hhandles]
    exact hfds
  · intro fds rest hgranted hfresh hfds
    rw [hc.fdEvents]
    exact True.intro

/-- No system call about descriptors, and the units stay what they are. -/
theorem Move.quiet (hlog : p'.log = p.log) (hhandles : p'.handles.Perm p.handles)
    (hlive : ∀ fd x, p.Live fd x → p'.Live fd x) : Move p p' [] :=
  @Move.controls p p' [] 0 .listen (List.forall_mem_nil _) (by rw [hlog, List.append_nil])
    hhandles fun i hi fd x hx => hlive fd x (hi fd x hx)

/-- A descriptor was dealt with. -/
theorem Move.ends {fd : Handle} {unit : NetUnit} {kept : Bool} (hends : Ends fd unit kept chunk)
    (hlog : p'.log = p.log ++ chunk)
    (hhandles : p'.handles.Perm ((if kept then heldHandle fd else []) ++ p.handles))
    (hlive : ∀ i : Interest, (∀ fd x, i fd = some x → p.Live fd x) →
      ∀ fd x, i.after chunk fd = some x → p'.Live fd x) : Move p p' chunk := by
  refine ⟨hlog, ?_, ?_, hlive⟩
  · intro fds rest hfresh hfds
    rw [hends.opens fds hfresh, hfds, ← Multiset.coe_add, ← Multiset.coe_add,
      Multiset.coe_eq_coe.mpr hhandles, ← Multiset.coe_add, Multiset.add_assoc, Multiset.add_assoc,
      Multiset.add_assoc]
    congr 1
    exact add_left_comm _ _ _
  · exact fun fds rest hgranted hfresh hfds => hends.once hgranted fds

theorem ends_live {fd : Handle} {unit : NetUnit} {kept : Bool} (hends : Ends fd unit kept chunk)
    (hlive : ∀ fd x, p.Live fd x → p'.Live fd x)
    (hnew : kept = true → fd ≠ invalidSocket → ∀ readable, p'.Live fd (unit, readable))
    {i : Interest}
    (hi : ∀ fd x, i fd = some x → p.Live fd x) :
    ∀ fd x, i.after chunk fd = some x → p'.Live fd x := by
  intro fd' x hx
  rcases hends.watched i fd' x hx with hx | ⟨hkept, rfl, hvalid, rfl⟩
  · exact hlive fd' x (hi fd' x hx)
  · exact hnew hkept hvalid x.2

end Move

/-- Closing handles that are open, each once. -/
theorem close_handles {hs : List Handle} {fds : Finset Handle} {rest : Multiset Handle}
    (hfds : fds.val = (hs : List Handle) + rest) :
    (openAfter fds (hs.map .closed)).val = rest ∧ ClosesOpen fds (hs.map .closed) := by
  induction hs generalizing fds with
  | nil => exact ⟨hfds.trans (Multiset.zero_add rest), True.intro⟩
  | cons fd hs ih =>
      have hcons : fds.val = fd ::ₘ ((hs : List Handle) + rest) := by
        rw [hfds, ← Multiset.cons_coe, Multiset.cons_add]
      have hmem : fd ∈ fds := by
        rw [← Finset.mem_val, hcons]
        exact Multiset.mem_cons_self _ _
      have herase : (fds.erase fd).val = (hs : List Handle) + rest := by
        rw [Finset.erase_val, hcons, Multiset.erase_cons_head]
      exact ⟨(ih herase).1, hmem, (ih herase).2⟩

theorem fdEvents_closed_map (hs : List Handle) :
    fdEvents (hs.map .closed) = hs.map .closed ∧ unbound (hs.map .closed) = [] := by
  induction hs with
  | nil => exact ⟨rfl, rfl⟩
  | cons fd hs ih => simp [ih.1, ih.2]

theorem forgotten_map {hs : List Handle} {i : Interest} {fd : Handle} {x : NetUnit × Bool}
    (hx : i.after (hs.map .closed) fd = some x) : fd ∉ hs ∧ i fd = some x := by
  induction hs generalizing i with
  | nil => exact ⟨List.not_mem_nil, hx⟩
  | cons closed hs ih =>
      obtain ⟨hrest, hx⟩ := ih hx
      obtain ⟨hne, hx⟩ := forgotten hx
      exact ⟨List.not_mem_cons_of_ne_of_not_mem hne hrest, hx⟩

/-- Units are destroyed, and their handles closed. -/
theorem Move.released {p p' : Process} {hs : List Handle}
    (hlog : p'.log = p.log ++ hs.map .closed) (hhandles : p.handles.Perm (hs ++ p'.handles))
    (hlive : ∀ fd x, fd ∉ hs → p.Live fd x → p'.Live fd x) : Move p p' (hs.map .closed) := by
  obtain ⟨hevents, hunbound⟩ := fdEvents_closed_map hs
  have hheld : ∀ {fds : Finset Handle} {rest : Multiset Handle},
      fds.val = (p.handles : List Handle) + rest →
        fds.val = (hs : List Handle) + ((p'.handles : List Handle) + rest) := by
    intro fds rest hfds
    rw [hfds, Multiset.coe_eq_coe.mpr hhandles, ← Multiset.coe_add, Multiset.add_assoc]
  refine ⟨hlog, ?_, ?_, ?_⟩
  · intro fds rest hfresh hfds
    rw [hevents, hunbound, List.append_nil]
    exact (close_handles (hheld hfds)).1
  · intro fds rest hgranted hfresh hfds
    rw [hevents]
    exact (close_handles (hheld hfds)).2
  · intro i hi fd x hx
    obtain ⟨hout, hx⟩ := forgotten_map hx
    exact hlive fd x hout (hi fd x hx)

/-! ## Steps -/

theorem Live.sock {p : Process} {fd : Handle} {x : NetUnit × Bool} (h : p.Live fd x)
    {p' : Process} (hserver : ∀ s, p.server = some s → ∃ s', p'.server = some s' ∧
      s'.sock = s.sock ∧ ∀ key c, s.clients.allClients.lookup key = some c →
        ∃ c', s'.clients.allClients.lookup key = some c' ∧ c'.sock = c.sock)
    (hheld : ∀ c ∈ p.held, ∃ c' ∈ p'.held, c'.sock = c.sock ∧ c'.bigID = c.bigID) :
    p'.Live fd x := by
  cases h with
  | listen hvalid hs hfd readable =>
      obtain ⟨s', hs', hsock, -⟩ := hserver _ hs
      exact .listen hvalid hs' (hsock.trans hfd) readable
  | client hvalid hs hget hfd readable =>
      obtain ⟨s', hs', -, hclients⟩ := hserver _ hs
      obtain ⟨c', hget', hsock⟩ := hclients _ _ hget
      exact .client hvalid hs' hget' (hsock.trans hfd) readable
  | held hvalid hc hfd =>
      obtain ⟨c', hc', hsock, hid⟩ := hheld _ hc
      rw [← hid]
      exact .held hvalid hc' (hsock.trans hfd)

theorem Live.relog {server : Option ServerObject} {held : List UDPClient} {log log' : List Sys}
    {fd : Handle} {x : NetUnit × Bool} (h : Live ⟨server, held, log⟩ fd x) :
    Live ⟨server, held, log'⟩ fd x :=
  h.sock (fun s hs => ⟨s, hs, rfl, fun _ c hget => ⟨c, hget, rfl⟩⟩)
    fun c hc => ⟨c, hc, rfl, rfl⟩

section Steps

variable {s : ServerObject} {held : List UDPClient} {log : List Sys}

theorem handles_some (s : ServerObject) (held : List UDPClient) (log : List Sys) :
    handles ⟨some s, held, log⟩ = heldHandle s.dispatch ++ heldHandle s.sock ++ s.clients.handles ++
      held.flatMap fun c => heldHandle c.sock := rfl

/-- The order of what is held does not matter. -/
theorem handles_inserted {front clients clients' new held : List Handle}
    (h : clients'.Perm (new ++ clients)) :
    (front ++ clients' ++ held).Perm (new ++ (front ++ clients ++ held)) := by
  have hall : (front ++ clients').Perm (new ++ (front ++ clients)) :=
    (h.append_left front).trans (List.perm_append_comm_assoc _ _ _)
  rw [← List.append_assoc new]
  exact hall.append_right held

theorem tryListen_move (calls : SockCalls) :
    Move ⟨some s, held, log⟩
      ⟨some (s.tryListen calls).server, held, log ++ (s.tryListen calls).log⟩
      (s.tryListen calls).log := by
  by_cases hsock : s.sock = invalidSocket
  · obtain ⟨kept, hends, hclients, hdispatch, hnew⟩ := s.tryListen_ends hsock calls
    generalize s.tryListen calls = listened at *
    refine Move.ends hends rfl ?_ fun i => ends_live hends ?_ ?_
    · rw [handles_some, handles_some, hclients, hdispatch, hnew, hsock]
      cases kept with
      | false => simp [heldHandle]
      | true =>
          simp only [heldHandle, if_true, List.append_nil, List.append_assoc]
          exact (List.perm_append_comm_assoc _ _ _)
    · intro fd x hx
      cases hx with
      | listen hvalid hs hfd readable =>
          cases hs
          exact absurd (hfd.symm.trans hsock) hvalid
      | client hvalid hs hget hfd readable =>
          cases hs
          exact .client hvalid rfl (by rw [hclients]; exact hget) hfd readable
      | held hvalid hc hfd => exact .held hvalid hc hfd
    · intro hkept hvalid readable
      exact .listen hvalid rfl (by rw [hnew, if_pos hkept]) readable
  · have hsame : s.tryListen calls = { server := s, log := [], ret := false } := if_pos hsock
    rw [hsame, List.append_nil]
    exact Move.quiet rfl (List.Perm.refl _) fun fd x hx => hx

/-- The clients of the first table are in the second, with their handles. -/
def Keeps (s s' : UDPServer) : Prop :=
  ∀ key c, s.allClients.lookup key = some c →
    ∃ c', s'.allClients.lookup key = some c' ∧ c'.sock = c.sock

theorem keeps_touched {clients clients' : UDPServer} (h : Touched clients clients') :
    Keeps clients clients' := by
  intro key c hget
  obtain ⟨c', hget', hsame⟩ := h.new key c hget
  exact ⟨c', hget', hsame.sock⟩

theorem keeps_grown {clients clients' : UDPServer} {key : UInt32} {c : UDPClient}
    (hnone : clients.allClients.lookup key = none)
    (htable : ∀ other, clients'.allClients.lookup other =
      if other = key then some c else clients.allClients.lookup other) :
    Keeps clients clients' := by
  intro other old hget
  have hne : other ≠ key := by
    rintro rfl
    rw [hnone] at hget
    cases hget
  exact ⟨old, by rw [htable, if_neg hne]; exact hget, rfl⟩

theorem recv_keeps {clients : UDPServer} {calls : SockCalls}
    {read : Option (Bytes × SockaddrIn)} {soc : Socket} {res : UDPServer.Dispatched}
    (h : clients.recv calls read soc = some res) : Keeps clients res.server := by
  cases read with
  | none =>
      cases h
      exact keeps_touched (Touched.refl clients)
  | some datagram =>
      have hcontacted := onRecvByAddr_contacted h
      generalize res.server = clients' at hcontacted ⊢
      generalize res.client.isSome = answered at hcontacted
      generalize res.fds = fds at hcontacted
      cases hcontacted with
      | found hget ht => exact keeps_touched ht
      | refused hnone hout hnull => exact keeps_touched (Touched.refl clients)
      | attached hnone hcalls hsame htable => exact keeps_grown hnone htable

/-- Units stay alive when the table of the server keeps its clients. -/
theorem Live.keeps {clients : UDPServer} {log' : List Sys} {fd : Handle} {x : NetUnit × Bool}
    (h : Live ⟨some s, held, log⟩ fd x) (hkeeps : Keeps s.clients clients) :
    Live ⟨some { s with clients := clients }, held, log'⟩ fd x := by
  apply h.sock
  · intro s' hs'
    cases hs'
    exact ⟨_, rfl, rfl, hkeeps⟩
  · exact fun c hc => ⟨c, hc, rfl, rfl⟩

/-- The clients of the table are the same ones, in another state. -/
theorem touched_move {clients : UDPServer} (h : Touched s.clients clients) :
    Move ⟨some s, held, log⟩ ⟨some { s with clients := clients }, held, log⟩ [] := by
  refine Move.quiet rfl ?_ fun fd x hx => hx.keeps (keeps_touched h)
  rw [handles_some, handles_some]
  exact ((UDPServer.handles_touched h).append_left _).append_right _

theorem recv_move {calls : SockCalls} {read : Option (Bytes × SockaddrIn)} {soc : Socket}
    {res : UDPServer.Dispatched} (h : s.clients.recv calls read soc = some res) :
    Move ⟨some s, held, log⟩
      ⟨some { s with clients := res.server }, held, log ++ s.clients.recvLog calls read⟩
      (s.clients.recvLog calls read) := by
  cases read with
  | none =>
      cases h
      show Move ⟨some s, held, log⟩ ⟨some s, held, log ++ []⟩ []
      rw [List.append_nil]
      exact touched_move (Touched.refl s.clients)
  | some datagram =>
      obtain ⟨d, addr⟩ := datagram
      have hcontacted := onRecvByAddr_contacted h
      generalize res.server = clients at hcontacted ⊢
      generalize res.client.isSome = answered at hcontacted
      generalize res.fds = fds at hcontacted
      cases hcontacted with
      | found hget ht =>
          rw [UDPServer.recvLog_found hget, List.append_nil]
          exact touched_move ht
      | refused hnone hout hnull =>
          rw [UDPServer.recvLog_new hnone]
          have hends := UDPServer.newNetClientLog_ends calls hnone
          rw [(newNetClient_outcome calls hnone).isSome_eq, ← hout.isSome_eq, hnull] at hends
          exact Move.ends hends rfl (List.Perm.refl _) fun i =>
            ends_live hends (fun fd x hx => hx.relog) Bool.noConfusion
      | @attached c _ hnone hcalls hsame htable =>
          rw [UDPServer.recvLog_new hnone]
          have hends := UDPServer.newNetClientLog_ends calls hnone
          rw [(newNetClient_outcome calls hnone).isSome_eq, decide_eq_true hcalls] at hends
          have hsock : c.sock = calls.socket := hsame.sock
          refine Move.ends hends rfl ?_ fun i => ends_live hends ?_ ?_
          · rw [handles_some, handles_some, if_pos rfl, ← hsock]
            exact handles_inserted (UDPServer.handles_grown hnone htable)
          · exact fun fd x hx => hx.keeps (keeps_grown hnone htable)
          · exact fun _ hvalid readable =>
              .client hvalid rfl (by rw [htable, if_pos rfl]) hsock readable

/-- One `Recv` in the loop of `UDPServer::Update`. -/
theorem round_move {r r' : Round} {unit : NetUnit} (h : r.recv unit = .ok r') :
    ∃ chunk, r'.log = r.log ++ chunk ∧ ∀ log, Move ⟨some { s with clients := r.clients }, held, log⟩
      ⟨some { s with clients := r'.clients }, held, log ++ chunk⟩ chunk := by
  unfold Round.recv at h
  dsimp only at h
  cases unit with
  | listen =>
      dsimp only at h
      split at h
      · cases h
      · cases h
        rename_i res hrecv
        exact ⟨_, rfl, fun log => @recv_move { s with clients := r.clients } held log _ _ _ _ hrecv⟩
  | client key =>
      dsimp only at h
      split at h
      · cases h
      · rename_i c hget
        split at h
        · cases h
        · cases h
          rename_i res hrecv
          unfold UDPServer.recvClient at hrecv
          obtain ⟨rc, hrc, hres⟩ := Option.bind_eq_some_iff.mp hrecv
          cases hres
          refine ⟨[], (List.append_nil _).symm, fun log => ?_⟩
          rw [List.append_nil]
          exact @touched_move { s with clients := r.clients } held log _
            (Touched.put hget (Same.recv hrc))

theorem rounds_error (units : List NetUnit) (fault : Fault) :
    units.foldl Round.next (.error fault) = .error fault := by
  induction units with
  | nil => rfl
  | cons unit units ih => exact ih

theorem rounds_move (units : List NetUnit) {r r' : Round}
    (h : units.foldl Round.next (.ok r) = .ok r') :
    ∃ chunk, r'.log = r.log ++ chunk ∧ ∀ log, Move ⟨some { s with clients := r.clients }, held, log⟩
      ⟨some { s with clients := r'.clients }, held, log ++ chunk⟩ chunk := by
  induction units generalizing r with
  | nil =>
      cases h
      refine ⟨[], (List.append_nil _).symm, fun log => ?_⟩
      rw [List.append_nil]
      exact @touched_move { s with clients := r'.clients } held log _ (Touched.refl r'.clients)
  | cons unit units ih =>
      rw [List.foldl_cons] at h
      cases hrecv : r.recv unit with
      | error fault =>
          have hfault : units.foldl Round.next (r.recv unit) = .ok r' := h
          rw [hrecv, rounds_error] at hfault
          cases hfault
      | ok mid =>
          have hrest : units.foldl Round.next (.ok mid) = .ok r' := by
            rw [← hrecv]
            exact h
          obtain ⟨chunk, hlog, hmove⟩ := @round_move s held _ _ _ hrecv
          obtain ⟨chunk', hlog', hmove'⟩ := ih hrest
          refine ⟨chunk ++ chunk', ?_, fun log => ?_⟩
          · rw [hlog', hlog, List.append_assoc]
          · rw [← List.append_assoc]
            exact (hmove log).trans (hmove' (log ++ chunk))

/-- The calls of `Recv` that an `Update` makes. -/
def updateRounds (s : ServerObject) (dlt : UInt32) (waited : Option (List EpollEvent))
    (answers : List RecvAnswers) : Except Fault Round :=
  (recvCalls waited).foldl Round.next
    (.ok { clients := s.clients.updateClient dlt, log := [], answers := answers })

theorem update_rounds (s : ServerObject) (dlt : UInt32) (waited : Option (List EpollEvent))
    (answers : List RecvAnswers) :
    s.update dlt waited answers = (updateRounds s dlt waited answers).bind fun r =>
      .ok ({ s with clients := r.clients }, r.log) := by
  unfold ServerObject.update updateRounds
  rw [dispatch_calls]
  rfl

theorem update_move {s' : ServerObject} {chunk : List Sys} {dlt : UInt32}
    {waited : Option (List EpollEvent)} {answers : List RecvAnswers}
    (h : s.update dlt waited answers = .ok (s', chunk)) :
    Move ⟨some s, held, log⟩ ⟨some s', held, log ++ chunk⟩ chunk := by
  rw [update_rounds] at h
  cases hrounds : updateRounds s dlt waited answers with
  | error fault =>
      rw [hrounds] at h
      cases h
  | ok r =>
      rw [hrounds] at h
      cases h
      obtain ⟨chunk, hlog, hmove⟩ := @rounds_move s held _ _ _ hrounds
      have hchunk : r.log = chunk := hlog
      have hupdated := @touched_move s held log _ (Touched.updateClient s.clients dlt)
      rw [hchunk]
      exact hupdated.trans (hmove log)

theorem tryConnect_move {server : Option ServerObject} (calls : ConnectCalls)
    (myAddr : SockaddrIn) :
    Move ⟨server, held, log⟩ ⟨server, (Wheel.tryConnect calls myAddr).1.toList ++ held,
      log ++ (Wheel.tryConnect calls myAddr).2⟩ (Wheel.tryConnect calls myAddr).2 := by
  obtain ⟨made, chunk, hmade, hends, hsock⟩ := tryConnect_ends calls myAddr
  rw [hmade]
  refine Move.ends (hends .listen) rfl ?_ ?_
  · cases made with
    | none => exact List.Perm.refl _
    | some c =>
        have hfd : c.sock = calls.socket := hsock c rfl
        simp only [handles, Option.toList_some, List.singleton_append, List.flatMap_cons,
          Option.isSome_some, if_true, hfd]
        exact List.perm_append_comm_assoc _ _ _
  · intro i hi fd x hx
    have hold : i fd = some x := by
      rcases (hends .listen).watched i fd x hx with hx | ⟨-, -, -, hlisten⟩
      · exact hx
      · rcases (hends (.client 0)).watched i fd x hx with hx | ⟨-, -, -, hclient⟩
        · exact hx
        · rw [hlisten] at hclient
          cases hclient
    apply (hi fd x hold).sock
    · exact fun s hs => ⟨s, hs, rfl, fun _ c hget => ⟨c, hget, rfl⟩⟩
    · exact fun c hc => ⟨c, List.mem_append_right _ hc, rfl, rfl⟩

theorem callHeld_move {server : Option ServerObject} {before after : List UDPClient}
    {c c' : UDPClient} (hsame : Same c c') :
    Move ⟨server, before ++ c :: after, log⟩ ⟨server, before ++ c' :: after, log⟩ [] := by
  refine Move.quiet rfl ?_ fun fd x hx => ?_
  · simp only [handles, List.flatMap_append, List.flatMap_cons, hsame.sock]
    exact List.Perm.refl _
  · apply hx.sock
    · exact fun s hs => ⟨s, hs, rfl, fun _ c hget => ⟨c, hget, rfl⟩⟩
    · intro d hd
      rcases List.mem_append.mp hd with hd | hd
      · exact ⟨d, List.mem_append_left _ hd, rfl, rfl⟩
      · rcases List.mem_cons.mp hd with rfl | hd
        · exact ⟨c', List.mem_append_right _ List.mem_cons_self, hsame.sock, hsame.bigID⟩
        · exact ⟨d, List.mem_append_right _ (List.mem_cons_of_mem _ hd), rfl, rfl⟩

/-- The handle of one client among those that the application holds. -/
theorem held_perm (server : Option ServerObject) (before after : List UDPClient) (c : UDPClient)
    (log log' : List Sys) :
    (handles ⟨server, before ++ c :: after, log⟩).Perm
      (heldHandle c.sock ++ handles ⟨server, before ++ after, log'⟩) := by
  simp only [handles, List.flatMap_append, List.flatMap_cons]
  rw [← List.append_assoc]
  exact (List.perm_append_comm_assoc _ _ _).trans (by rw [List.append_assoc])

theorem mem_heldHandle {fd sock : Handle} (hvalid : fd ≠ invalidSocket) (h : sock = fd) :
    fd ∈ heldHandle sock := by
  subst h
  unfold heldHandle
  rw [if_neg hvalid]
  exact List.mem_singleton_self _

theorem delete_move {server : Option ServerObject} {before after : List UDPClient}
    {c : UDPClient} :
    Move ⟨server, before ++ c :: after, log⟩
      ⟨server, before ++ after, log ++ destroyUnit c.getHandle⟩ (destroyUnit c.getHandle) := by
  refine Move.released rfl (held_perm server before after c _ _) fun fd x hout hx => ?_
  cases hx with
  | listen hvalid hs hfd readable =>
      have hserver : server = some _ := hs
      exact .listen hvalid hserver hfd readable
  | client hvalid hs hget hfd readable =>
      have hserver : server = some _ := hs
      exact .client hvalid hserver hget hfd readable
  | @held d hvalid hd hfd =>
      apply Live.held hvalid _ hfd
      rcases List.mem_append.mp hd with hd | hd
      · exact List.mem_append_left _ hd
      · rcases List.mem_cons.mp hd with rfl | hd
        · exact absurd (mem_heldHandle hvalid hfd) hout
        · exact List.mem_append_right _ hd

theorem destroy_move :
    Move ⟨some s, held, log⟩ ⟨none, held, log ++ s.destroyLog⟩ s.destroyLog := by
  have hlog : s.destroyLog =
      (s.clients.handles ++ heldHandle s.dispatch ++ heldHandle s.sock).map .closed := by
    unfold ServerObject.destroyLog destroyUnit
    rw [List.map_append, List.map_append]
  rw [hlog]
  refine Move.released rfl ?_ fun fd x hout hx => ?_
  · rw [handles_some, List.append_assoc (s.clients.handles)]
    exact List.perm_append_comm.append_right _
  · simp only [List.mem_append, not_or] at hout
    cases hx with
    | listen hvalid hs hfd readable =>
        cases hs
        exact absurd (mem_heldHandle hvalid hfd) hout.2
    | @client _ key c hvalid hs hget hfd readable =>
        cases hs
        have hmem : fd ∈ s.clients.handles := by
          rw [UDPServer.handles_holders]
          exact List.mem_flatMap.mpr
            ⟨(key, fd), UDPServer.mem_holders.mpr ⟨c, hget, hfd⟩, mem_heldHandle hvalid rfl⟩
        exact absurd hmem hout.1.1
    | held hvalid hc hfd => exact .held hvalid hc hfd

/-- A refused client stays with the application, and is watched for nothing that is read. -/
theorem refused_watched {clients : UDPServer} {calls : SockCalls} {c : UDPClient}
    (hrefused : (clients.attachNetClient calls c).2 = false) {i : Interest} {fd : Handle}
    {x : NetUnit × Bool} (hx : i.after (clients.attachLog calls c) fd = some x) :
    i fd = some x ∨
      (fd = c.getHandle ∧ c.getHandle ≠ invalidSocket ∧ x = (.client c.getUniqueID, false)) := by
  unfold UDPServer.attachNetClient at hrefused
  unfold UDPServer.attachLog at hx
  cases hget : clients.allClients.lookup c.getUniqueID with
  | some _ =>
      rw [hget] at hx
      exact Or.inl hx
  | none =>
      rw [hget] at hx hrefused
      cases hattach : calls.attach with
      | false =>
          rw [hattach] at hx
          exact Or.inl hx
      | true =>
          cases hctl : calls.ctl with
          | true =>
              simp only [hattach, hctl, if_true] at hrefused
              cases hrefused
          | false =>
              rw [hattach, hctl] at hx
              exact Interest.set_some hx

theorem attach_move {before after : List UDPClient} {c : UDPClient} (calls : SockCalls) :
    Move ⟨some s, before ++ c :: after, log⟩
      ⟨some { s with clients := (s.clients.attachNetClient calls c).1 },
        if (s.clients.attachNetClient calls c).2 then before ++ after else before ++ c :: after,
        log ++ s.clients.attachLog calls c⟩ (s.clients.attachLog calls c) := by
  have hcontrols := s.clients.attachLog_controls calls c
  cases hattached : (s.clients.attachNetClient calls c).2 with
  | false =>
      have hsame : (s.clients.attachNetClient calls c).1 = s.clients :=
        UDPServer.attachNetClient_refused hattached
      rw [hsame, if_neg Bool.noConfusion]
      refine Move.controls hcontrols rfl (List.Perm.refl _) fun i hi fd x hx => ?_
      rcases refused_watched hattached hx with hx | ⟨rfl, hvalid, rfl⟩
      · exact (hi fd x hx).relog
      · exact .held hvalid (List.mem_append_right _ List.mem_cons_self) rfl
  | true =>
      obtain ⟨hnone, hput⟩ := UDPServer.attachNetClient_done hattached
      have htable := s.clients.put_lookup c.getUniqueID c
      rw [hput, if_pos rfl]
      refine Move.controls hcontrols rfl ?_ fun i hi fd x hx => ?_
      · have hgrown := UDPServer.handles_grown hnone htable
        refine List.Perm.trans ?_ (held_perm (some s) before after c log log).symm
        rw [handles_some, handles_some]
        exact handles_inserted hgrown
      · rcases hcontrols.watched hx with hx | ⟨rfl, hvalid, hunit⟩
        · cases hi fd x hx with
          | listen hvalid hs hfd readable =>
              cases hs
              refine .listen hvalid rfl ?_ readable
              exact hfd
          | @client _ key d hvalid hs hget hfd readable =>
              cases hs
              have hne : key ≠ c.getUniqueID := by
                rintro rfl
                rw [hnone] at hget
                cases hget
              exact .client hvalid rfl (by rw [htable, if_neg hne]; exact hget) hfd readable
          | @held d hvalid hd hfd =>
              rcases List.mem_append.mp hd with hd | hd
              · exact .held hvalid (List.mem_append_left _ hd) hfd
              · rcases List.mem_cons.mp hd with rfl | hd
                · exact .client hvalid rfl (by rw [htable]; exact if_pos rfl) hfd false
                · exact .held hvalid (List.mem_append_right _ hd) hfd
        · obtain ⟨unit, readable⟩ := x
          cases hunit
          exact .client hvalid rfl (by rw [htable, if_pos rfl]) rfl readable

end Steps

theorem Step.move {p p' : Process} (h : Step p p') : ∃ chunk, Move p p' chunk := by
  cases h with
  | tryListen calls => exact ⟨_, tryListen_move calls⟩
  | update dlt waited answers hreported hupdate => exact ⟨_, update_move hupdate⟩
  | call hget call hcall => exact ⟨_, touched_move (Touched.put hget (Same.call hcall))⟩
  | tryConnect calls myAddr => exact ⟨_, tryConnect_move calls myAddr⟩
  | callHeld call hcall => exact ⟨_, callHeld_move (Same.call hcall)⟩
  | attach calls => exact ⟨_, attach_move calls⟩
  | delete => exact ⟨_, delete_move⟩
  | destroy => exact ⟨_, destroy_move⟩

/-! ## Whole lives -/

/-- The log of a process explains its descriptors and its interest list. -/
structure Explained (p : Process) : Prop where
  opens : Fresh ∅ (fdEvents p.log) →
    (openFds p.log).val = (p.handles ++ unbound p.log : List Handle)
  once : Granted p.log → Fresh ∅ (fdEvents p.log) → ClosesOpen ∅ (fdEvents p.log)
  live : ∀ fd x, interest p.log fd = some x → p.Live fd x

theorem Explained.start {dispatch : Handle} (h : dispatch ≠ invalidSocket) :
    Explained (start dispatch) := by
  have hevents : fdEvents [.opened dispatch] = [.opened dispatch] := by
    rw [fdEvents_opened dispatch _ h]
    rfl
  have hhandles : (Process.start dispatch).handles = [dispatch] := by
    show heldHandle dispatch ++ heldHandle invalidSocket ++ UDPServer.start.handles ++ [] = _
    have hheld : heldHandle dispatch = [dispatch] := if_neg h
    have hnone : heldHandle invalidSocket = [] := if_pos rfl
    rw [hheld, hnone]
    rfl
  constructor
  · intro hfresh
    rw [hhandles]
    show (openAfter ∅ (fdEvents [.opened dispatch])).val = _
    rw [hevents]
    rfl
  · intro hgranted hfresh
    show ClosesOpen ∅ (fdEvents [.opened dispatch])
    rw [hevents]
    exact True.intro
  · intro fd x hx
    cases hx

theorem Explained.move {p p' : Process} {chunk : List Sys} (h : Explained p)
    (hmove : Move p p' chunk) : Explained p' := by
  have hlog := hmove.log
  have hsplit : Fresh ∅ (fdEvents p'.log) →
      Fresh ∅ (fdEvents p.log) ∧ Fresh (openFds p.log) (fdEvents chunk) := by
    rw [hlog, fdEvents_append]
    exact (fresh_append _ _ _).mp
  constructor
  · intro hfresh
    obtain ⟨hbefore, hafter⟩ := hsplit hfresh
    have hopens := h.opens hbefore
    rw [← Multiset.coe_add] at hopens
    rw [hlog, openFds_append, hmove.opens _ _ hafter hopens, unbound_append, ← Multiset.coe_add,
      ← Multiset.coe_add, ← Multiset.coe_add, Multiset.add_assoc]
    congr 1
    exact Multiset.add_comm _ _
  · intro hgranted hfresh
    obtain ⟨hbefore, hafter⟩ := hsplit hfresh
    have hopens := h.opens hbefore
    rw [← Multiset.coe_add] at hopens
    rw [hlog] at hgranted ⊢
    obtain ⟨hgrant, hgrant'⟩ := granted_append.mp hgranted
    rw [fdEvents_append, closesOpen_append]
    exact ⟨h.once hgrant hbefore, hmove.once _ _ hgrant' hafter hopens⟩
  · intro fd x hx
    rw [hlog, interest_append] at hx
    exact hmove.live _ h.live fd x hx

theorem Reachable.explained {p : Process} (h : p.Reachable) : Explained p := by
  obtain ⟨dispatch, hvalid, hrun⟩ := h
  induction hrun with
  | refl => exact Explained.start hvalid
  | tail _ hstep ih =>
      obtain ⟨chunk, hmove⟩ := hstep.move
      exact ih.move hmove

/-- A descriptor is open exactly for one of the two reasons. -/
theorem Explained.mem_openFds {p : Process} (h : Explained p) (hfresh : Fresh ∅ (fdEvents p.log))
    (fd : Handle) : fd ∈ openFds p.log ↔ fd ∈ p.handles ∨ fd ∈ unbound p.log := by
  rw [← Finset.mem_val, h.opens hfresh, Multiset.mem_coe, List.mem_append]

/-- A living unit will close its descriptor. -/
theorem Live.mem_handles {p : Process} {fd : Handle} {x : NetUnit × Bool} (h : p.Live fd x) :
    fd ∈ p.handles := by
  have hheld : ∀ sock, fd ≠ invalidSocket → sock = fd → fd ∈ heldHandle sock := by
    intro sock hvalid hsock
    rw [heldHandle, hsock, if_neg hvalid]
    exact List.mem_singleton_self fd
  cases h with
  | listen hvalid hs hfd readable =>
      have hsock := hheld _ hvalid hfd
      apply List.mem_append_left
      rw [hs]
      exact List.mem_append_left _ (List.mem_append_right _ hsock)
  | client hvalid hs hget hfd readable =>
      have hholder := UDPServer.mem_holders.mpr ⟨_, hget, hfd⟩
      apply List.mem_append_left
      rw [hs]
      apply List.mem_append_right
      rw [UDPServer.handles_holders]
      exact List.mem_flatMap.mpr ⟨_, hholder, hheld fd hvalid rfl⟩
  | held hvalid hc hfd =>
      exact List.mem_append_right _ (List.mem_flatMap.mpr ⟨_, hc, hheld _ hvalid hfd⟩)

/-- In every life of a process, at every moment: a descriptor is open exactly if some unit
will close it when it is destroyed, or if `bind` failed on it, and never for two reasons; so
after the last destructor those that could not be bound are open. And if no `epoll_ctl` failed,
nothing was closed that was not open. -/
theorem descriptors_explained {p : Process} (h : p.Reachable)
    (hfresh : Fresh ∅ (fdEvents p.log)) :
    (∀ fd, fd ∈ openFds p.log ↔ fd ∈ p.handles ∨ fd ∈ unbound p.log) ∧
      (p.handles ++ unbound p.log).Nodup ∧
      (Granted p.log → ClosesOpen ∅ (fdEvents p.log)) := by
  have hexplained := h.explained
  have hopens := hexplained.opens hfresh
  refine ⟨hexplained.mem_openFds hfresh, ?_, fun hgranted => hexplained.once hgranted hfresh⟩
  rw [← Multiset.coe_nodup, ← hopens]
  exact (openFds p.log).nodup

/-- The server of the examples: it listens with descriptor 4. -/
def listening : Process where
  server := some { ServerObject.new 3 with sock := 4, bRun := true }
  held := []
  log := [.opened 3, .opened 4, .bound 4 true, .added 4 .listen true, .modified 4 .listen true]

theorem listening_run : Relation.ReflTransGen Step (start 3) listening :=
  Relation.ReflTransGen.single (Step.tryListen (.succeed 4))

/-- A datagram from a new address arrives. -/
def arrived : EpollEvent where
  events := epollIn
  ptr := .listen

theorem arrived_reported : ∀ e ∈ [arrived], e.Reported (interest listening.log) :=
  List.forall_mem_singleton.mpr ⟨4, true, rfl, fun _ => rfl⟩

/-- The socket of its client, descriptor 5, cannot be bound. -/
def unboundAnswers : List RecvAnswers :=
  [{ calls := { SockCalls.succeed 5 with bind := false }
     read := some ([104], { sinAddr := 1, sinPort := 2 })
     soc := [] }]

/-- After the destructor of the server, descriptor 5 is still open. -/
def leftUnbound : Process where
  server := none
  held := []
  log := listening.log ++ [.opened 5, .bound 5 false] ++ [.closed 3, .closed 4]

theorem leftUnbound_reachable : leftUnbound.Reachable := by
  have hupdated := listening_run.tail
    (Step.update 10 (some [arrived]) unboundAnswers
      (fun events hevents => by cases hevents; exact arrived_reported) rfl)
  have hdestroyed : Relation.ReflTransGen Step (start 3) leftUnbound := hupdated.tail Step.destroy
  exact ⟨3, by decide, hdestroyed⟩

theorem descriptors_explained_unbound :
    unbound leftUnbound.log = [5] ∧
      (∀ fd, fd ∈ openFds leftUnbound.log ↔
        fd ∈ leftUnbound.handles ∨ fd ∈ unbound leftUnbound.log) ∧
      (leftUnbound.handles ++ unbound leftUnbound.log).Nodup ∧
      (Granted leftUnbound.log → ClosesOpen ∅ (fdEvents leftUnbound.log)) := by
  have hfresh : Fresh ∅ (fdEvents leftUnbound.log) :=
    ⟨by decide, by decide, by decide, True.intro⟩
  exact ⟨rfl, descriptors_explained leftUnbound_reachable hfresh⟩

/-- `Recv` on a unit that is there: the copy of the handshake is the one thing to fail. -/
theorem round_cases {r : Round} {unit : NetUnit}
    (h : ∀ key, unit = .client key → ∃ c, r.clients.allClients.lookup key = some c) :
    r.recv unit = .error .copy ∨
      ∃ r', r.recv unit = .ok r' ∧ Keeps r.clients r'.clients := by
  unfold Round.recv
  cases unit with
  | listen =>
      dsimp only
      cases hrecv : r.clients.recv (r.answers.headD .silent).calls (r.answers.headD .silent).read
          (r.answers.headD .silent).soc with
      | none => exact Or.inl rfl
      | some res => exact Or.inr ⟨_, rfl, recv_keeps hrecv⟩
  | client key =>
      obtain ⟨c, hget⟩ := h key rfl
      dsimp only
      rw [hget]
      dsimp only
      unfold UDPServer.recvClient
      cases hrecv : c.recv .linux none (r.answers.headD .silent).soc with
      | none => exact Or.inl rfl
      | some rc => exact Or.inr ⟨_, rfl, keeps_touched (Touched.put hget (Same.recv hrecv))⟩

/-- A client that is in the table stays there while an `Update` runs. -/
theorem rounds_dangling (units : List NetUnit) {r : Round}
    (h : ∀ key, .client key ∈ units → ∃ c, r.clients.allClients.lookup key = some c) :
    units.foldl Round.next (.ok r) ≠ .error .dangling := by
  induction units generalizing r with
  | nil => exact fun hfault => by cases hfault
  | cons unit units ih =>
      have hhead : ∀ key, unit = .client key → ∃ c, r.clients.allClients.lookup key = some c :=
        fun key hunit => h key (hunit ▸ List.mem_cons_self)
      show units.foldl Round.next (r.recv unit) ≠ .error .dangling
      rcases round_cases hhead with hcopy | ⟨mid, hrecv, hkeeps⟩
      · rw [hcopy, rounds_error]
        exact fun hfault => by cases hfault
      · rw [hrecv]
        apply ih
        intro key hkey
        obtain ⟨c, hget⟩ := h key (List.mem_cons_of_mem _ hkey)
        obtain ⟨c', hget', -⟩ := hkeeps key c hget
        exact ⟨c', hget'⟩

/-- Whatever `epoll_wait` reports in a life of the process, with the pointer that was given for the
descriptor, is a living unit, and the descriptor is open if the kernel hands out only those
that are not: an `Update` never calls `Recv` through a pointer to a unit that is gone,
whatever is received and whichever calls fail. -/
theorem events_live {p : Process} (h : p.Reachable) {s : ServerObject} (hs : p.server = some s)
    (dlt : UInt32) {events : List EpollEvent}
    (hreported : ∀ e ∈ events, e.Reported (interest p.log)) (answers : List RecvAnswers) :
    (∀ fd x, interest p.log fd = some x → p.Live fd x) ∧
      (Fresh ∅ (fdEvents p.log) → ∀ fd x, interest p.log fd = some x → fd ∈ openFds p.log) ∧
      s.update dlt (some events) answers ≠ .error .dangling := by
  have hlive := h.explained.live
  refine ⟨hlive, fun hfresh fd x hx =>
    (h.explained.mem_openFds hfresh fd).mpr (Or.inl (hlive fd x hx).mem_handles), ?_⟩
  have hthere : ∀ key, .client key ∈ recvCalls (some events) →
      ∃ c, (s.clients.updateClient dlt).allClients.lookup key = some c := by
    intro key hkey
    rw [recvCalls_eq] at hkey
    obtain ⟨e, he, hptr⟩ := List.mem_map.mp hkey
    obtain ⟨hmem, honly⟩ := List.mem_filter.mp he
    obtain ⟨fd, readable, hwatched, hreadable⟩ := hreported e hmem
    have hx := hlive fd _ hwatched
    rw [hptr, hreadable (onlyIn_has honly)] at hx
    cases hx with
    | client hvalid hserver hget hfd readable =>
        rw [hs] at hserver
        cases hserver
        obtain ⟨c', hget', -⟩ := keeps_touched (Touched.updateClient s.clients dlt) key _ hget
        exact ⟨c', hget'⟩
  have hrounds := @rounds_dangling (recvCalls (some events))
    { clients := s.clients.updateClient dlt, log := [], answers := answers } hthere
  rw [update_rounds]
  unfold updateRounds
  intro hfault
  cases hall : (recvCalls (some events)).foldl Round.next
      (.ok { clients := s.clients.updateClient dlt, log := [], answers := answers }) with
  | ok r =>
      rw [hall] at hfault
      cases hfault
  | error fault =>
      rw [hall] at hfault hrounds
      cases hfault
      exact hrounds rfl

theorem events_live_arrived :
    (∀ fd x, interest listening.log fd = some x → listening.Live fd x) ∧
      (∀ fd x, interest listening.log fd = some x → fd ∈ openFds listening.log) ∧
      ServerObject.update { ServerObject.new 3 with sock := 4, bRun := true } 10
        (some [arrived]) unboundAnswers ≠ .error .dangling := by
  have hfresh : Fresh ∅ (fdEvents listening.log) := ⟨by decide, by decide, True.intro⟩
  obtain ⟨hlive, hopen, hsafe⟩ :=
    events_live ⟨3, by decide, listening_run⟩ rfl 10 arrived_reported unboundAnswers
  exact ⟨hlive, hopen hfresh, hsafe⟩

end Process

end UdpKcp.Wheel
