import UdpKcp.Wheel.Server
import Mathlib.Data.Finset.Basic
import Mathlib.Logic.Relation

/-! # Descriptors and the client table

What `NewNetClient` opens and closes, along whole runs of the Linux server with
any answers of the system calls. Its exits differ in what they release: one
closes nothing, and one closes the descriptor that the destructor of the client
closes as well.
-/

namespace UdpKcp.Wheel

open ByteCodec (Bytes)
open Ikcp Plug
open UDPClient (Same)

/-! ## Descriptors that are open -/

/-- The descriptors open after these events. -/
def openAfter (fds : Finset Handle) : List FdEvent → Finset Handle
  | [] => fds
  | .opened fd :: events => openAfter (insert fd fds) events
  | .closed fd :: events => openAfter (fds.erase fd) events

/-- No descriptor is closed that is not open, as one that was closed before. -/
def ClosesOpen (fds : Finset Handle) : List FdEvent → Prop
  | [] => True
  | .opened fd :: events => ClosesOpen (insert fd fds) events
  | .closed fd :: events => fd ∈ fds ∧ ClosesOpen (fds.erase fd) events

theorem openAfter_append (fds : Finset Handle) (xs ys : List FdEvent) :
    openAfter fds (xs ++ ys) = openAfter (openAfter fds xs) ys := by
  induction xs generalizing fds with
  | nil => rfl
  | cons event xs ih => cases event <;> exact ih _

theorem closesOpen_append (fds : Finset Handle) (xs ys : List FdEvent) :
    ClosesOpen fds (xs ++ ys) ↔ ClosesOpen fds xs ∧ ClosesOpen (openAfter fds xs) ys := by
  induction xs generalizing fds with
  | nil => simp [ClosesOpen, openAfter]
  | cons event xs ih => cases event <;> simp [ClosesOpen, openAfter, ih, and_assoc]

/-! ## Runs -/

/-- A call of `NewNetClient`: the server and the descriptors before, and its arguments. -/
structure Attempt where
  server : UDPServer
  fds : Finset Handle
  calls : SockCalls
  raddr : SockaddrIn

def Attempt.made (a : Attempt) : NewClient := a.server.newNetClient a.calls a.raddr

/-- The server, the descriptors of clients that were opened and closed so far, and the
calls of `NewNetClient`. -/
structure Ledger where
  server : UDPServer
  events : List FdEvent
  attempts : List Attempt

namespace Ledger

def start : Ledger where
  server := .start
  events := []
  attempts := []

/-- The client descriptors that are open. -/
def fds (l : Ledger) : Finset Handle := openAfter ∅ l.events

/-- `UDPServer::Recv`, which makes a client for an address that it finds no client for. -/
def recv (l : Ledger) (calls : SockCalls) (read : Option (Bytes × SockaddrIn)) (soc : Socket) :
    Option Ledger :=
  (l.server.recv calls read soc).map fun r => {
    server := r.server
    events := l.events ++ r.fds
    attempts := l.attempts ++
      match read with
      | none => []
      | some (_, addr) =>
          match l.server.allClients.lookup (makeUniqueID addr) with
          | none => [⟨l.server, l.fds, calls, addr⟩]
          | some _ => [] }

/-- A `Recv` of the server, or any call on one of its clients. A new descriptor is one that
is not open. -/
inductive Step : Ledger → Ledger → Prop where
  | recv {l l' : Ledger} (calls : SockCalls) (read : Option (Bytes × SockaddrIn)) (soc : Socket)
      (hfresh : calls.socket ∉ l.fds) (h : l.recv calls read soc = some l') : Step l l'
  | call {l : Ledger} {key : UInt32} {c c' : UDPClient}
      (hget : l.server.allClients.lookup key = some c) (call : Call)
      (hcall : c.call .linux call = some c') : Step l { l with server := l.server.put key c' }

def Reachable : Ledger → Prop := Relation.ReflTransGen Step start

end Ledger

/-- What is wanted of descriptors and client table after a `Recv`. -/
structure Accounted (l : Ledger) : Prop where
  handles : ∀ fd, fd ∈ l.fds ↔ ∃ key c, l.server.allClients.lookup key = some c ∧ c.getHandle = fd
  apart : ∀ key c key' c', l.server.allClients.lookup key = some c →
    l.server.allClients.lookup key' = some c' → c.getHandle = c'.getHandle → key = key'
  keys : ∀ key c, l.server.allClients.lookup key = some c → c.getUniqueID = key
  once : ClosesOpen ∅ l.events
  refused : ∀ a ∈ l.attempts, a.made.client = none →
    a.made.server = a.server ∧ openAfter a.fds a.made.fds = a.fds

/-- `NewNetClient` with a valid descriptor that could not be bound. -/
def SockCalls.Leaks (calls : SockCalls) : Prop :=
  calls.socket ≠ invalidSocket ∧ calls.bind = false

/-- `NewNetClient` with a connected descriptor that one of the `epoll_ctl` calls refused. -/
def SockCalls.Doubles (calls : SockCalls) : Prop :=
  calls.socket ≠ invalidSocket ∧ calls.bind = true ∧ calls.connect = true ∧
    ¬ (calls.attach = true ∧ calls.ctl = true)

/-- `NewNetClient` with nothing that fails. -/
def SockCalls.Succeed (calls : SockCalls) : Prop :=
  calls.socket ≠ invalidSocket ∧ calls.bind = true ∧ calls.connect = true ∧
    calls.attach = true ∧ calls.ctl = true

instance (calls : SockCalls) : Decidable calls.Succeed :=
  inferInstanceAs (Decidable (_ ∧ _))

theorem SockCalls.Succeed.not_leaks {calls : SockCalls} (h : calls.Succeed) : ¬ calls.Leaks := by
  simp [SockCalls.Leaks, h.2.1]

theorem SockCalls.Succeed.not_doubles {calls : SockCalls} (h : calls.Succeed) : ¬ calls.Doubles :=
  fun hdoubles => hdoubles.2.2.2 h.2.2.2

/-! ## One NewNetClient -/

/-- The exits of `NewNetClient` for an address without a client. -/
inductive Outcome (s : UDPServer) (calls : SockCalls) (raddr : SockaddrIn) : NewClient → Prop where
  | noSocket (hfd : calls.socket = invalidSocket) :
      Outcome s calls raddr { server := s, client := none, fds := [] }
  | unbound (hleaks : calls.Leaks) :
      Outcome s calls raddr { server := s, client := none, fds := [.opened calls.socket] }
  | unconnected (hfd : calls.socket ≠ invalidSocket) (hbind : calls.bind = true)
      (hconnect : calls.connect = false) :
      Outcome s calls raddr {
        server := s
        client := none
        fds := [.opened calls.socket, .closed calls.socket] }
  | unattached (hdoubles : calls.Doubles) :
      Outcome s calls raddr {
        server := s
        client := none
        fds := [.opened calls.socket, .closed calls.socket, .closed calls.socket] }
  | attached (hcalls : calls.Succeed) :
      Outcome s calls raddr {
        server := (s.put (makeUniqueID raddr) (newUDPClient raddr calls.socket)).put
          (makeUniqueID raddr) (acceptedClient raddr calls.socket)
        client := some (acceptedClient raddr calls.socket)
        fds := [.opened calls.socket] }

theorem newNetClient_outcome {s : UDPServer} {raddr : SockaddrIn} (calls : SockCalls)
    (hnone : s.allClients.lookup (makeUniqueID raddr) = none) :
    Outcome s calls raddr (s.newNetClient calls raddr) := by
  by_cases hfd : calls.socket = invalidSocket
  · have hmade : s.newNetClient calls raddr = { server := s, client := none, fds := [] } := by
      simp [UDPServer.newNetClient, hfd]
    rw [hmade]
    exact .noSocket hfd
  cases hbind : calls.bind with
  | false =>
      have hmade : s.newNetClient calls raddr =
          { server := s, client := none, fds := [.opened calls.socket] } := by
        simp [UDPServer.newNetClient, hfd, hbind]
      rw [hmade]
      exact .unbound ⟨hfd, hbind⟩
  | true =>
      cases hconnect : calls.connect with
      | false =>
          have hmade : s.newNetClient calls raddr =
              { server := s, client := none,
                fds := [.opened calls.socket, .closed calls.socket] } := by
            simp [UDPServer.newNetClient, hfd, hbind, hconnect]
          rw [hmade]
          exact .unconnected hfd hbind hconnect
      | true =>
          by_cases hattach : calls.attach = true ∧ calls.ctl = true
          · have hcalls : calls = .succeed calls.socket := by
              cases calls
              simp_all [SockCalls.succeed]
            have hmade := UDPServer.newNetClient_succeed hfd hnone
            rw [← hcalls] at hmade
            rw [hmade]
            exact .attached ⟨hfd, hbind, hconnect, hattach⟩
          · have hrefused : s.attachNetClient calls (newUDPClient raddr calls.socket) =
                (s, false) := by
              have hid : (newUDPClient raddr calls.socket).getUniqueID = makeUniqueID raddr := rfl
              unfold UDPServer.attachNetClient
              rw [hid, hnone]
              by_cases hfirst : calls.attach = true
              · have hctl : calls.ctl = false := by simpa [hfirst] using hattach
                simp [hfirst, hctl]
              · simp [hfirst]
            have hmade : s.newNetClient calls raddr =
                { server := s, client := none,
                  fds := [.opened calls.socket, .closed calls.socket, .closed calls.socket] } := by
              have hhandle : (newUDPClient raddr calls.socket).getHandle = calls.socket := rfl
              simp [UDPServer.newNetClient, hfd, hbind, hconnect, hrefused, hhandle]
            rw [hmade]
            exact .unattached ⟨hfd, hbind, hconnect, hattach⟩

/-- Without a leak, a `NewNetClient` that returns NULL leaves everything as it was. -/
theorem Attempt.refused {a : Attempt}
    (hnone : a.server.allClients.lookup (makeUniqueID a.raddr) = none)
    (hfresh : a.calls.socket ∉ a.fds) (hleaks : ¬ a.calls.Leaks) (hnull : a.made.client = none) :
    a.made.server = a.server ∧ openAfter a.fds a.made.fds = a.fds := by
  have hout : Outcome a.server a.calls a.raddr a.made := newNetClient_outcome a.calls hnone
  generalize a.made = made at hout hnull
  cases hout with
  | noSocket hfd => exact ⟨rfl, rfl⟩
  | unbound hleak => exact absurd hleak hleaks
  | unconnected hfd hbind hconnect => simp [openAfter, hfresh]
  | unattached hdoubles => simp [openAfter, hfresh]
  | attached hcalls => simp at hnull

/-! ## One Recv -/

/-- The clients of the table are the same ones, perhaps in another state. -/
structure Touched (s s' : UDPServer) : Prop where
  old : ∀ key c', s'.allClients.lookup key = some c' →
    ∃ c, s.allClients.lookup key = some c ∧ Same c c'
  new : ∀ key c, s.allClients.lookup key = some c →
    ∃ c', s'.allClients.lookup key = some c' ∧ Same c c'

theorem Touched.put {s : UDPServer} {key : UInt32} {c c' : UDPClient}
    (hget : s.allClients.lookup key = some c) (hsame : Same c c') : Touched s (s.put key c') := by
  constructor
  · intro other d' hd'
    rw [UDPServer.put_lookup] at hd'
    split at hd'
    · rename_i heq
      cases hd'
      exact ⟨c, heq ▸ hget, hsame⟩
    · exact ⟨d', hd', Same.refl d'⟩
  · intro other d hd
    rw [UDPServer.put_lookup]
    split
    · rename_i heq
      rw [heq, hget] at hd
      cases hd
      exact ⟨c', rfl, hsame⟩
    · exact ⟨d, hd, Same.refl d⟩

theorem Touched.refl (s : UDPServer) : Touched s s :=
  ⟨fun _ c hc => ⟨c, hc, Same.refl c⟩,
    fun _ c hc => ⟨c, hc, Same.refl c⟩⟩

theorem Touched.trans {s s' s'' : UDPServer} (h : Touched s s') (h' : Touched s' s'') :
    Touched s s'' := by
  constructor
  · intro key c'' hc''
    obtain ⟨c', hc', hsame'⟩ := h'.old key c'' hc''
    obtain ⟨c, hc, hsame⟩ := h.old key c' hc'
    exact ⟨c, hc, hsame.trans hsame'⟩
  · intro key c hc
    obtain ⟨c', hc', hsame⟩ := h.new key c hc
    obtain ⟨c'', hc'', hsame'⟩ := h'.new key c' hc'
    exact ⟨c'', hc'', hsame.trans hsame'⟩

theorem Touched.foldl {s : UDPServer} {f : UDPServer → UInt32 → UDPServer}
    (hf : ∀ s' key, Touched s' (f s' key)) (keys : List UInt32) {s' : UDPServer}
    (h : Touched s s') : Touched s (keys.foldl f s') := by
  induction keys generalizing s' with
  | nil => exact h
  | cons key keys ih => exact ih (h.trans (hf s' key))

theorem Touched.updateClient (s : UDPServer) (dlt : UInt32) : Touched s (s.updateClient dlt) := by
  apply Touched.foldl _ _ (Touched.refl s)
  intro s' key
  cases hget : s'.allClients.lookup key with
  | none => exact Touched.refl s'
  | some c => exact Touched.put hget (UDPClient.Kept.update c dlt).toSame

/-- What a datagram from `addr` does to the server, whether it is answered by a client, and
the descriptors opened and closed meanwhile. -/
inductive Contacted (s : UDPServer) (calls : SockCalls) (addr : SockaddrIn) :
    UDPServer → Bool → List FdEvent → Prop where
  | found {c : UDPClient} {s' : UDPServer}
      (hget : s.allClients.lookup (makeUniqueID addr) = some c) (ht : Touched s s') :
      Contacted s calls addr s' true []
  | refused {made : NewClient} (hnone : s.allClients.lookup (makeUniqueID addr) = none)
      (hout : Outcome s calls addr made) (hnull : made.client = none) :
      Contacted s calls addr s false made.fds
  | attached {c : UDPClient} {s' : UDPServer}
      (hnone : s.allClients.lookup (makeUniqueID addr) = none) (hcalls : calls.Succeed)
      (hsame : Same (acceptedClient addr calls.socket) c)
      (htable : ∀ key, s'.allClients.lookup key =
        if key = makeUniqueID addr then some c else s.allClients.lookup key) :
      Contacted s calls addr s' true [.opened calls.socket]

theorem onRecvByAddr_contacted {platform : Platform} {s : UDPServer} {calls : SockCalls}
    {data : Option Bytes} {soc : Socket} {addr : SockaddrIn} {r : UDPServer.Dispatched}
    (h : s.onRecvByAddr platform calls data soc addr = some r) :
    Contacted s calls addr r.server r.client.isSome r.fds := by
  unfold UDPServer.onRecvByAddr at h
  dsimp only at h
  cases hget : s.allClients.lookup (makeUniqueID addr) with
  | some c =>
      rw [hget] at h
      obtain ⟨rc, hrc, hres⟩ := Option.bind_eq_some_iff.mp h
      cases hres
      exact .found hget (Touched.put hget (Same.recv hrc))
  | none =>
      rw [hget] at h
      have hout := newNetClient_outcome calls hget
      generalize s.newNetClient calls addr = made at h hout
      cases hclient : made.client with
      | none =>
          have hserver : made.server = s := by
            cases hout with
            | attached hcalls => cases hclient
            | _ => rfl
          rw [hclient] at h
          cases h
          rw [← hserver] at hget hout
          simpa [UDPServer.Dispatched.nobody, hserver] using Contacted.refused hget hout hclient
      | some c =>
          cases hout with
          | attached hcalls =>
              cases hclient
              obtain ⟨r', hr', hres⟩ := Option.bind_eq_some_iff.mp h
              unfold UDPServer.recvClient at hr'
              obtain ⟨rc, hrc, hres'⟩ := Option.bind_eq_some_iff.mp hr'
              cases hres'
              cases hres
              refine .attached hget hcalls (Same.recv hrc) ?_
              intro key
              simp only [UDPServer.put_lookup]
              split <;> rfl
          | _ => cases hclient

/-! ## The invariant of a run -/

/-- What server, descriptors and attempts of a run know of each other. -/
structure LedgerInv (l : Ledger) : Prop where
  keys : ∀ key c, l.server.allClients.lookup key = some c → c.bigID = key
  held : ∀ key c, l.server.allClients.lookup key = some c → c.sock ∈ l.fds
  apart : ∀ key c key' c', l.server.allClients.lookup key = some c →
    l.server.allClients.lookup key' = some c' → c.sock = c'.sock → key = key'
  attempted : ∀ a ∈ l.attempts, a.server.allClients.lookup (makeUniqueID a.raddr) = none ∧
    a.calls.socket ∉ a.fds
  clean : (∀ a ∈ l.attempts, ¬ a.calls.Leaks ∧ ¬ a.calls.Doubles) →
    (∀ fd ∈ l.fds, ∃ key c, l.server.allClients.lookup key = some c ∧ c.sock = fd) ∧
      ClosesOpen ∅ l.events
  leaked : ∀ a ∈ l.attempts, a.calls.Leaks → a.calls.socket ∈ l.fds ∧
    ∀ key c, l.server.allClients.lookup key = some c → c.sock ≠ a.calls.socket
  doubled : ∀ a ∈ l.attempts, a.calls.Doubles → ¬ ClosesOpen ∅ l.events

theorem LedgerInv.start : LedgerInv .start where
  keys := fun key c hc => by cases hc
  held := fun key c hc => by cases hc
  apart := fun key c key' c' hc => by cases hc
  attempted := List.forall_mem_nil _
  clean := fun _ => ⟨fun fd hfd => absurd hfd (Finset.notMem_empty fd), trivial⟩
  leaked := List.forall_mem_nil _
  doubled := List.forall_mem_nil _

section Step

variable {l : Ledger} (h : LedgerInv l)

include h

/-- Calls on the clients of the table change neither handles nor ids. -/
theorem LedgerInv.touched {s' : UDPServer} (ht : Touched l.server s') :
    LedgerInv { l with server := s' } where
  keys := by
    intro key c' hc'
    obtain ⟨c, hc, hsame⟩ := ht.old key c' hc'
    exact hsame.bigID.trans (h.keys key c hc)
  held := by
    intro key c' hc'
    obtain ⟨c, hc, hsame⟩ := ht.old key c' hc'
    rw [hsame.sock]
    exact h.held key c hc
  apart := by
    intro key c' key' d' hc' hd' hsock
    obtain ⟨c, hc, hsame⟩ := ht.old key c' hc'
    obtain ⟨d, hd, hsame'⟩ := ht.old key' d' hd'
    rw [hsame.sock, hsame'.sock] at hsock
    exact h.apart key c key' d hc hd hsock
  attempted := h.attempted
  clean := by
    intro hclean
    obtain ⟨hhandles, honce⟩ := h.clean hclean
    refine ⟨?_, honce⟩
    intro fd hfd
    obtain ⟨key, c, hc, rfl⟩ := hhandles fd hfd
    obtain ⟨c', hc', hsame⟩ := ht.new key c hc
    exact ⟨key, c', hc', hsame.sock⟩
  leaked := by
    intro a ha hleaks
    obtain ⟨hopen, hnone⟩ := h.leaked a ha hleaks
    refine ⟨hopen, ?_⟩
    intro key c' hc'
    obtain ⟨c, hc, hsame⟩ := ht.old key c' hc'
    rw [hsame.sock]
    exact hnone key c hc
  doubled := h.doubled

/-- A `NewNetClient` that returns NULL: the descriptor stays open where it leaks, and is
closed again, once or twice, where it does not. -/
theorem LedgerInv.refused {a : Attempt}
    (hnone : a.server.allClients.lookup (makeUniqueID a.raddr) = none)
    (hbefore : a.fds = l.fds) (hfresh : a.calls.socket ∉ l.fds) {events : List FdEvent}
    (hleaks : a.calls.Leaks → openAfter l.fds events = insert a.calls.socket l.fds)
    (hkept : ¬ a.calls.Leaks → openAfter l.fds events = l.fds)
    (hcloses : ClosesOpen l.fds events ↔ ¬ a.calls.Doubles) :
    LedgerInv { l with events := l.events ++ events, attempts := l.attempts ++ [a] } := by
  have hfds : openAfter ∅ (l.events ++ events) = openAfter l.fds events := openAfter_append _ _ _
  have hgrown : ∀ fd ∈ l.fds, fd ∈ openAfter ∅ (l.events ++ events) := by
    intro fd hfd
    rw [hfds]
    by_cases hleak : a.calls.Leaks
    · rw [hleaks hleak]
      exact Finset.mem_insert_of_mem hfd
    · rw [hkept hleak]
      exact hfd
  have honce : ClosesOpen ∅ (l.events ++ events) ↔
      ClosesOpen ∅ l.events ∧ ¬ a.calls.Doubles := by
    rw [closesOpen_append, ← hcloses]
    rfl
  refine ⟨h.keys, fun key c hc => hgrown _ (h.held key c hc), h.apart, ?_, ?_, ?_, ?_⟩
  · exact List.forall_mem_append.mpr
      ⟨h.attempted, List.forall_mem_singleton.mpr ⟨hnone, hbefore ▸ hfresh⟩⟩
  · intro hclean
    obtain ⟨hearlier, hlast⟩ := List.forall_mem_append.mp hclean
    obtain ⟨hhandles, hold⟩ := h.clean hearlier
    obtain ⟨hleak, hdouble⟩ := List.forall_mem_singleton.mp hlast
    refine ⟨?_, honce.mpr ⟨hold, hdouble⟩⟩
    intro fd hfd
    have hin : fd ∈ openAfter ∅ (l.events ++ events) := hfd
    rw [hfds, hkept hleak] at hin
    exact hhandles fd hin
  · refine List.forall_mem_append.mpr ⟨?_, List.forall_mem_singleton.mpr ?_⟩
    · intro b hb hleak
      obtain ⟨hopen, hclients⟩ := h.leaked b hb hleak
      exact ⟨hgrown _ hopen, hclients⟩
    · intro hleak
      refine ⟨?_, fun key c hc hsock => hfresh (hsock ▸ h.held key c hc)⟩
      show a.calls.socket ∈ openAfter ∅ (l.events ++ events)
      rw [hfds, hleaks hleak]
      exact Finset.mem_insert_self _ _
  · refine List.forall_mem_append.mpr ⟨?_, List.forall_mem_singleton.mpr ?_⟩
    · exact fun b hb hdouble honly => h.doubled b hb hdouble (honce.mp honly).1
    · exact fun hdouble honly => (honce.mp honly).2 hdouble

/-- An entry of the grown table is the new client, or one that was there before. -/
theorem LedgerInv.entry_cases {key key' : UInt32} {s' : UDPServer} {c d : UDPClient}
    (hfresh : c.sock ∉ l.fds)
    (htable : ∀ key, s'.allClients.lookup key =
      if key = key' then some c else l.server.allClients.lookup key)
    (hd : s'.allClients.lookup key = some d) :
    (key = key' ∧ d = c) ∨ (l.server.allClients.lookup key = some d ∧ d.sock ≠ c.sock) := by
  rw [htable] at hd
  split at hd
  · exact Or.inl ⟨‹_›, (Option.some.inj hd).symm⟩
  · exact Or.inr ⟨hd, fun heq => hfresh (heq ▸ h.held key d hd)⟩

/-- A new client has the new descriptor. -/
theorem LedgerInv.attached {a : Attempt}
    (hnone : a.server.allClients.lookup (makeUniqueID a.raddr) = none)
    (hserver : a.server = l.server) (hbefore : a.fds = l.fds) (hfresh : a.calls.socket ∉ l.fds)
    (hleaks : ¬ a.calls.Leaks) (hdoubles : ¬ a.calls.Doubles) {s' : UDPServer} {c : UDPClient}
    (hsame : Same (acceptedClient a.raddr a.calls.socket) c)
    (htable : ∀ key, s'.allClients.lookup key =
      if key = makeUniqueID a.raddr then some c else l.server.allClients.lookup key) :
    LedgerInv {
      server := s'
      events := l.events ++ [.opened a.calls.socket]
      attempts := l.attempts ++ [a] } := by
  have hsock : c.sock = a.calls.socket := hsame.sock
  have hnew : c.sock ∉ l.fds := hsock ▸ hfresh
  have hfds : openAfter ∅ (l.events ++ [.opened a.calls.socket]) = insert c.sock l.fds := by
    rw [openAfter_append, hsock]
    rfl
  have honce : ClosesOpen ∅ (l.events ++ [.opened a.calls.socket]) ↔ ClosesOpen ∅ l.events := by
    simp [closesOpen_append, ClosesOpen]
  have hkept : ∀ key d, l.server.allClients.lookup key = some d →
      s'.allClients.lookup key = some d := by
    intro key d hd
    have hne : key ≠ makeUniqueID a.raddr := by
      rintro rfl
      rw [hserver, hd] at hnone
      cases hnone
    rw [htable, if_neg hne]
    exact hd
  refine ⟨?_, ?_, ?_, ?_, ?_, ?_, ?_⟩
  · intro key d hd
    rcases h.entry_cases hnew htable hd with ⟨rfl, rfl⟩ | ⟨hold, -⟩
    · exact hsame.bigID
    · exact h.keys key d hold
  · intro key d hd
    show d.sock ∈ openAfter ∅ (l.events ++ [.opened a.calls.socket])
    rw [hfds]
    rcases h.entry_cases hnew htable hd with ⟨rfl, rfl⟩ | ⟨hold, -⟩
    · exact Finset.mem_insert_self _ _
    · exact Finset.mem_insert_of_mem (h.held key d hold)
  · intro key d key' d' hd hd' heq
    rcases h.entry_cases hnew htable hd with ⟨rfl, rfl⟩ | ⟨hold, hne⟩
    · rcases h.entry_cases hnew htable hd' with ⟨rfl, rfl⟩ | ⟨hold', hne'⟩
      · rfl
      · exact absurd heq.symm hne'
    · rcases h.entry_cases hnew htable hd' with ⟨rfl, rfl⟩ | ⟨hold', hne'⟩
      · exact absurd heq hne
      · exact h.apart key d key' d' hold hold' heq
  · exact List.forall_mem_append.mpr
      ⟨h.attempted, List.forall_mem_singleton.mpr ⟨hnone, hbefore ▸ hfresh⟩⟩
  · intro hclean
    obtain ⟨hhandles, hold⟩ := h.clean (List.forall_mem_append.mp hclean).1
    refine ⟨?_, honce.mpr hold⟩
    intro fd hfd
    have hin : fd ∈ openAfter ∅ (l.events ++ [.opened a.calls.socket]) := hfd
    rw [hfds] at hin
    rcases Finset.mem_insert.mp hin with rfl | hin
    · exact ⟨makeUniqueID a.raddr, c, by rw [htable, if_pos rfl], rfl⟩
    · obtain ⟨key, d, hd, rfl⟩ := hhandles fd hin
      exact ⟨key, d, hkept key d hd, rfl⟩
  · refine List.forall_mem_append.mpr ⟨?_, List.forall_mem_singleton.mpr ?_⟩
    · intro b hb hleak
      obtain ⟨hopen, hclients⟩ := h.leaked b hb hleak
      refine ⟨?_, ?_⟩
      · show b.calls.socket ∈ openAfter ∅ (l.events ++ [.opened a.calls.socket])
        rw [hfds]
        exact Finset.mem_insert_of_mem hopen
      · intro key d hd heq
        rcases h.entry_cases hnew htable hd with ⟨rfl, rfl⟩ | ⟨hold, -⟩
        · exact hnew (heq ▸ hopen)
        · exact hclients key d hold heq
    · exact fun hleak => absurd hleak hleaks
  · refine List.forall_mem_append.mpr ⟨?_, List.forall_mem_singleton.mpr ?_⟩
    · exact fun b hb hdouble honly => h.doubled b hb hdouble (honce.mp honly)
    · exact fun hdouble _ => hdoubles hdouble

theorem LedgerInv.contacted {calls : SockCalls} (hfresh : calls.socket ∉ l.fds)
    {addr : SockaddrIn} {s' : UDPServer} {answered : Bool} {events : List FdEvent}
    (hc : Contacted l.server calls addr s' answered events) :
    LedgerInv {
      server := s'
      events := l.events ++ events
      attempts := l.attempts ++
        match l.server.allClients.lookup (makeUniqueID addr) with
        | none => [⟨l.server, l.fds, calls, addr⟩]
        | some _ => [] } := by
  cases hc with
  | found hget ht =>
      rw [hget]
      simpa using h.touched ht
  | attached hnone hcalls hsame htable =>
      rw [hnone]
      exact @LedgerInv.attached l h ⟨l.server, l.fds, calls, addr⟩ hnone rfl rfl hfresh
        hcalls.not_leaks hcalls.not_doubles s' _ hsame htable
  | refused hnone hout hnull =>
      have hrefused := @LedgerInv.refused l h ⟨l.server, l.fds, calls, addr⟩ hnone rfl hfresh
      rw [hnone]
      cases hout with
      | noSocket hfd =>
          exact hrefused (fun hleaks => absurd hfd hleaks.1) (fun _ => rfl)
            (iff_of_true trivial fun hdoubles => hdoubles.1 hfd)
      | unbound hleaks =>
          refine hrefused (fun _ => rfl) (fun hnot => absurd hleaks hnot)
            (iff_of_true trivial fun hdoubles => ?_)
          have hbind := hdoubles.2.1
          simp [hleaks.2] at hbind
      | unconnected hfd hbind hconnect =>
          refine hrefused (fun hleaks => ?_) (fun _ => by simp [openAfter, hfresh]) ?_
          · have hunbound := hleaks.2
            simp [hbind] at hunbound
          · refine iff_of_true ⟨Finset.mem_insert_self _ _, trivial⟩ fun hdoubles => ?_
            have hconnected := hdoubles.2.2.1
            simp [hconnect] at hconnected
      | unattached hdoubles =>
          refine hrefused (fun hleaks => ?_) (fun _ => by simp [openAfter, hfresh]) ?_
          · have hunbound := hleaks.2
            simp [hdoubles.2.1] at hunbound
          · exact iff_of_false (by simp [ClosesOpen]) (not_not_intro hdoubles)
      | attached hcalls => cases hnull

theorem LedgerInv.recv {l' : Ledger} {calls : SockCalls} (hfresh : calls.socket ∉ l.fds)
    {read : Option (Bytes × SockaddrIn)} {soc : Socket} (hrecv : l.recv calls read soc = some l') :
    LedgerInv l' := by
  obtain ⟨r, hr, rfl⟩ := Option.map_eq_some_iff.mp hrecv
  cases read with
  | none =>
      cases hr
      simpa [UDPServer.Dispatched.nobody] using h
  | some datagram => exact h.contacted hfresh (onRecvByAddr_contacted hr)

end Step

theorem ledgerInv_of_reachable {l : Ledger} (h : l.Reachable) : LedgerInv l := by
  induction h with
  | refl => exact LedgerInv.start
  | tail _ hs ih =>
      cases hs with
      | recv calls read soc hfresh hrecv => exact ih.recv hfresh hrecv
      | call hget call hcall => exact ih.touched (Touched.put hget (Same.call hcall))

/-- In every run of the server, descriptors and client table are accounted for exactly as
long as every descriptor could be bound, and every connected one was taken by both
`epoll_ctl` calls. -/
theorem accounted_iff {l : Ledger} (h : l.Reachable) :
    Accounted l ↔ ∀ a ∈ l.attempts, ¬ a.calls.Leaks ∧ ¬ a.calls.Doubles := by
  have hinv := ledgerInv_of_reachable h
  constructor
  · intro hall a ha
    refine ⟨?_, fun hdoubles => hinv.doubled a ha hdoubles hall.once⟩
    intro hleaks
    obtain ⟨hopen, hclients⟩ := hinv.leaked a ha hleaks
    obtain ⟨key, c, hc, hsock⟩ := (hall.handles _).mp hopen
    exact hclients key c hc hsock
  · intro hclean
    obtain ⟨hhandles, honce⟩ := hinv.clean hclean
    refine ⟨fun fd => ⟨hhandles fd, ?_⟩, hinv.apart, hinv.keys, honce, ?_⟩
    · rintro ⟨key, c, hc, rfl⟩
      exact hinv.held key c hc
    · intro a ha hnull
      obtain ⟨hnone, hfresh⟩ := hinv.attempted a ha
      exact a.refused hnone hfresh (hclean a ha).1 hnull

/-! ## First datagrams -/

/-- The server of the examples after its first datagram. -/
def firstRecv (calls : SockCalls) : Option Ledger :=
  Ledger.start.recv calls (some ([104], { sinAddr := 1, sinPort := 2 })) []

theorem firstRecv_reachable (calls : SockCalls) {l : Ledger} (h : firstRecv calls = some l) :
    l.Reachable :=
  Relation.ReflTransGen.single (Ledger.Step.recv _ _ _ (Finset.notMem_empty _) h)

/-- All calls succeed: one client and its descriptor. -/
theorem accounted_succeed :
    ∃ l, firstRecv (.succeed 5) = some l ∧ l.fds = {5} ∧ Accounted l := by
  refine ⟨_, rfl, rfl, (accounted_iff (firstRecv_reachable (.succeed 5) rfl)).mpr ?_⟩
  intro a ha
  rw [List.mem_singleton.mp ha]
  exact ⟨fun hleaks => absurd hleaks.2 (by decide),
    fun hdoubles => hdoubles.2.2.2 ⟨rfl, rfl⟩⟩

/-- A descriptor that cannot be bound stays open without a client, and one that cannot be
registered is closed twice. -/
theorem accounted_unbound :
    (∃ l, firstRecv { SockCalls.succeed 5 with bind := false } = some l ∧ l.Reachable ∧
      l.fds = {5} ∧ l.server.allClients.keys = [] ∧ ¬ Accounted l) ∧
    ∃ l, firstRecv { SockCalls.succeed 5 with ctl := false } = some l ∧ l.Reachable ∧
      l.events = [.opened 5, .closed 5, .closed 5] ∧ ¬ Accounted l := by
  constructor
  · refine ⟨_, rfl, firstRecv_reachable { SockCalls.succeed 5 with bind := false } rfl, rfl, rfl,
      ?_⟩
    intro hall
    obtain ⟨key, c, hc, -⟩ := (hall.handles 5).mp (Finset.mem_singleton_self 5)
    cases hc
  · refine ⟨_, rfl, firstRecv_reachable { SockCalls.succeed 5 with ctl := false } rfl, rfl, ?_⟩
    intro hall
    exact absurd hall.once.2.1 (by decide)

end UdpKcp.Wheel
