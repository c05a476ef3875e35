import UdpKcp.Wheel.Process
import Mathlib.Algebra.Order.Group.Multiset
import Mathlib.Data.Finset.Basic

/-! # Logs of system calls

What a log says of descriptors and of the interest list of the dispatcher, and the
pieces that `NewNetClient`, `AttachNetClient`, `TryListen` and `TryConnect` add to it: each is
about one descriptor, which it keeps, closes again, or leaves open unbound.
-/

namespace UdpKcp.Wheel

open ByteCodec (Bytes)
open Ikcp Plug

/-! ## Logs -/

/-- No descriptor is handed out while it is open. -/
def Fresh (fds : Finset Handle) : List FdEvent → Prop
  | [] => True
  | .opened fd :: events => fd ∉ fds ∧ Fresh (insert fd fds) events
  | .closed fd :: events => Fresh (fds.erase fd) events

theorem fresh_append (fds : Finset Handle) (xs ys : List FdEvent) :
    Fresh fds (xs ++ ys) ↔ Fresh fds xs ∧ Fresh (openAfter fds xs) ys := by
  induction xs generalizing fds with
  | nil => simp [Fresh, openAfter]
  | cons event xs ih => cases event <;> simp [Fresh, openAfter, ih, and_assoc]

/-- No `epoll_ctl` failed. -/
def Granted (log : List Sys) : Prop :=
  ∀ fd unit, .added fd unit false ∉ log ∧ .modified fd unit false ∉ log

theorem granted_append {xs ys : List Sys} : Granted (xs ++ ys) ↔ Granted xs ∧ Granted ys := by
  simp only [Granted, List.mem_append, not_or]
  grind

theorem fdEvents_append (xs ys : List Sys) :
    fdEvents (xs ++ ys) = fdEvents xs ++ fdEvents ys :=
  List.filterMap_append

theorem unbound_append (xs ys : List Sys) : unbound (xs ++ ys) = unbound xs ++ unbound ys :=
  List.filterMap_append

theorem openFds_append (xs ys : List Sys) :
    openFds (xs ++ ys) = openAfter (openFds xs) (fdEvents ys) := by
  unfold openFds
  rw [fdEvents_append, openAfter_append]

theorem Interest.after_append (i : Interest) (xs ys : List Sys) :
    i.after (xs ++ ys) = (i.after xs).after ys :=
  List.foldl_append

theorem interest_append (xs ys : List Sys) :
    interest (xs ++ ys) = (interest xs).after ys :=
  List.foldl_append

section Events

variable (fd : Handle) (log : List Sys)

@[simp] theorem fdEvents_opened (h : fd ≠ invalidSocket) :
    fdEvents (.opened fd :: log) = .opened fd :: fdEvents log :=
  List.filterMap_cons_some (if_neg h)

@[simp] theorem fdEvents_invalid : fdEvents (.opened invalidSocket :: log) = fdEvents log :=
  List.filterMap_cons_none (by simp [Sys.fdEvent])

@[simp] theorem fdEvents_bound (ok : Bool) : fdEvents (.bound fd ok :: log) = fdEvents log := rfl

@[simp] theorem fdEvents_closed : fdEvents (.closed fd :: log) = .closed fd :: fdEvents log := rfl

@[simp] theorem unbound_opened : unbound (.opened fd :: log) = unbound log := rfl

@[simp] theorem unbound_false (h : fd ≠ invalidSocket) :
    unbound (.bound fd false :: log) = fd :: unbound log :=
  List.filterMap_cons_some (if_neg h)

@[simp] theorem unbound_invalid (ok : Bool) :
    unbound (.bound invalidSocket ok :: log) = unbound log := by
  cases ok
  · exact List.filterMap_cons_none (by simp [Sys.unbound])
  · rfl

@[simp] theorem unbound_true : unbound (.bound fd true :: log) = unbound log := rfl

@[simp] theorem unbound_closed : unbound (.closed fd :: log) = unbound log := rfl

end Events

/-! ## Controls -/

theorem Interest.set_some {i : Interest} {fd fd' : Handle} {x y : NetUnit × Bool}
    (h : i.set fd y fd' = some x) : i fd' = some x ∨ (fd' = fd ∧ fd ≠ invalidSocket ∧ x = y) := by
  unfold Interest.set at h
  by_cases hvalid : fd = invalidSocket
  · rw [if_pos hvalid] at h
    exact Or.inl h
  · rw [if_neg hvalid] at h
    by_cases hfd : fd' = fd
    · subst hfd
      rw [Function.update_self] at h
      exact Or.inr ⟨rfl, hvalid, (Option.some.inj h).symm⟩
    · rw [Function.update_of_ne hfd] at h
      exact Or.inl h

/-- Calls of `epoll_ctl` for one unit. -/
def Controls (fd : Handle) (unit : NetUnit) (log : List Sys) : Prop :=
  ∀ e ∈ log, ∃ ok, e = .added fd unit ok ∨ e = .modified fd unit ok

section Controls

variable {fd : Handle} {unit : NetUnit} {log : List Sys} (h : Controls fd unit log)

include h

theorem Controls.fdEvents : fdEvents log = [] := by
  apply List.filterMap_eq_nil_iff.mpr
  intro e he
  obtain ⟨ok, rfl | rfl⟩ := h e he
  · rfl
  · rfl

theorem Controls.unbound : unbound log = [] := by
  apply List.filterMap_eq_nil_iff.mpr
  intro e he
  obtain ⟨ok, rfl | rfl⟩ := h e he
  · rfl
  · rfl

theorem Controls.watched {i : Interest} {fd' : Handle} {x : NetUnit × Bool}
    (hx : i.after log fd' = some x) :
    i fd' = some x ∨ (fd' = fd ∧ fd ≠ invalidSocket ∧ x.1 = unit) := by
  induction log generalizing i with
  | nil => exact Or.inl hx
  | cons e log ih =>
      obtain ⟨hhead, hrest⟩ := List.forall_mem_cons.mp h
      rcases ih hrest hx with hx | hx
      · have hset : ∀ readable, i.set fd (unit, readable) fd' = some x →
            i fd' = some x ∨ (fd' = fd ∧ fd ≠ invalidSocket ∧ x.1 = unit) := by
          intro readable hx
          rcases Interest.set_some hx with hx | ⟨hfd, hvalid, rfl⟩
          · exact Or.inl hx
          · exact Or.inr ⟨hfd, hvalid, rfl⟩
        obtain ⟨ok, rfl | rfl⟩ := hhead
        · cases ok with
          | false => exact Or.inl hx
          | true => exact hset false hx
        · cases ok with
          | false => exact Or.inl hx
          | true => exact hset true hx
      · exact Or.inr hx

end Controls

/-- What was watched of a descriptor is forgotten when it is closed. -/
theorem forgotten {i : Interest} {fd fd' : Handle} {x : NetUnit × Bool}
    (hx : i.call (.closed fd) fd' = some x) : fd' ≠ fd ∧ i fd' = some x := by
  have hset : Function.update i fd none fd' = some x := hx
  by_cases hfd : fd' = fd
  · subst hfd
    rw [Function.update_self] at hset
    cases hset
  · rw [Function.update_of_ne hfd] at hset
    exact ⟨hfd, hset⟩

theorem UDPServer.attachLog_controls (s : UDPServer) (calls : SockCalls) (c : UDPClient) :
    Controls c.getHandle (.client c.getUniqueID) (s.attachLog calls c) := by
  unfold UDPServer.attachLog
  cases s.allClients.lookup c.getUniqueID with
  | some _ => exact List.forall_mem_nil _
  | none =>
      intro e he
      rcases List.mem_cons.mp he with rfl | he
      · exact ⟨calls.attach, Or.inl rfl⟩
      · split at he
        · exact ⟨calls.ctl, Or.inr (List.mem_singleton.mp he)⟩
        · cases he

/-- A client that was attached was granted both calls. -/
theorem UDPServer.attachNetClient_granted {s : UDPServer} {calls : SockCalls} {c : UDPClient}
    (hnone : s.allClients.lookup c.getUniqueID = none) (h : Granted (s.attachLog calls c)) :
    (s.attachNetClient calls c).2 = true := by
  have hadded := (h c.getHandle (.client c.getUniqueID)).1
  have hmodified := (h c.getHandle (.client c.getUniqueID)).2
  unfold UDPServer.attachLog at hadded hmodified
  unfold UDPServer.attachNetClient
  rw [hnone] at hadded hmodified ⊢
  cases hattach : calls.attach with
  | false => simp [hattach] at hadded
  | true =>
      cases hctl : calls.ctl with
      | false => simp [hattach, hctl] at hmodified
      | true => rfl

theorem UDPServer.attachNetClient_refused {s : UDPServer} {calls : SockCalls} {c : UDPClient}
    (h : (s.attachNetClient calls c).2 = false) : (s.attachNetClient calls c).1 = s := by
  unfold UDPServer.attachNetClient at h ⊢
  cases hget : s.allClients.lookup c.getUniqueID with
  | some _ => rfl
  | none =>
      rw [hget] at h
      cases hattach : calls.attach with
      | false => rfl
      | true =>
          cases hctl : calls.ctl with
          | false => rfl
          | true =>
              simp only [hattach, hctl, if_true] at h
              cases h

theorem UDPServer.attachNetClient_done {s : UDPServer} {calls : SockCalls} {c : UDPClient}
    (h : (s.attachNetClient calls c).2 = true) :
    s.allClients.lookup c.getUniqueID = none ∧
      (s.attachNetClient calls c).1 = s.put c.getUniqueID c := by
  unfold UDPServer.attachNetClient at h ⊢
  cases hget : s.allClients.lookup c.getUniqueID with
  | some _ =>
      rw [hget] at h
      cases h
  | none =>
      rw [hget] at h
      refine ⟨rfl, ?_⟩
      cases hattach : calls.attach with
      | false =>
          simp only [hattach] at h
          cases h
      | true =>
          cases hctl : calls.ctl with
          | true => rfl
          | false =>
              simp only [hattach, hctl, if_true] at h
              cases h

/-! ## One descriptor -/

/-- A piece of the log that opens `fd` at most and has dealt with it at its end: kept, for
`unit` if anything is watched, or else closed again or left unbound. -/
structure Ends (fd : Handle) (unit : NetUnit) (kept : Bool) (chunk : List Sys) : Prop where
  opens : ∀ fds, Fresh fds (fdEvents chunk) → (openAfter fds (fdEvents chunk)).val =
    ((if kept then heldHandle fd else []) ++ unbound chunk : List Handle) + fds.val
  once : Granted chunk → ∀ fds, ClosesOpen fds (fdEvents chunk)
  watched : ∀ (i : Interest) (fd' : Handle) (x : NetUnit × Bool),
    i.after chunk fd' = some x →
      i fd' = some x ∨ (kept = true ∧ fd' = fd ∧ fd ≠ invalidSocket ∧ x.1 = unit)

section Ends

variable {fd : Handle} {unit : NetUnit}

/-- Nothing was opened. -/
theorem Ends.none (h : fd = invalidSocket) (oks : List Bool) :
    Ends fd unit false (.opened fd :: oks.map (.bound fd)) := by
  subst h
  have hnone : ∀ oks : List Bool, fdEvents (oks.map (.bound invalidSocket)) = [] ∧
      unbound (oks.map (.bound invalidSocket)) = [] := by
    intro oks
    induction oks with
    | nil => exact ⟨rfl, rfl⟩
    | cons ok oks ih => simpa using ih
  have hwatched : ∀ (i : Interest) (oks : List Bool),
      i.after (oks.map (.bound invalidSocket)) = i := by
    intro i oks
    induction oks with
    | nil => rfl
    | cons ok oks ih => exact ih
  constructor
  · intro fds hfresh
    simp [hnone oks, openAfter]
  · intro hgranted fds
    simp [hnone oks, ClosesOpen]
  · intro i fd' x hx
    left
    rwa [← hwatched i oks]

variable (h : fd ≠ invalidSocket)

include h

theorem Ends.unbound : Ends fd unit false [.opened fd, .bound fd false] := by
  have hevents : fdEvents [.opened fd, .bound fd false] = [.opened fd] := by
    rw [fdEvents_opened fd _ h]
    rfl
  have hleft : Wheel.unbound [.opened fd, .bound fd false] = [fd] := by
    rw [unbound_opened, unbound_false fd _ h]
    rfl
  constructor
  · intro fds hfresh
    rw [hevents] at hfresh ⊢
    rw [hleft]
    exact Finset.insert_val_of_notMem hfresh.1
  · intro hgranted fds
    rw [hevents]
    exact True.intro
  · intro i fd' x hx
    exact Or.inl hx

variable {controls : List Sys} (hc : Controls fd unit controls)

include hc

theorem Ends.kept : Ends fd unit true (.opened fd :: .bound fd true :: controls) := by
  have hevents : fdEvents (.opened fd :: .bound fd true :: controls) = [.opened fd] := by
    rw [fdEvents_opened fd _ h, fdEvents_bound, hc.fdEvents]
  have hheld : heldHandle fd = [fd] := if_neg h
  constructor
  · intro fds hfresh
    rw [hevents] at hfresh ⊢
    rw [unbound_opened, unbound_true, hc.unbound, hheld]
    exact Finset.insert_val_of_notMem hfresh.1
  · intro hgranted fds
    rw [hevents]
    exact True.intro
  · intro i fd' x hx
    rcases hc.watched hx with hx | hx
    · exact Or.inl hx
    · exact Or.inr ⟨rfl, hx⟩

/-- Closed again, and once more only where an `epoll_ctl` failed. -/
theorem Ends.closed (again : Bool) (hagain : again = true → ¬ Granted controls) :
    Ends fd unit false (.opened fd :: .bound fd true ::
      (controls ++ .closed fd :: if again then [.closed fd] else [])) := by
  have hevents : fdEvents (.opened fd :: .bound fd true ::
      (controls ++ .closed fd :: if again then [.closed fd] else [])) =
        .opened fd :: .closed fd :: if again then [.closed fd] else [] := by
    rw [fdEvents_opened fd _ h, fdEvents_bound, fdEvents_append, hc.fdEvents]
    cases again <;> rfl
  have hleft : Wheel.unbound (.opened fd :: .bound fd true ::
      (controls ++ .closed fd :: if again then [.closed fd] else [])) = [] := by
    rw [unbound_opened, unbound_true, unbound_append, hc.unbound]
    cases again <;> rfl
  constructor
  · intro fds hfresh
    rw [hevents] at hfresh ⊢
    rw [hleft]
    have hgone : openAfter fds (.opened fd :: .closed fd :: if again then [.closed fd] else []) =
        fds := by
      cases again with
      | false => exact Finset.erase_insert hfresh.1
      | true =>
          show ((insert fd fds).erase fd).erase fd = fds
          rw [Finset.erase_insert hfresh.1, Finset.erase_eq_of_notMem hfresh.1]
    rw [hgone]
    show fds.val = 0 + fds.val
    exact (Multiset.zero_add fds.val).symm
  · intro hgranted fds
    rw [hevents]
    cases again with
    | false => exact ⟨Finset.mem_insert_self _ _, True.intro⟩
    | true =>
        have hcontrols : Granted controls := fun fd unit =>
          ⟨fun hmem => (hgranted fd unit).1 (by simp [hmem]),
            fun hmem => (hgranted fd unit).2 (by simp [hmem])⟩
        exact absurd hcontrols (hagain rfl)
  · intro i fd' x hx
    have hclosed : (i.after controls).call (.closed fd) fd' = some x := by
      cases again with
      | false =>
          rw [← List.cons_append, ← List.cons_append, Interest.after_append] at hx
          exact hx
      | true =>
          rw [← List.cons_append, ← List.cons_append, Interest.after_append] at hx
          exact (forgotten hx).2
    obtain ⟨hne, hx⟩ := forgotten hclosed
    exact Or.inl ((hc.watched hx).resolve_right fun heq => hne heq.1)

end Ends

theorem Outcome.isSome_eq {s : UDPServer} {calls : SockCalls} {raddr : SockaddrIn}
    {made : NewClient} (h : Outcome s calls raddr made) :
    made.client.isSome = decide calls.Succeed := by
  have hnot : ¬ calls.Succeed → false = decide calls.Succeed := fun hfails =>
    (decide_eq_false hfails).symm
  cases h with
  | noSocket hfd => exact hnot fun hcalls => hcalls.1 hfd
  | unbound hleaks => exact hnot fun hcalls => hcalls.not_leaks hleaks
  | unconnected hfd hbind hconnect =>
      apply hnot
      intro hcalls
      have hconnected := hcalls.2.2.1
      rw [hconnect] at hconnected
      cases hconnected
  | unattached hdoubles => exact hnot fun hcalls => hcalls.not_doubles hdoubles
  | attached hcalls => exact (decide_eq_true hcalls).symm

namespace UDPServer

theorem recvLog_found {s : UDPServer} {calls : SockCalls} {d : Bytes} {addr : SockaddrIn}
    {c : UDPClient} (hget : s.allClients.lookup (makeUniqueID addr) = some c) :
    s.recvLog calls (some (d, addr)) = [] := by
  unfold recvLog
  dsimp only
  rw [hget]

theorem recvLog_new {s : UDPServer} {calls : SockCalls} {d : Bytes} {addr : SockaddrIn}
    (hnone : s.allClients.lookup (makeUniqueID addr) = none) :
    s.recvLog calls (some (d, addr)) = s.newNetClientLog calls addr := by
  unfold recvLog
  dsimp only
  rw [hnone]

/-- What `NewNetClient` opens is kept exactly when it returns a client. -/
theorem newNetClientLog_ends {s : UDPServer} (calls : SockCalls) {raddr : SockaddrIn}
    (hnone : s.allClients.lookup (makeUniqueID raddr) = none) :
    Ends calls.socket (.client (makeUniqueID raddr)) (s.newNetClient calls raddr).client.isSome
      (s.newNetClientLog calls raddr) := by
  have hcontrols := s.attachLog_controls calls (newUDPClient raddr calls.socket)
  unfold newNetClient newNetClientLog
  dsimp only
  cases hbind : calls.bind with
  | false =>
      by_cases hfd : calls.socket = invalidSocket
      · exact Ends.none hfd [false]
      · exact Ends.unbound hfd
  | true =>
      simp only [Bool.true_eq_false, if_false]
      by_cases hfd : calls.socket = invalidSocket
      · simp only [if_pos hfd]
        exact Ends.none hfd [true]
      · simp only [if_neg hfd]
        cases hconnect : calls.connect with
        | false => exact @Ends.closed _ _ hfd [] (List.forall_mem_nil _) false Bool.noConfusion
        | true =>
            simp only [if_true]
            cases hattached : (s.attachNetClient calls (newUDPClient raddr calls.socket)).2 with
            | true => exact Ends.kept hfd hcontrols
            | false =>
                have hheld : heldHandle calls.socket = [calls.socket] := if_neg hfd
                have hagain : destroyUnit (newUDPClient raddr calls.socket).getHandle =
                    [.closed calls.socket] := congrArg (List.map Sys.closed) hheld
                rw [hagain]
                apply Ends.closed hfd hcontrols true
                intro _ hgranted
                have hid : (newUDPClient raddr calls.socket).getUniqueID = makeUniqueID raddr :=
                  rfl
                rw [← hid] at hnone
                have hdone := attachNetClient_granted hnone hgranted
                rw [hattached] at hdone
                cases hdone

/-- Client table and log agree on what `NewNetClient` opens and closes. -/
theorem newNetClientLog_fds (s : UDPServer) (calls : SockCalls) (raddr : SockaddrIn) :
    fdEvents (s.newNetClientLog calls raddr) = (s.newNetClient calls raddr).fds := by
  have hcontrols := s.attachLog_controls calls (newUDPClient raddr calls.socket)
  unfold newNetClient newNetClientLog
  dsimp only
  by_cases hfd : calls.socket = invalidSocket
  · have hnone : fdEvents [.opened calls.socket, .bound calls.socket calls.bind] = [] := by
      rw [hfd, fdEvents_invalid]
      rfl
    rw [if_pos hfd, if_pos hfd, if_pos hfd]
    split_ifs
    · exact hnone
    · exact hnone
  · have hopened : fdEvents [.opened calls.socket, .bound calls.socket calls.bind] =
        [.opened calls.socket] := by
      rw [fdEvents_opened _ _ hfd]
      rfl
    have hheld : heldHandle calls.socket = [calls.socket] := if_neg hfd
    rw [if_neg hfd, if_neg hfd, if_neg hfd]
    split_ifs with hbind hconnect hattached hhandle
    · exact hopened
    · rw [fdEvents_append, hopened, hcontrols.fdEvents]
      rfl
    · exact absurd hhandle hfd
    · have hclosed : fdEvents (.closed calls.socket ::
          destroyUnit (newUDPClient raddr calls.socket).getHandle) =
            [.closed calls.socket, .closed calls.socket] := by
        show fdEvents (.closed calls.socket :: (heldHandle calls.socket).map .closed) = _
        rw [hheld]
        rfl
      rw [fdEvents_append, fdEvents_append, hopened, hcontrols.fdEvents, hclosed]
      rfl
    · rw [fdEvents_append, hopened]
      rfl

/-- What `Recv` opens and closes is what its log says. -/
theorem recvLog_fds {s : UDPServer} {calls : SockCalls} {read : Option (Bytes × SockaddrIn)}
    {soc : Socket} {res : Dispatched} (h : s.recv calls read soc = some res) :
    fdEvents (s.recvLog calls read) = res.fds := by
  cases read with
  | none =>
      cases h
      rfl
  | some datagram =>
      obtain ⟨d, addr⟩ := datagram
      unfold recv onRecvByAddr at h
      dsimp only at h
      cases hget : s.allClients.lookup (makeUniqueID addr) with
      | some c =>
          rw [hget] at h
          obtain ⟨rc, -, hres⟩ := Option.bind_eq_some_iff.mp h
          cases hres
          rw [recvLog_found hget]
          rfl
      | none =>
          rw [hget] at h
          rw [recvLog_new hget, newNetClientLog_fds]
          generalize s.newNetClient calls addr = made at h ⊢
          cases hclient : made.client with
          | none =>
              rw [hclient] at h
              cases h
              rfl
          | some c =>
              rw [hclient] at h
              obtain ⟨r, -, hres⟩ := Option.bind_eq_some_iff.mp h
              cases hres
              rfl

end UDPServer

theorem ServerObject.tryListen_ends {s : ServerObject} (hsock : s.sock = invalidSocket)
    (calls : SockCalls) :
    ∃ kept, Ends calls.socket .listen kept (s.tryListen calls).log ∧
      (s.tryListen calls).server.clients = s.clients ∧
      (s.tryListen calls).server.dispatch = s.dispatch ∧
      (s.tryListen calls).server.sock = if kept then calls.socket else s.sock := by
  unfold ServerObject.tryListen
  rw [if_neg (not_not_intro hsock)]
  dsimp only
  by_cases hfd : calls.socket = invalidSocket
  · rw [if_pos hfd]
    exact ⟨false, Ends.none hfd [], rfl, rfl, rfl⟩
  · rw [if_neg hfd]
    cases hbind : calls.bind with
    | false => exact ⟨false, Ends.unbound hfd, rfl, rfl, rfl⟩
    | true =>
        have hcontrols : Controls calls.socket .listen
            [.added calls.socket .listen calls.attach,
              .modified calls.socket .listen calls.ctl] := by
          intro e he
          rcases List.mem_cons.mp he with rfl | he
          · exact ⟨_, Or.inl rfl⟩
          · exact ⟨_, Or.inr (List.mem_singleton.mp he)⟩
        refine ⟨true, ?_⟩
        rw [if_neg Bool.noConfusion]
        by_cases hctl : calls.ctl = true
        · rw [if_pos hctl]
          exact ⟨Ends.kept hfd hcontrols, rfl, rfl, rfl⟩
        · rw [if_neg hctl]
          exact ⟨Ends.kept hfd hcontrols, rfl, rfl, rfl⟩

/-- What `TryConnect` opens is kept by the client, and not watched. -/
theorem tryConnect_ends (calls : ConnectCalls) (myAddr : SockaddrIn) :
    ∃ made chunk, tryConnect calls myAddr = (made, chunk) ∧
      (∀ unit, Ends calls.socket unit made.isSome chunk) ∧ ∀ c ∈ made, c.sock = calls.socket := by
  have hnil : ∀ unit, Controls calls.socket unit [] := fun unit => List.forall_mem_nil _
  have hnobody : ∀ c ∈ (none : Option UDPClient), c.sock = calls.socket := fun c hc => by cases hc
  unfold tryConnect
  dsimp only
  cases hbind : calls.bind with
  | false =>
      rw [if_pos rfl]
      by_cases hfd : calls.socket = invalidSocket
      · exact ⟨_, _, rfl, fun unit => Ends.none hfd [false], hnobody⟩
      · exact ⟨_, _, rfl, fun unit => Ends.unbound hfd, hnobody⟩
  | true =>
      rw [if_neg Bool.noConfusion]
      by_cases hfd : calls.socket = invalidSocket
      · rw [if_pos hfd]
        exact ⟨_, _, rfl, fun unit => Ends.none hfd [true], hnobody⟩
      · rw [if_neg hfd]
        have hclosed := fun unit => Ends.closed hfd (hnil unit) false Bool.noConfusion
        cases hname : calls.getsockname with
        | false => exact ⟨_, _, rfl, hclosed, hnobody⟩
        | true =>
            rw [if_neg Bool.noConfusion]
            cases hconnect : calls.connect with
            | false => exact ⟨_, _, rfl, hclosed, hnobody⟩
            | true =>
                refine ⟨_, _, rfl, fun unit => Ends.kept hfd (hnil unit), fun c hc => ?_⟩
                cases hc
                rfl

end UdpKcp.Wheel
