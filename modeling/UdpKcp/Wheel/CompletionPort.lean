import UdpKcp.Wheel.Descriptors
import UdpKcp.Wheel.Dispatch
import Mathlib.Data.Multiset.AddSub

/-! # Outstanding reads

The build without `__LINUX__`, where a socket is read by requests posted to a completion port. A
read is posted when a unit is attached and after each completion that is
handled; the server posts one more for the client that took its datagram.
-/

namespace UdpKcp.Wheel

open ByteCodec (Bytes)
open Ikcp Plug
open UDPClient (Same)

/-! ## The build -/

/-- A `NetEventInfo` of a read: its number among those allocated, and the unit that is its
`userdata`. -/
abbrev ReadInfo := ℕ × NetUnit

/-- An entry of `GetQueuedCompletionStatusEx`: the info, what was transferred to its `buf`
and its `addr`. `calls` and `soc` are what the system answers while it is handled. -/
structure Completion where
  info : ReadInfo
  data : Bytes
  addr : SockaddrIn
  calls : SockCalls
  soc : Socket

/-- The event that `NetDispatch::Update` stores. Every info that was posted has `ENE_READ`. -/
def Completion.evt (c : Completion) : UInt16 := if c.data.length = 0 then eneClose else eneRead

/-- A completion, and the server when it was handled. -/
structure Handled where
  server : UDPServer
  completion : Completion

/-- The server with its reads: how many infos were allocated, the reads posted and not
completed, the infos completed and deleted so far, and the completions handled. -/
structure Port where
  server : UDPServer
  allocated : ℕ
  outstanding : Multiset ReadInfo
  completed : List ℕ
  deleted : List ℕ
  handled : List Handled

namespace Port

/-- `CtlEvent` for `ENE_READ`, with a `WSARecvFrom` that succeeds. -/
def ctlEvent (p : Port) (unit : NetUnit) : Port :=
  { p with
    allocated := p.allocated + 1
    outstanding := (p.allocated, unit) ::ₘ p.outstanding }

/-- After `TryListen`. -/
def start : Port :=
  ctlEvent {
    server := .start
    allocated := 0
    outstanding := 0
    completed := []
    deleted := []
    handled := [] } .listen

/-- `UDPServer::Recv`. A client made meanwhile got a read from `AttachNetClient`; the one
that took the datagram gets another here. -/
def recv (p : Port) (c : Completion) : Option Port :=
  (p.server.onRecvByAddr .windows c.calls (some c.data) c.soc c.addr).map fun r =>
    let id := makeUniqueID c.addr
    let p' := { p with server := r.server }
    let attached :=
      match p.server.allClients.lookup id with
      | some _ => p'
      | none => if r.client.isSome then p'.ctlEvent (.client id) else p'
    if r.client.isSome then attached.ctlEvent (.client id) else attached

/-- `pUnit->Recv`; `none` is a client that is not there. -/
def unitRecv (p : Port) (c : Completion) : Option Port :=
  match c.info.2 with
  | .listen => p.recv c
  | .client key => do
      let client ← p.server.allClients.lookup key
      let r ← p.server.recvClient .windows key client (some c.data) c.soc
      some { p with server := r.server }

/-- The `switch` of `UDPServer::Update`. -/
def handle (p : Port) (c : Completion) : Option Port :=
  let handled := p.handled ++ [⟨p.server, c⟩]
  if c.evt = eneRead then
    (p.unitRecv c).map fun p' =>
      { p'.ctlEvent c.info.2 with deleted := p'.deleted ++ [c.info.1], handled := handled }
  else some { p with handled := handled }

def handleAll (p : Port) : List Completion → Option Port
  | [] => some p
  | c :: batch => do
      let p' ← p.handle c
      p'.handleAll batch

/-- The reads that complete are taken from the outstanding ones. -/
def dequeue (p : Port) (batch : List Completion) : Port :=
  { p with
    outstanding := p.outstanding - (batch.map (·.info) : List ReadInfo)
    completed := p.completed ++ batch.map (·.info.1) }

/-- `UDPServer::Update` with this batch of completions. -/
def update (p : Port) (dlt : UInt32) (batch : List Completion) : Option Port :=
  let updated := { p with server := p.server.updateClient dlt }
  (updated.dequeue batch).handleAll batch

/-- Only outstanding reads complete, and `WSARecvFrom` succeeds in `AttachNetClient`. -/
def Allowed (p : Port) (batch : List Completion) : Prop :=
  ((batch.map (·.info) : List ReadInfo) : Multiset ReadInfo) ≤ p.outstanding ∧
    ∀ c ∈ batch, c.calls.ctl = true

inductive Step : Port → Port → Prop where
  | update {p p' : Port} (dlt : UInt32) (batch : List Completion) (ha : p.Allowed batch)
      (h : p.update dlt batch = some p') : Step p p'

def Reachable : Port → Prop := Relation.ReflTransGen Step start

/-- The outstanding reads of a unit. -/
def reads (p : Port) (unit : NetUnit) : ℕ := p.outstanding.countP (·.2 = unit)

end Port

/-- One outstanding read for each socket, and each completed info deleted once. -/
structure OneRead (p : Port) : Prop where
  listen : p.reads .listen = 1
  clients : ∀ key c, p.server.allClients.lookup key = some c → p.reads (.client key) = 1
  deleted : ∀ id ∈ p.completed, p.deleted.count id = 1

/-- Nothing was transferred. -/
def Handled.Closes (h : Handled) : Prop := h.completion.data = []

instance (h : Handled) : Decidable h.Closes := inferInstanceAs (Decidable (_ = _))

/-- A datagram of the listening socket whose address has a client, or gets one. -/
def Handled.FindsClient (h : Handled) : Prop :=
  h.completion.info.2 = .listen ∧
    (h.server.allClients.lookup (makeUniqueID h.completion.addr) = none →
      h.completion.calls.Succeed)

instance (h : Handled) : Decidable h.FindsClient :=
  inferInstanceAs (Decidable (_ ∧ (_ → _)))

/-! ## Counting -/

/-- Completions of a unit's reads without data. -/
def closesOf (handled : List Handled) (unit : NetUnit) : ℕ :=
  handled.countP fun h => h.Closes ∧ h.completion.info.2 = unit

/-- Datagrams of the listening socket that this client took. -/
def handoversOf (handled : List Handled) (unit : NetUnit) : ℕ :=
  handled.countP fun h =>
    ¬ h.Closes ∧ h.FindsClient ∧ unit = .client (makeUniqueID h.completion.addr)

/-- The reads that a unit should have. -/
def dueReads (s : UDPServer) : NetUnit → ℕ
  | .listen => 1
  | .client key => if (s.allClients.lookup key).isSome then 1 else 0

@[simp] theorem closesOf_append (handled : List Handled) (h : Handled) (unit : NetUnit) :
    closesOf (handled ++ [h]) unit =
      closesOf handled unit + if h.Closes ∧ h.completion.info.2 = unit then 1 else 0 := by
  simp [closesOf, List.countP_cons]

@[simp] theorem handoversOf_append (handled : List Handled) (h : Handled) (unit : NetUnit) :
    handoversOf (handled ++ [h]) unit = handoversOf handled unit +
      if ¬ h.Closes ∧ h.FindsClient ∧ unit = .client (makeUniqueID h.completion.addr)
      then 1 else 0 := by
  simp [handoversOf, List.countP_cons]

@[simp] theorem reads_ctlEvent (p : Port) (unit other : NetUnit) :
    (p.ctlEvent unit).reads other = p.reads other + if unit = other then 1 else 0 := by
  simp [Port.reads, Port.ctlEvent, Multiset.countP_cons]

theorem Touched.types {s s' : UDPServer} (ht : Touched s s')
    (htypes : ∀ key c, s.allClients.lookup key = some c → c.clientType = some .accept) :
    ∀ key c, s'.allClients.lookup key = some c → c.clientType = some .accept := by
  intro key c' hc'
  obtain ⟨c, hc, hsame⟩ := ht.old key c' hc'
  exact hsame.clientType.trans (htypes key c hc)

theorem Touched.kept {s s' : UDPServer} (ht : Touched s s') (key : UInt32)
    (hsome : (s.allClients.lookup key).isSome) : (s'.allClients.lookup key).isSome := by
  obtain ⟨c, hc⟩ := Option.isSome_iff_exists.mp hsome
  obtain ⟨c', hc', -⟩ := ht.new key c hc
  simp [hc']

theorem dueReads_touched {s s' : UDPServer} (ht : Touched s s') : dueReads s' = dueReads s := by
  funext unit
  cases unit with
  | listen => rfl
  | client key =>
      have hsome : (s'.allClients.lookup key).isSome = (s.allClients.lookup key).isSome := by
        cases hget : s.allClients.lookup key with
        | some c =>
            obtain ⟨c', hc', -⟩ := ht.new key c hget
            simp [hc']
        | none =>
            cases hget' : s'.allClients.lookup key with
            | none => rfl
            | some c' =>
                obtain ⟨c, hc, -⟩ := ht.old key c' hget'
                rw [hc] at hget
                cases hget
      simp only [dueReads, hsome]

/-! ## The invariant of an Update -/

/-- Infos are told apart by their numbers, as long as they are not completed and after. -/
structure Numbered (p : Port) : Prop where
  outstanding : ∀ info ∈ p.outstanding, info.1 < p.allocated
  completed : ∀ id ∈ p.completed, id < p.allocated
  distinct : (p.outstanding.map (·.1) + (p.completed : Multiset ℕ)).Nodup

theorem Numbered.ctlEvent {p : Port} (h : Numbered p) (unit : NetUnit) :
    Numbered (p.ctlEvent unit) where
  outstanding := by
    intro info hinfo
    rcases Multiset.mem_cons.mp hinfo with rfl | hold
    · exact Nat.lt_succ_self _
    · exact Nat.lt_succ_of_lt (h.outstanding info hold)
  completed := fun id hid => Nat.lt_succ_of_lt (h.completed id hid)
  distinct := by
    have hnew : p.allocated ∉ p.outstanding.map (·.1) + (p.completed : Multiset ℕ) := by
      intro hmem
      rcases Multiset.mem_add.mp hmem with hmem | hmem
      · obtain ⟨info, hinfo, heq⟩ := Multiset.mem_map.mp hmem
        exact absurd (h.outstanding info hinfo) (by omega)
      · exact absurd (h.completed _ hmem) (by omega)
    simpa [Port.ctlEvent] using And.intro hnew h.distinct

/-- The server while the completions of `rest` have been dequeued and not yet handled. -/
structure PortInv (p : Port) (rest : List Completion) : Prop extends Numbered p where
  balance : ∀ unit, p.reads unit + closesOf p.handled unit +
    rest.countP (fun c => c.info.2 = unit) = dueReads p.server unit + handoversOf p.handled unit
  known : ∀ key, 0 < handoversOf p.handled (.client key) →
    (p.server.allClients.lookup key).isSome
  types : ∀ key c, p.server.allClients.lookup key = some c → c.clientType = some .accept
  dequeued : p.completed = p.handled.map (·.completion.info.1) ++ rest.map (·.info.1)
  released : p.deleted =
    (p.handled.filter fun h => ¬ h.Closes).map (·.completion.info.1)

theorem PortInv.start : PortInv .start [] where
  outstanding := by
    intro info hinfo
    rw [Multiset.mem_singleton.mp hinfo]
    exact Nat.zero_lt_one
  completed := List.forall_mem_nil _
  distinct := Multiset.nodup_singleton 0
  balance := by
    intro unit
    cases unit with
    | listen => rfl
    | client key => rfl
  known := fun key hpos => absurd hpos (Nat.lt_irrefl 0)
  types := fun key c hc => by cases hc
  dequeued := rfl
  released := rfl

/-- A server whose clients are the same ones owes the same reads. -/
theorem PortInv.touched {p : Port} {rest : List Completion} (h : PortInv p rest) {s' : UDPServer}
    (ht : Touched p.server s') : PortInv { p with server := s' } rest := by
  refine ⟨⟨h.outstanding, h.completed, h.distinct⟩, ?_, ?_, ht.types h.types, h.dequeued,
    h.released⟩
  · intro unit
    rw [dueReads_touched ht]
    exact h.balance unit
  · exact fun key hpos => ht.kept key (h.known key hpos)

theorem PortInv.dequeue {p : Port} (h : PortInv p []) {batch : List Completion}
    (ha : p.Allowed batch) : PortInv (p.dequeue batch) batch := by
  have hle := ha.1
  refine ⟨⟨?_, ?_, ?_⟩, ?_, h.known, h.types, ?_, h.released⟩
  · intro info hinfo
    exact h.outstanding info (Multiset.mem_of_le (Multiset.sub_le_self _ _) hinfo)
  · intro id hid
    rcases List.mem_append.mp hid with hid | hid
    · exact h.completed id hid
    · obtain ⟨c, hc, rfl⟩ := List.mem_map.mp hid
      exact h.outstanding c.info (Multiset.mem_of_le hle (List.mem_map_of_mem hc))
  · have hsplit : (p.outstanding - (batch.map (·.info) : List ReadInfo)).map (·.1) +
        ((p.completed ++ batch.map (·.info.1) : List ℕ) : Multiset ℕ) =
          p.outstanding.map (·.1) + (p.completed : Multiset ℕ) := by
      have hids : ((batch.map (·.info.1) : List ℕ) : Multiset ℕ) =
          ((batch.map (·.info) : List ReadInfo) : Multiset ReadInfo).map (·.1) := by
        simp [Function.comp_def]
      rw [← Multiset.coe_add, hids, Multiset.add_comm (p.completed : Multiset ℕ),
        ← Multiset.add_assoc, ← Multiset.map_add, Multiset.sub_add_cancel hle]
    show Multiset.Nodup (_ + _)
    exact hsplit ▸ h.distinct
  · intro unit
    have hbalance := h.balance unit
    have hcount : ((batch.map (·.info) : List ReadInfo) : Multiset ReadInfo).countP
        (·.2 = unit) = batch.countP fun c => c.info.2 = unit := by
      simp [List.countP_map, Function.comp_def]
    have hfew := Multiset.countP_le_of_le (fun info : ReadInfo => info.2 = unit) hle
    have hreads : (p.dequeue batch).reads unit =
        p.reads unit - batch.countP fun c => c.info.2 = unit := by
      rw [← hcount]
      exact Multiset.countP_sub hle _
    rw [hcount] at hfew
    have hall : p.reads unit = p.outstanding.countP (·.2 = unit) := rfl
    simp only [List.countP_nil] at hbalance
    show (p.dequeue batch).reads unit + closesOf p.handled unit + _ = _
    rw [hreads]
    show _ = dueReads p.server unit + handoversOf p.handled unit
    omega
  · have hdone := h.dequeued
    simp only [List.map_nil, List.append_nil] at hdone
    show p.completed ++ _ = _
    rw [hdone]
    rfl

/-! ## One completion -/

theorem Completion.evt_read {c : Completion} : c.evt = eneRead ↔ c.data ≠ [] := by
  unfold Completion.evt
  cases c.data with
  | nil => decide
  | cons x rest => simp

/-- Reads posted one after the other. -/
def Port.post (p : Port) (units : List NetUnit) : Port := units.foldl Port.ctlEvent p

@[simp] theorem reads_post (p : Port) (units : List NetUnit) (unit : NetUnit) :
    (p.post units).reads unit = p.reads unit + units.count unit := by
  induction units generalizing p with
  | nil => rfl
  | cons other units ih =>
      have hrest := ih (p.ctlEvent other)
      rw [reads_ctlEvent] at hrest
      have hcount : (other :: units).count unit =
          units.count unit + if other = unit then 1 else 0 := by
        simp [List.count_cons]
      show ((p.ctlEvent other).post units).reads unit = _
      omega

theorem Numbered.post {p : Port} (h : Numbered p) (units : List NetUnit) :
    Numbered (p.post units) := by
  induction units generalizing p with
  | nil => exact h
  | cons unit units ih => exact ih (h.ctlEvent unit)

/-- Posting leaves everything but the reads alone. -/
theorem post_frame (p : Port) (units : List NetUnit) :
    (p.post units).server = p.server ∧ (p.post units).completed = p.completed ∧
      (p.post units).deleted = p.deleted := by
  induction units generalizing p with
  | nil => exact ⟨rfl, rfl, rfl⟩
  | cons unit units ih => exact ih (p.ctlEvent unit)

/-- What the `Recv` of a completion with data leaves: the server, and the reads it posted. -/
structure Posts (h : Handled) (s' : UDPServer) (units : List NetUnit) : Prop where
  due : ∀ unit, dueReads s' unit +
    (if h.FindsClient ∧ unit = .client (makeUniqueID h.completion.addr) then 1 else 0) =
      dueReads h.server unit + units.count unit
  kept : ∀ key, (h.server.allClients.lookup key).isSome → (s'.allClients.lookup key).isSome
  present : h.FindsClient → (s'.allClients.lookup (makeUniqueID h.completion.addr)).isSome
  types : (∀ key c, h.server.allClients.lookup key = some c → c.clientType = some .accept) →
    ∀ key c, s'.allClients.lookup key = some c → c.clientType = some .accept

theorem Outcome.not_succeed {s : UDPServer} {calls : SockCalls} {raddr : SockaddrIn}
    {made : NewClient} (h : Outcome s calls raddr made) (hnull : made.client = none) :
    ¬ calls.Succeed := by
  rintro ⟨hfd, hbind, hconnect, hattach⟩
  cases h with
  | noSocket hno => exact hfd hno
  | unbound hleaks => simp [SockCalls.Leaks, hbind] at hleaks
  | unconnected _ _ hno => simp [hconnect] at hno
  | unattached hdoubles => exact hdoubles.2.2.2 hattach
  | attached _ => simp at hnull

/-- A datagram of the listening socket. -/
theorem recv_posts {p p' : Port} {c : Completion} (hunit : c.info.2 = .listen)
    (h : p.recv c = some p') :
    ∃ s' units, p' = Port.post { p with server := s' } units ∧ Posts ⟨p.server, c⟩ s' units := by
  obtain ⟨r, hr, rfl⟩ := Option.map_eq_some_iff.mp h
  have hcontact := onRecvByAddr_contacted hr
  dsimp only
  generalize r.client.isSome = answered at hcontact
  generalize r.server = s' at hcontact
  generalize r.fds = events at hcontact
  cases hcontact with
  | found hget ht =>
      have hfinds : Handled.FindsClient ⟨p.server, c⟩ := by
        refine ⟨hunit, fun hnone => ?_⟩
        rw [hget] at hnone
        cases hnone
      rw [hget]
      refine ⟨s', [.client (makeUniqueID c.addr)], rfl, ?_, ht.kept, ?_, ht.types⟩
      · intro unit
        rw [dueReads_touched ht]
        by_cases hunit' : unit = .client (makeUniqueID c.addr)
        · simp [hfinds, hunit']
        · simp [hunit', Ne.symm hunit']
      · exact fun _ => ht.kept _ (by simp [hget])
  | refused hnone hout hnull =>
      have hfinds : ¬ Handled.FindsClient ⟨p.server, c⟩ :=
        fun hf => hout.not_succeed hnull (hf.2 hnone)
      rw [hnone]
      exact ⟨p.server, [], rfl, by simp [hfinds], fun _ hkept => hkept,
        fun hf => absurd hf hfinds, fun htypes => htypes⟩
  | @attached client _ hnone hcalls hsame htable =>
      have hfinds : Handled.FindsClient ⟨p.server, c⟩ := ⟨hunit, fun _ => hcalls⟩
      rw [hnone]
      refine ⟨s', [.client (makeUniqueID c.addr), .client (makeUniqueID c.addr)], rfl, ?_, ?_, ?_,
        ?_⟩
      · intro unit
        cases unit with
        | listen => simp [dueReads]
        | client key =>
            by_cases hkey : key = makeUniqueID c.addr
            · subst hkey
              simp [dueReads, htable, hnone, hfinds]
            · have hother : ¬ makeUniqueID c.addr = key := fun heq => hkey heq.symm
              simp [dueReads, htable, hkey, hother]
      · intro key hsome
        rw [htable]
        split
        · rfl
        · exact hsome
      · exact fun _ => by simp [htable]
      · intro htypes key d hd
        rw [htable] at hd
        split at hd
        · cases hd
          exact hsame.clientType
        · exact htypes key d hd

theorem unitRecv_posts {p p' : Port} {c : Completion} (h : p.unitRecv c = some p') :
    ∃ s' units, p' = Port.post { p with server := s' } units ∧ Posts ⟨p.server, c⟩ s' units := by
  unfold Port.unitRecv at h
  cases hunit : c.info.2 with
  | listen =>
      rw [hunit] at h
      exact recv_posts hunit h
  | client key =>
      rw [hunit] at h
      obtain ⟨client, hget, hrest⟩ := Option.bind_eq_some_iff.mp h
      obtain ⟨r, hr, hres⟩ := Option.bind_eq_some_iff.mp hrest
      obtain ⟨rc, hrc, hres'⟩ := Option.bind_eq_some_iff.mp hr
      cases hres'
      cases hres
      have ht := Touched.put hget (Same.recv hrc)
      have hfinds : ¬ Handled.FindsClient ⟨p.server, c⟩ := by
        rintro ⟨hlisten, -⟩
        cases hlisten.symm.trans hunit
      refine ⟨_, [], rfl, ?_, ht.kept, fun hf => absurd hf hfinds, ht.types⟩
      intro unit
      rw [dueReads_touched ht]
      simp [hfinds]

/-- A completion without data: the info is forgotten. -/
theorem PortInv.closes {p : Port} {c : Completion} {rest : List Completion}
    (h : PortInv p (c :: rest)) (hdata : c.data = []) :
    PortInv { p with handled := p.handled ++ [⟨p.server, c⟩] } rest := by
  have hcloses : Handled.Closes ⟨p.server, c⟩ := hdata
  refine ⟨⟨h.outstanding, h.completed, h.distinct⟩, ?_, ?_, h.types, ?_, ?_⟩
  · intro unit
    have hbalance := h.balance unit
    rw [List.countP_cons] at hbalance
    show p.reads unit + closesOf (p.handled ++ [⟨p.server, c⟩]) unit + _ =
      dueReads p.server unit + handoversOf (p.handled ++ [⟨p.server, c⟩]) unit
    simp only [closesOf_append, handoversOf_append, hcloses, true_and, not_true, false_and,
      if_false]
    simp only [decide_eq_true_eq] at hbalance
    omega
  · intro key hpos
    apply h.known key
    simpa [hcloses] using hpos
  · simpa using h.dequeued
  · simpa [hcloses] using h.released

/-- A completion with data: the unit gets its read back, and the info is deleted. -/
theorem PortInv.reads {p : Port} {c : Completion} {rest : List Completion}
    (h : PortInv p (c :: rest)) (hdata : c.data ≠ []) {s' : UDPServer} {units : List NetUnit}
    (hposts : Posts ⟨p.server, c⟩ s' units) :
    PortInv {
      (Port.post { p with server := s' } units).ctlEvent c.info.2 with
      deleted := (Port.post { p with server := s' } units).deleted ++ [c.info.1]
      handled := p.handled ++ [⟨p.server, c⟩] } rest := by
  have hcloses : ¬ Handled.Closes ⟨p.server, c⟩ := hdata
  obtain ⟨hserver, hcompleted, hdeleted⟩ := post_frame { p with server := s' } units
  have hbefore : Numbered { p with server := s' } := ⟨h.outstanding, h.completed, h.distinct⟩
  have hnumbered := (hbefore.post units).ctlEvent c.info.2
  refine ⟨⟨hnumbered.outstanding, hnumbered.completed, hnumbered.distinct⟩, ?_, ?_, ?_, ?_, ?_⟩
  · intro unit
    have hbalance := h.balance unit
    have hdue := hposts.due unit
    have hreads : ((Port.post { p with server := s' } units).ctlEvent c.info.2).reads unit =
        p.reads unit + units.count unit + if c.info.2 = unit then 1 else 0 := by
      rw [reads_ctlEvent, reads_post]
      rfl
    rw [List.countP_cons] at hbalance
    simp only [decide_eq_true_eq] at hbalance
    show ((Port.post { p with server := s' } units).ctlEvent c.info.2).reads unit +
      closesOf (p.handled ++ [⟨p.server, c⟩]) unit + _ =
        dueReads (Port.post { p with server := s' } units).server unit +
          handoversOf (p.handled ++ [⟨p.server, c⟩]) unit
    rw [hserver, hreads]
    simp only [closesOf_append, handoversOf_append, hcloses, false_and, not_false_eq_true,
      true_and, if_false]
    dsimp only at hdue ⊢
    omega
  · intro key hpos
    show ((Port.post { p with server := s' } units).server.allClients.lookup key).isSome
    rw [hserver]
    by_cases hfinds : Handled.FindsClient ⟨p.server, c⟩ ∧ key = makeUniqueID c.addr
    · rw [hfinds.2]
      exact hposts.present hfinds.1
    · apply hposts.kept
      apply h.known key
      simpa [hcloses, hfinds] using hpos
  · show ∀ key d, (Port.post { p with server := s' } units).server.allClients.lookup key =
      some d → d.clientType = some .accept
    rw [hserver]
    exact hposts.types h.types
  · show (Port.post { p with server := s' } units).completed = _
    rw [hcompleted]
    simpa using h.dequeued
  · show (Port.post { p with server := s' } units).deleted ++ [c.info.1] = _
    rw [hdeleted]
    simp [hcloses, h.released]

theorem PortInv.handle {p p' : Port} {c : Completion} {rest : List Completion}
    (h : PortInv p (c :: rest)) (hh : p.handle c = some p') : PortInv p' rest := by
  unfold Port.handle at hh
  dsimp only at hh
  split at hh
  · rename_i hevt
    obtain ⟨p1, hrecv, rfl⟩ := Option.map_eq_some_iff.mp hh
    obtain ⟨s', units, rfl, hposts⟩ := unitRecv_posts hrecv
    exact h.reads (Completion.evt_read.mp hevt) hposts
  · rename_i hevt
    cases hh
    exact h.closes (by_contra fun hdata => hevt (Completion.evt_read.mpr hdata))

theorem PortInv.handleAll {p p' : Port} {batch : List Completion} (h : PortInv p batch)
    (hh : p.handleAll batch = some p') : PortInv p' [] := by
  induction batch generalizing p with
  | nil =>
      cases hh
      exact h
  | cons c batch ih =>
      obtain ⟨p1, hfirst, hrest⟩ := Option.bind_eq_some_iff.mp hh
      exact ih (h.handle hfirst) hrest

theorem portInv_of_reachable {p : Port} (h : p.Reachable) : PortInv p [] := by
  induction h with
  | refl => exact PortInv.start
  | tail _ hs ih =>
      cases hs with
      | update dlt batch ha hupdate =>
          exact ((ih.touched (Touched.updateClient _ dlt)).dequeue ha).handleAll hupdate

/-! ## Every Update ends -/

theorem onRecvByAddr_total {platform : Platform} {s : UDPServer}
    (htypes : ∀ key c, s.allClients.lookup key = some c → c.clientType = some .accept)
    (calls : SockCalls) (data : Option Bytes) (soc : Socket) (addr : SockaddrIn) :
    ∃ r, s.onRecvByAddr platform calls data soc addr = some r := by
  unfold UDPServer.onRecvByAddr UDPServer.recvClient
  dsimp only
  cases hget : s.allClients.lookup (makeUniqueID addr) with
  | some c =>
      obtain ⟨rc, hrc⟩ := UDPClient.recv_accept_total (htypes _ c hget) platform data soc
      simp [hrc]
  | none =>
      have hout := newNetClient_outcome calls hget
      generalize s.newNetClient calls addr = made at hout
      cases hout with
      | attached hcalls =>
          obtain ⟨rc, hrc⟩ := UDPClient.recv_accept_total
            (show (acceptedClient addr calls.socket).clientType = some .accept from rfl)
            platform data soc
          simp [hrc]
      | _ => exact ⟨_, rfl⟩

theorem PortInv.handle_total {p : Port} {c : Completion} {rest : List Completion}
    (h : PortInv p (c :: rest)) : ∃ p', p.handle c = some p' := by
  have hrecv : ∃ p', p.unitRecv c = some p' := by
    unfold Port.unitRecv
    cases hunit : c.info.2 with
    | listen =>
        obtain ⟨r, hr⟩ := onRecvByAddr_total h.types c.calls (some c.data) c.soc c.addr
        unfold Port.recv
        rw [hr]
        exact ⟨_, rfl⟩
    | client key =>
        -- the read of a client that is not there would be one too many
        have hsome : (p.server.allClients.lookup key).isSome := by
          by_contra hnone
          have hbalance := h.balance (.client key)
          have hfew : handoversOf p.handled (.client key) = 0 := by
            by_contra hpos
            exact hnone (h.known key (Nat.pos_of_ne_zero hpos))
          simp [hunit, dueReads, hnone, hfew] at hbalance
        obtain ⟨client, hget⟩ := Option.isSome_iff_exists.mp hsome
        obtain ⟨rc, hrc⟩ := UDPClient.recv_accept_total (h.types key client hget) .windows
          (some c.data) c.soc
        simp [hget, UDPServer.recvClient, hrc]
  obtain ⟨p1, hp1⟩ := hrecv
  unfold Port.handle
  dsimp only
  split
  · rw [hp1]
    exact ⟨_, rfl⟩
  · exact ⟨_, rfl⟩

theorem PortInv.handleAll_total {p : Port} {batch : List Completion} (h : PortInv p batch) :
    ∃ p', p.handleAll batch = some p' := by
  induction batch generalizing p with
  | nil => exact ⟨p, rfl⟩
  | cons c batch ih =>
      obtain ⟨p1, hp1⟩ := h.handle_total
      obtain ⟨p', hp'⟩ := ih (h.handle hp1)
      exact ⟨p', by simp [Port.handleAll, hp1, hp']⟩

/-- No unit is called that is not there, so every allowed batch is handled. -/
theorem update_total {p : Port} (h : p.Reachable) (dlt : UInt32) {batch : List Completion}
    (ha : p.Allowed batch) : ∃ p', p.update dlt batch = some p' ∧ Port.Step p p' := by
  have hupdated := (portInv_of_reachable h).touched (Touched.updateClient p.server dlt)
  obtain ⟨p', hp'⟩ := (hupdated.dequeue ha).handleAll_total
  exact ⟨p', hp', .update dlt batch ha hp'⟩

/-! ## The count of reads -/

/-- After every `Update`: a unit has lost the reads that completed without data, and a client
has one more for every datagram of the listening socket that it took. -/
theorem reads_balance {p : Port} (h : p.Reachable) (unit : NetUnit) :
    p.reads unit + closesOf p.handled unit =
      dueReads p.server unit + handoversOf p.handled unit := by
  simpa using (portInv_of_reachable h).balance unit

/-- Along a run there is one outstanding read for each socket, and every completed info is
deleted once, exactly as long as no completion is without data and no datagram of the
listening socket finds or gets a client. -/
theorem oneRead_iff {p : Port} (h : p.Reachable) :
    OneRead p ↔ ∀ x ∈ p.handled, ¬ x.Closes ∧ ¬ x.FindsClient := by
  have hinv := portInv_of_reachable h
  have hcompleted : p.completed = p.handled.map (·.completion.info.1) := by
    simpa using hinv.dequeued
  have hnodup : (p.handled.map (·.completion.info.1)).Nodup := by
    rw [← hcompleted]
    exact Multiset.coe_nodup.mp (Multiset.nodup_add.mp hinv.distinct).2.1
  constructor
  · intro hone
    have hdata : ∀ x ∈ p.handled, ¬ x.Closes := by
      intro x hx hcloses
      have hmem : x.completion.info.1 ∈ p.completed := by
        rw [hcompleted]
        exact List.mem_map_of_mem hx
      have hcount := hone.deleted _ hmem
      rw [hinv.released] at hcount
      have hdeleted := List.count_pos_iff.mp (Nat.lt_of_lt_of_eq Nat.zero_lt_one hcount.symm)
      obtain ⟨y, hy, heq⟩ := List.mem_map.mp hdeleted
      obtain ⟨hyin, hyopen⟩ := List.mem_filter.mp hy
      rw [List.inj_on_of_nodup_map hnodup hyin hx heq] at hyopen
      simp [hcloses] at hyopen
    intro x hx
    refine ⟨hdata x hx, ?_⟩
    intro hfinds
    have hbalance := reads_balance h (.client (makeUniqueID x.completion.addr))
    have hpos : 0 < handoversOf p.handled (.client (makeUniqueID x.completion.addr)) :=
      List.countP_pos_iff.mpr ⟨x, hx, by simp [hdata x hx, hfinds]⟩
    have hnone : closesOf p.handled (.client (makeUniqueID x.completion.addr)) = 0 :=
      List.countP_eq_zero.mpr fun y hy => by simp [hdata y hy]
    have hsome := hinv.known _ hpos
    obtain ⟨client, hget⟩ := Option.isSome_iff_exists.mp hsome
    have hreads := hone.clients _ client hget
    simp [dueReads, hget, hnone, hreads] at hbalance
    omega
  · intro hclean
    have hcloses : ∀ unit, closesOf p.handled unit = 0 :=
      fun unit => List.countP_eq_zero.mpr fun y hy => by simp [(hclean y hy).1]
    have hhandovers : ∀ unit, handoversOf p.handled unit = 0 :=
      fun unit => List.countP_eq_zero.mpr fun y hy => by simp [(hclean y hy).2]
    have hreads : ∀ unit, p.reads unit = dueReads p.server unit := by
      intro unit
      simpa [hcloses, hhandovers] using reads_balance h unit
    refine ⟨hreads .listen, ?_, ?_⟩
    · intro key c hc
      rw [hreads]
      simp [dueReads, hc]
    · intro id hid
      have hall : p.handled.filter (fun x => ¬ x.Closes) = p.handled :=
        List.filter_eq_self.mpr fun x hx => by simp [(hclean x hx).1]
      rw [hinv.released, hall, ← hcompleted]
      rw [← hcompleted] at hnodup
      exact List.count_eq_one_of_mem hnodup hid

/-! ## First completions -/

/-- The first read of the listening socket completes. -/
def firstRead (data : Bytes) (calls : SockCalls) : Completion where
  info := (0, .listen)
  data := data
  addr := { sinAddr := 1, sinPort := 2 }
  calls := calls
  soc := []

theorem firstRead_reachable (data : Bytes) (calls : SockCalls) (hctl : calls.ctl = true) {p : Port}
    (h : Port.start.update 0 [firstRead data calls] = some p) : p.Reachable := by
  refine Relation.ReflTransGen.single (.update 0 [firstRead data calls] ⟨le_refl _, ?_⟩ h)
  intro c hc
  rw [List.mem_singleton.mp hc]
  exact hctl

/-- A datagram for which no client could be made. -/
theorem oneRead_refused :
    ∃ p, Port.start.update 0 [firstRead [104] { SockCalls.succeed 5 with bind := false }] = some p ∧
      OneRead p := by
  refine ⟨_, rfl, (oneRead_iff (firstRead_reachable [104]
    { SockCalls.succeed 5 with bind := false } rfl rfl)).mpr ?_⟩
  intro x hx
  rw [List.mem_singleton.mp hx]
  decide

/-- A first datagram leaves two reads for its client, and a datagram without data leaves the
listening socket without a read. -/
theorem oneRead_first :
    (∃ p, Port.start.update 0 [firstRead [104] (.succeed 5)] = some p ∧ p.Reachable ∧
      p.reads (.client (makeUniqueID { sinAddr := 1, sinPort := 2 })) = 2 ∧ ¬ OneRead p) ∧
    ∃ p, Port.start.update 0 [firstRead [] (.succeed 5)] = some p ∧ p.Reachable ∧
      p.reads .listen = 0 ∧ p.completed = [0] ∧ p.deleted = [] ∧ ¬ OneRead p := by
  constructor
  · refine ⟨_, rfl, firstRead_reachable [104] (.succeed 5) rfl rfl, rfl, ?_⟩
    intro hone
    have hreads := hone.clients (makeUniqueID { sinAddr := 1, sinPort := 2 }) _ rfl
    exact absurd hreads (by decide)
  · refine ⟨_, rfl, firstRead_reachable [] (.succeed 5) rfl rfl, rfl, rfl, rfl, ?_⟩
    intro hone
    exact absurd hone.listen (by decide)

end UdpKcp.Wheel
