import UdpKcp.Wheel.Client

/-! # Two copies of one id

A client keeps its conversation id twice: in `m_ConvID` and in the control
block. `SetKcpConvID` writes them under two guards, both of which take zero for
"not set". The copies agree along a run exactly as long as no handshake picks
the id zero.
-/

namespace UdpKcp.Wheel

open ByteCodec (Bytes)
open Ikcp Plug

/-- The states of a client along a run, the first one included; `none` when some
handshake copy is undefined, as for a read that fails or brings more than four bytes. -/
def visited (platform : Platform) : UDPClient → List Call → Option (List UDPClient)
  | c, [] => some [c]
  | c, call :: calls => do
      let c' ← c.call platform call
      let rest ← visited platform c' calls
      some (c :: rest)

/-- Block and id are there together and agree. -/
structure Consistent (c : UDPClient) : Prop where
  bound : c.plugUserData.isSome ↔ c.convID ≠ 0
  conv : ∀ block ∈ c.plugUserData, block.conv = c.convID

/-- Once there is an id, neither copy changes. -/
def KeepsId (c c' : UDPClient) : Prop :=
  c.convID ≠ 0 →
    c'.convID = c.convID ∧ c'.plugUserData.map (·.conv) = c.plugUserData.map (·.conv)

/-- A call of `Recv` that would set the id zero: a connect side that reads zero, or an
accept side whose own unique id is zero. -/
def PicksZero (platform : Platform) (c : UDPClient) : Call → Prop
  | .recv data soc =>
      c.convID = 0 ∧
        match c.clientType with
        | some .accept => c.bigID = 0
        | some .connect =>
            Plug.getKcpConvID (c.handshakeData platform data soc).1.1
              (c.handshakeData platform data soc).1.2 = some 0
        | none => False
  | _ => False

/-- No call of the run picks the id zero. -/
def AvoidsZero (platform : Platform) : UDPClient → List Call → Prop
  | _, [] => True
  | c, call :: calls =>
      ¬ PicksZero platform c call ∧ ∀ c' ∈ c.call platform call, AvoidsZero platform c' calls

/-! ## One call -/

theorem Consistent.fresh (addinfo : SockaddrIn) (soc : Handle) (tt : UDPClientType) :
    Consistent ((newUDPClient addinfo soc).setClientType tt) :=
  ⟨by simp [newUDPClient, UDPClient.setClientType], by simp [newUDPClient, UDPClient.setClientType]⟩

theorem KeepsId.refl (c : UDPClient) : KeepsId c c := fun _ => ⟨rfl, rfl⟩

theorem KeepsId.trans {a b c : UDPClient} (hab : KeepsId a b) (hbc : KeepsId b c) :
    KeepsId a c := by
  intro ha
  obtain ⟨hconv, hblock⟩ := hab ha
  obtain ⟨hconv', hblock'⟩ := hbc (by rw [hconv]; exact ha)
  exact ⟨hconv'.trans hconv, hblock'.trans hblock⟩

/-- A call that sets no id. -/
theorem Consistent.kept {c c' : UDPClient} (h : Consistent c) (hk : UDPClient.Kept c c') :
    Consistent c' ∧ KeepsId c c' := by
  have hsome : c'.plugUserData.isSome = c.plugUserData.isSome := by
    rw [← Option.isSome_map, hk.conv, Option.isSome_map]
  refine ⟨⟨?_, ?_⟩, fun _ => ⟨hk.convID, hk.conv⟩⟩
  · rw [hsome, hk.convID]
    exact h.bound
  · intro block hmem
    have hin : c.plugUserData.map (·.conv) = some block.conv := by
      rw [← hk.conv, hmem]
      rfl
    obtain ⟨old, hold, heq⟩ := Option.map_eq_some_iff.mp hin
    rw [hk.convID, ← heq]
    exact h.conv old hold

/-- With neither copy set, both become `id`; the result is consistent unless that is zero. -/
theorem setKcpConvID_consistent {c : UDPClient} (h : Consistent c) (hconv : c.convID = 0)
    (id : UInt32) : Consistent (c.setKcpConvID id) ↔ id ≠ 0 := by
  have hnone : c.plugUserData = none := by
    cases hblock : c.plugUserData with
    | none => rfl
    | some block => exact absurd hconv (h.bound.mp (by rw [hblock]; rfl))
  unfold UDPClient.setKcpConvID
  simp only [hconv, hnone, if_true]
  constructor
  · exact fun hc => hc.bound.mp rfl
  · intro hne
    refine ⟨⟨fun _ => hne, fun _ => rfl⟩, ?_⟩
    intro block hmem
    cases hmem
    rfl

/-- A `Recv` that is still part of the handshake. -/
theorem recv_consistent {platform : Platform} {c : UDPClient} (h : Consistent c)
    {data : Option Bytes} {soc : Socket} {r : Received}
    (hrecv : c.recv platform data soc = some r) :
    (¬ PicksZero platform c (.recv data soc) → Consistent r.client ∧ KeepsId c r.client) ∧
      (Consistent r.client → ¬ PicksZero platform c (.recv data soc)) := by
  cases UDPClient.recv_outcome hrecv with
  | own htype hconv =>
      have hset := setKcpConvID_consistent h hconv c.bigID
      have hpicks : PicksZero platform c (.recv data soc) ↔ c.bigID = 0 := by
        unfold PicksZero
        simp [htype, hconv]
      rw [hpicks, hset]
      exact ⟨fun hne => ⟨hne, fun hid => absurd hconv hid⟩, fun hne => hne⟩
  | read htype hconv id hid =>
      have hset := setKcpConvID_consistent h hconv id
      have hpicks : PicksZero platform c (.recv data soc) ↔ id = 0 := by
        unfold PicksZero
        simp [htype, hconv, hid]
      rw [hpicks, hset]
      exact ⟨fun hne => ⟨hne, fun hid => absurd hconv hid⟩, fun hne => hne⟩
  | kcp hpast =>
      have hpicks : ¬ PicksZero platform c (.recv data soc) := by
        rintro ⟨hconv, hzero⟩
        rw [hpast hconv] at hzero
        exact hzero
      exact ⟨fun _ => h.kept (UDPClient.Kept.recvKcp c data soc), fun _ => hpicks⟩

/-- One call keeps the copies together exactly when it does not pick the id zero. -/
theorem call_consistent {platform : Platform} {c c' : UDPClient} (h : Consistent c) {call : Call}
    (hcall : c.call platform call = some c') :
    (¬ PicksZero platform c call → Consistent c' ∧ KeepsId c c') ∧
      (Consistent c' → ¬ PicksZero platform c call) := by
  cases call with
  | send data =>
      cases hcall
      exact ⟨fun _ => h.kept (UDPClient.Kept.send c data), fun _ hp => hp⟩
  | update dlt =>
      cases hcall
      exact ⟨fun _ => h.kept (UDPClient.Kept.update c dlt), fun _ hp => hp⟩
  | recv data soc =>
      obtain ⟨r, hrecv, rfl⟩ := Option.map_eq_some_iff.mp hcall
      exact recv_consistent h hrecv

/-! ## Runs -/

theorem visited_cons {platform : Platform} {c : UDPClient} {call : Call} {calls : List Call}
    {states : List UDPClient} (h : visited platform c (call :: calls) = some states) :
    ∃ c' rest, c.call platform call = some c' ∧ visited platform c' calls = some rest ∧
      states = c :: rest := by
  unfold visited at h
  cases hcall : c.call platform call with
  | none => simp [hcall] at h
  | some c' =>
      cases hrest : visited platform c' calls with
      | none => simp [hcall, hrest] at h
      | some rest =>
          simp only [hcall, hrest, Option.bind_eq_bind, Option.bind_some, Option.some.injEq] at h
          exact ⟨c', rest, rfl, hrest, h.symm⟩

theorem visited_head {platform : Platform} {c : UDPClient} {calls : List Call}
    {states : List UDPClient} (h : visited platform c calls = some states) :
    ∃ rest, states = c :: rest := by
  cases calls with
  | nil => exact ⟨[], (Option.some.inj h).symm⟩
  | cons call calls =>
      obtain ⟨-, rest, -, -, rfl⟩ := visited_cons h
      exact ⟨rest, rfl⟩

/-- From a consistent state, a run stays consistent and keeps the id exactly when it
never picks the id zero. -/
theorem run_consistent {platform : Platform} {c : UDPClient} (h : Consistent c)
    {calls : List Call} {states : List UDPClient} (hrun : visited platform c calls = some states) :
    ((∀ d ∈ states, Consistent d) ∧ states.Pairwise KeepsId) ↔ AvoidsZero platform c calls := by
  induction calls generalizing c states with
  | nil =>
      cases hrun
      simp [AvoidsZero, h]
  | cons call calls ih =>
      obtain ⟨c', rest, hcall, hrest, rfl⟩ := visited_cons hrun
      obtain ⟨tail, htail⟩ := visited_head hrest
      obtain ⟨hto, hfrom⟩ := call_consistent h hcall
      have hc' : c' ∈ rest := by
        rw [htail]
        exact List.mem_cons_self
      unfold AvoidsZero
      constructor
      · rintro ⟨hall, hpair⟩
        have hconsistent := hall c' (List.mem_cons_of_mem _ hc')
        refine ⟨hfrom hconsistent, ?_⟩
        intro d hd
        have hsame : d = c' := Option.some.inj (hd.symm.trans hcall)
        subst hsame
        exact (ih hconsistent hrest).mp
          ⟨fun e he => hall e (List.mem_cons_of_mem _ he), (List.pairwise_cons.mp hpair).2⟩
      · rintro ⟨hpicks, hlater⟩
        obtain ⟨hconsistent, hkeeps⟩ := hto hpicks
        obtain ⟨hall, hpair⟩ := (ih hconsistent hrest).mpr (hlater c' hcall)
        constructor
        · exact List.forall_mem_cons.mpr ⟨h, hall⟩
        · refine List.pairwise_cons.mpr ⟨?_, hpair⟩
          intro d hd
          rw [htail] at hd hpair
          rcases List.mem_cons.mp hd with rfl | hd
          · exact hkeeps
          · exact hkeeps.trans ((List.pairwise_cons.mp hpair).1 d hd)

/-- For every run of a client of either type, block and id are there together, agree and
never change once set, in all its states, exactly when no handshake picks the id zero. -/
theorem conv_consistent_iff (platform : Platform) (addinfo : SockaddrIn) (soc : Handle)
    (tt : UDPClientType) (calls : List Call) {states : List UDPClient}
    (hrun : visited platform ((newUDPClient addinfo soc).setClientType tt) calls = some states) :
    ((∀ c ∈ states, Consistent c) ∧ states.Pairwise KeepsId) ↔
      AvoidsZero platform ((newUDPClient addinfo soc).setClientType tt) calls :=
  run_consistent (Consistent.fresh addinfo soc tt) hrun

/-- A connect side as `TryConnect` leaves it. -/
def connecting : UDPClient :=
  (newUDPClient { sinAddr := 0x0100007f, sinPort := 0x60ea } 5).setClientType .connect

/-- A handshake that reads seven. -/
theorem conv_consistent_seven :
    ∃ states, visited .linux connecting [.recv none [some [7, 0, 0, 0]]] = some states ∧
      (∀ c ∈ states, Consistent c) ∧ states.Pairwise KeepsId := by
  refine ⟨_, rfl, (conv_consistent_iff .linux _ 5 .connect [.recv none [some [7, 0, 0, 0]]]
    rfl).mpr ⟨?_, fun _ _ => trivial⟩⟩
  rintro ⟨-, hzero⟩
  exact absurd (Option.some.inj hzero) (by decide)

/-- A handshake that reads zero and then five: the block comes before the id and keeps
the conversation zero. -/
theorem conv_consistent_zero :
    ∃ states, visited .linux connecting
        [.recv none [some [0, 0, 0, 0]], .recv none [some [5, 0, 0, 0]]] = some states ∧
      (∃ c ∈ states, c.convID = 5 ∧ c.plugUserData.map (·.conv) = some 0) ∧
      ¬ ((∀ c ∈ states, Consistent c) ∧ states.Pairwise KeepsId) := by
  refine ⟨_, rfl, ⟨_, List.mem_of_getLast? rfl, rfl, rfl⟩, ?_⟩
  rintro ⟨hall, -⟩
  have hsecond := hall _ (List.mem_cons_of_mem _ List.mem_cons_self)
  exact hsecond.bound.mp rfl rfl

end UdpKcp.Wheel
