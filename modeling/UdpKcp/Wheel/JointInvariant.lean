import UdpKcp.Wheel.Conduct
import UdpKcp.Wheel.Joint

/-! # What holds of every joint state

Both clients keep their type and a healthy block, the accept side is past its
first `Recv` as soon as it is there, the origin of a datagram bounds its length,
and each copy of the handshake is in bounds exactly when the read it comes from
brought an id reply or a short raw payload.
-/

namespace UdpKcp.Wheel

open ByteCodec (Bytes encodeLE)
open Ikcp Plug
open UDPClient (Kept Same)

/-- A client of type `side` as the joint system has it. -/
structure ClientInv (side : UDPClientType) (c : UDPClient) : Prop where
  clientType : c.clientType = some side
  buffOffset : c.buffOffset = 0
  healthy : Healthy c

theorem ClientInv.same {side : UDPClientType} {c c' : UDPClient} (h : ClientInv side c)
    (hs : Same c c') (hh : Healthy c') : ClientInv side c' :=
  ⟨hs.clientType.trans h.clientType, hs.buffOffset.trans h.buffOffset, hh⟩

/-- The read behind a copy, if there is one, found an id reply or a raw payload of at most
four bytes. -/
def Copy.Short (copy : Copy) : Prop :=
  ∀ result, copy.read = some result → ∃ d, result = some d ∧ d.origin ≠ .output ∧
    (d.origin = .raw → d.bytes.length ≤ 4)

structure Joint.Inv (addr : SockaddrIn) (s : Joint) : Prop where
  clients : ∀ side c, s.client addr side = some c → ClientInv side c
  entries : ∀ key c, s.server.allClients.lookup key = some c → Entry key c
  idReply : ∀ d ∈ s.toClient, d.origin = .idReply → d.bytes.length = 4
  output : ∀ d ∈ s.toClient, d.origin = .output → ikcpOverhead ≤ d.bytes.length
  small : ∀ side, ∀ m ∈ s.accepted side, Framing.pieceCount plugMss m.length < ikcpWndRcv.toNat
  copies : ∀ copy ∈ s.copies, copy.InBounds ↔ copy.Short

theorem Joint.Inv.start (addr info : SockaddrIn) (soc : Handle) : Inv addr (start info soc) where
  clients := by
    intro side c hc
    cases side with
    | connect =>
        cases hc
        exact ⟨rfl, rfl, Healthy.fresh info soc .connect⟩
    | accept => cases hc
  entries := fun key c hc => by cases hc
  idReply := List.forall_mem_nil _
  output := List.forall_mem_nil _
  small := fun side m hm => absurd hm List.not_mem_nil
  copies := List.forall_mem_nil _

/-! ## Copies -/

/-- What a connect side without an id copies: the bytes of the first read, or a length of
-1 when that read fails. -/
theorem handshakeData_read {c : UDPClient} (hbuff : c.buffOffset = 0)
    (reads : List (Option Datagram)) :
    (c.handshakeData .linux none (bytesOf reads)).1 =
      match reads.head?.join with
      | some d => (d.bytes.take maxClientBuffLen, (d.bytes.take maxClientBuffLen).length)
      | none => ([], -1) := by
  have hleft : c.getBuffLeftLen.toNat = maxClientBuffLen := by
    rw [UDPClient.getBuffLeftLen_full hbuff]
    rfl
  unfold UDPClient.handshakeData UDPClient.realRecv
  rw [hleft]
  cases reads with
  | nil => rfl
  | cons read reads =>
      cases read with
      | none => rfl
      | some d => rfl

theorem head_read_mem {reads : List (Option Datagram)} {d : Datagram}
    (h : reads.head?.join = some d) : some d ∈ reads := by
  cases reads with
  | nil => cases h
  | cons read reads =>
      cases read with
      | none => cases h
      | some d' =>
          cases h
          exact List.mem_cons_self

/-- A failed read is copied with length -1. -/
theorem failed_inBounds : ¬ Copy.InBounds { data := [], len := -1, read := some none } := by
  rintro ⟨hneg, -⟩
  exact absurd hneg (by decide)

/-- A successful read is copied in bounds when the datagram has at most four bytes. -/
theorem read_inBounds {d : Datagram} :
    Copy.InBounds {
      data := d.bytes.take maxClientBuffLen
      len := (d.bytes.take maxClientBuffLen).length
      read := some (some d) } ↔ d.bytes.length ≤ 4 := by
  unfold Copy.InBounds maxClientBuffLen
  simp only [List.length_take]
  omega

theorem copies_connect {s : Joint} {addr : SockaddrIn} (h : s.Inv addr)
    {reads : List (Option Datagram)} (hreads : ∀ d, some d ∈ reads → d ∈ s.toClient) :
    ∀ copy ∈ s.connect.copies reads, copy.InBounds ↔ copy.Short := by
  have hc := h.clients .connect s.connect rfl
  intro copy hcopy
  unfold UDPClient.copies at hcopy
  rw [hc.clientType] at hcopy
  dsimp only at hcopy
  split at hcopy
  · rw [List.mem_singleton, handshakeData_read hc.buffOffset] at hcopy
    subst hcopy
    cases hread : reads.head?.join with
    | none =>
        have hshort : ¬ Copy.Short { data := [], len := -1, read := some none } := by
          intro hs
          obtain ⟨d, hd, -⟩ := hs none rfl
          cases hd
        exact iff_of_false failed_inBounds hshort
    | some d =>
        have hmem := hreads d (head_read_mem hread)
        refine read_inBounds.trans ⟨?_, ?_⟩
        · intro hlen result hresult
          refine ⟨d, (Option.some.inj hresult).symm, ?_, fun _ => hlen⟩
          intro horigin
          have hlong := h.output d hmem horigin
          unfold ikcpOverhead at hlong
          omega
        · intro hs
          obtain ⟨d', hd, hne, hraw⟩ := hs (some d) rfl
          cases hd
          cases horigin : d.origin with
          | idReply => exact Nat.le_of_eq (h.idReply d hmem horigin)
          | raw => exact hraw horigin
          | output => exact absurd horigin hne
  · exact absurd hcopy List.not_mem_nil

theorem getKcpConvID_eq_none {data : Bytes} {len : Int} :
    Plug.getKcpConvID data len = none ↔ ¬ (0 ≤ len ∧ len ≤ 4) := by
  unfold Plug.getKcpConvID
  by_cases hlen : 0 ≤ len ∧ len ≤ 4
  · simp [hlen]
  · simp [hlen]

/-- A `Recv` of the connect side is undefined exactly when its copy is out of bounds. -/
theorem recv_undefined_iff {c : UDPClient} (h : ClientInv .connect c)
    (reads : List (Option Datagram)) :
    c.recv .linux none (bytesOf reads) = none ↔ ∃ copy ∈ c.copies reads, ¬ copy.InBounds := by
  by_cases hconv : c.convID = 0
  · rw [UDPClient.recv_connect h.clientType hconv, Option.map_eq_none_iff, getKcpConvID_eq_none,
      handshakeData_read h.buffOffset]
    unfold UDPClient.copies
    rw [h.clientType]
    simp only [UDPClient.getKcpConvID, hconv, if_true, List.mem_singleton, exists_eq_left,
      handshakeData_read h.buffOffset]
    unfold Copy.InBounds
    cases reads.head?.join with
    | none => simp
    | some d => simp
  · rw [UDPClient.recv_plugged hconv]
    unfold UDPClient.copies
    rw [h.clientType]
    simp [UDPClient.getKcpConvID, hconv]

/-- The accept side copies its own id, which needs no read. -/
theorem copies_own {c : UDPClient} (htype : c.clientType = some .accept)
    (reads : List (Option Datagram)) :
    ∀ copy ∈ c.copies reads, copy.InBounds ∧ copy.read = none := by
  intro copy hcopy
  unfold UDPClient.copies at hcopy
  rw [htype] at hcopy
  dsimp only at hcopy
  split at hcopy
  · rw [List.mem_singleton] at hcopy
    subst hcopy
    have hlen : (encodeLE 4 c.getUniqueID.toNat).length = 4 := ByteCodec.encodeLE_length 4 _
    unfold Copy.InBounds
    simp [hlen]
  · exact absurd hcopy List.not_mem_nil

theorem copies_accept {c : UDPClient} (htype : c.clientType = some .accept)
    (reads : List (Option Datagram)) :
    ∀ copy ∈ c.copies reads, copy.InBounds ∧ copy.Short := by
  intro copy hcopy
  obtain ⟨hin, hread⟩ := copies_own htype reads copy hcopy
  refine ⟨hin, ?_⟩
  intro result hresult
  rw [hread] at hresult
  cases hresult

/-! ## One action -/

/-- A call on a client: what it leaves, what is sent and accepted meanwhile, and the copies. -/
inductive CallResult (c : UDPClient) :
    UDPClient → List Datagram → List Bytes → List Copy → Prop where
  | send (payload : Bytes) :
      CallResult c (c.send payload).client (c.send payload).sent (c.send payload).accepted []
  | update (dlt : UInt32) : CallResult c (c.update dlt).1 (c.update dlt).2 [] []
  | recv {data : Option Bytes} {reads : List (Option Datagram)} {r : Received}
      (hr : c.recv .linux data (bytesOf reads) = some r) :
      CallResult c r.client r.sent r.accepted (c.copies reads)

/-- What an action does: a call on one side, an undefined copy, or nothing. -/
inductive Acts (addr : SockaddrIn) (s : Joint) (a : Action) : Joint → Prop where
  | connect {c : UDPClient} {sent : List Datagram} {messages : List Bytes} {copies : List Copy}
      (hside : ¬ a.ofServer) (hcall : CallResult s.connect c sent messages copies)
      (hcopies : ∀ copy ∈ copies, copy.InBounds ∧ copy.Short) :
      Acts addr s a (s.connected c sent messages copies)
  | accept {c c' : UDPClient} {server : UDPServer} {sent : List Datagram} {messages : List Bytes}
      {copies : List Copy} (hside : a.ofServer)
      (hold : s.accepting addr = some c ∨
        s.accepting addr = none ∧ ∃ fd, c = acceptedClient addr fd)
      (hcall : CallResult c c' sent messages copies) (hentry : Entry (makeUniqueID addr) c')
      (htable : ∀ key, server.allClients.lookup key =
        if key = makeUniqueID addr then some c' else s.server.allClients.lookup key)
      (hcopies : ∀ copy ∈ copies, copy.InBounds ∧ copy.Short) :
      Acts addr s a (s.served server sent messages copies)
  | undefined {copies : List Copy} (hside : ¬ a.ofServer)
      (hcopies : ∀ copy ∈ copies, copy.InBounds ↔ copy.Short)
      (hout : ∃ copy ∈ copies, ¬ copy.InBounds) : Acts addr s a (s.broken copies)
  | nothing (hside : a.ofServer) (hnone : s.accepting addr = none) : Acts addr s a s

theorem CallResult.call {c c' : UDPClient} {sent : List Datagram} {messages : List Bytes}
    {copies : List Copy} (h : CallResult c c' sent messages copies) :
    ∃ call, c.call .linux call = some c' := by
  cases h with
  | send payload => exact ⟨.send payload, rfl⟩
  | update dlt => exact ⟨.update dlt, rfl⟩
  | recv hr => exact ⟨.recv _ _, congrArg (Option.map Received.client) hr⟩

theorem CallResult.healthy {c c' : UDPClient} {sent : List Datagram} {messages : List Bytes}
    {copies : List Copy} (h : CallResult c c' sent messages copies) (hc : Healthy c) :
    Healthy c' ∧ Conduct sent messages := by
  cases h with
  | send payload => exact hc.send payload
  | update dlt => exact hc.update dlt
  | recv hr => exact hc.recv hr

theorem ClientInv.called {side : UDPClientType} {c c' : UDPClient} (h : ClientInv side c)
    {sent : List Datagram} {messages : List Bytes} {copies : List Copy}
    (hcall : CallResult c c' sent messages copies) :
    ClientInv side c' ∧ Conduct sent messages := by
  obtain ⟨call, hc'⟩ := hcall.call
  obtain ⟨hh, hconduct⟩ := hcall.healthy h.healthy
  exact ⟨h.same (Same.call hc') hh, hconduct⟩

/-- What an action amounts to: a call on one of the clients, all of whose copies were in
bounds, or a copy that was not. -/
inductive Acted (addr : SockaddrIn) (s : Joint) : Joint → Prop where
  | connected (c : UDPClient) (sent : List Datagram) (messages : List Bytes) (copies : List Copy)
      (hc : ClientInv .connect c) (hconduct : Conduct sent messages)
      (hcopies : ∀ copy ∈ copies, copy.InBounds ∧ copy.Short) :
      Acted addr s (s.connected c sent messages copies)
  | served (server : UDPServer) (c : UDPClient) (sent : List Datagram) (messages : List Bytes)
      (copies : List Copy)
      (htable : ∀ key, server.allClients.lookup key =
        if key = makeUniqueID addr then some c else s.server.allClients.lookup key)
      (hentry : Entry (makeUniqueID addr) c) (hc : ClientInv .accept c)
      (hconduct : Conduct sent messages)
      (hcopies : ∀ copy ∈ copies, copy.InBounds ∧ copy.Short) :
      Acted addr s (s.served server sent messages copies)
  | broken (copies : List Copy) (hcopies : ∀ copy ∈ copies, copy.InBounds ↔ copy.Short)
      (hout : ∃ copy ∈ copies, ¬ copy.InBounds) : Acted addr s (s.broken copies)
  | idle : Acted addr s s

section Action

variable {s : Joint} {addr : SockaddrIn}

/-- A datagram at the listening socket is a `Recv` of the accept side, made if need be. -/
theorem act_datagram {fd : Handle} (hfd : fd ≠ invalidSocket) {d : Datagram}
    {reads : List (Option Datagram)} {rc : Received}
    (hrc : ((s.accepting addr).getD (acceptedClient addr fd)).recv .linux
      (some (d.bytes.take maxClientBuffLen)) (bytesOf reads) = some rc) :
    ∃ server, s.act addr (.datagram fd d reads) = s.served server rc.sent rc.accepted
        (((s.accepting addr).getD (acceptedClient addr fd)).copies reads) ∧
      ∀ key, server.allClients.lookup key =
        if key = makeUniqueID addr then some rc.client else s.server.allClients.lookup key := by
  obtain ⟨r, hr, hd⟩ := UDPServer.recv_dispatches hfd hrc
  refine ⟨r.server, ?_, hd.table⟩
  unfold Joint.act
  dsimp only
  rw [hr]
  dsimp only
  rw [hd.sent, hd.accepted]

theorem copies_append {copies : List Copy} (hall : ∀ copy ∈ s.copies, copy.InBounds ↔ copy.Short)
    (hcopies : ∀ copy ∈ copies, copy.InBounds ↔ copy.Short) :
    ∀ copy ∈ s.copies ++ copies, copy.InBounds ↔ copy.Short :=
  fun copy hcopy => (List.mem_append.mp hcopy).elim (hall copy) (hcopies copy)

theorem copies_both {copies : List Copy} (h : ∀ copy ∈ copies, copy.InBounds ∧ copy.Short) :
    ∀ copy ∈ copies, copy.InBounds ↔ copy.Short :=
  fun copy hcopy => iff_of_true (h copy hcopy).1 (h copy hcopy).2

variable (h : s.Inv addr)

include h

theorem Joint.Inv.connected {c : UDPClient} (hc : ClientInv .connect c) {sent : List Datagram}
    {messages : List Bytes} (hconduct : Conduct sent messages) {copies : List Copy}
    (hcopies : ∀ copy ∈ copies, copy.InBounds ↔ copy.Short) :
    (s.connected c sent messages copies).Inv addr where
  clients := by
    intro side d hd
    cases side with
    | connect =>
        cases hd
        exact hc
    | accept => exact h.clients .accept d hd
  entries := h.entries
  idReply := h.idReply
  output := h.output
  small := by
    intro side m hm
    by_cases hside : side = .connect
    · subst hside
      simp only [Joint.connected, Function.update_self, List.mem_append] at hm
      exact hm.elim (h.small .connect m) (hconduct.small m)
    · simp only [Joint.connected, Function.update_of_ne hside] at hm
      exact h.small side m hm
  copies := copies_append h.copies hcopies

theorem Joint.Inv.served {server : UDPServer} {c : UDPClient}
    (htable : ∀ key, server.allClients.lookup key =
      if key = makeUniqueID addr then some c else s.server.allClients.lookup key)
    (hentry : Entry (makeUniqueID addr) c) (hc : ClientInv .accept c) {sent : List Datagram}
    {messages : List Bytes} (hconduct : Conduct sent messages) {copies : List Copy}
    (hcopies : ∀ copy ∈ copies, copy.InBounds ↔ copy.Short) :
    (s.served server sent messages copies).Inv addr where
  clients := by
    intro side d hd
    cases side with
    | connect => exact h.clients .connect d hd
    | accept =>
        have hget : server.allClients.lookup (makeUniqueID addr) = some d := hd
        rw [htable, if_pos rfl] at hget
        cases hget
        exact hc
  entries := by
    intro key d hd
    have hget : server.allClients.lookup key = some d := hd
    rw [htable] at hget
    by_cases hkey : key = makeUniqueID addr
    · rw [if_pos hkey] at hget
      cases hget
      rw [hkey]
      exact hentry
    · rw [if_neg hkey] at hget
      exact h.entries key d hget
  idReply := fun d hd => (List.mem_append.mp hd).elim (h.idReply d) (hconduct.idReply d)
  output := fun d hd => (List.mem_append.mp hd).elim (h.output d) (hconduct.output d)
  small := by
    intro side m hm
    by_cases hside : side = .accept
    · subst hside
      simp only [Joint.served, Function.update_self, List.mem_append] at hm
      exact hm.elim (h.small .accept m) (hconduct.small m)
    · simp only [Joint.served, Function.update_of_ne hside] at hm
      exact h.small side m hm
  copies := copies_append h.copies hcopies

theorem Joint.Inv.acts {s' : Joint} (hacted : Acted addr s s') : s'.Inv addr := by
  cases hacted with
  | connected c sent messages copies hc hconduct hcopies =>
      exact h.connected hc hconduct (copies_both hcopies)
  | served server c sent messages copies htable hentry hc hconduct hcopies =>
      exact h.served htable hentry hc hconduct (copies_both hcopies)
  | broken copies hcopies hout =>
      exact ⟨h.clients, h.entries, h.idReply, h.output, h.small, copies_append h.copies hcopies⟩
  | idle => exact h

/-- The client that takes a datagram of the listening socket, found or new. -/
theorem Joint.Inv.accepts (fd : Handle) :
    ClientInv .accept ((s.accepting addr).getD (acceptedClient addr fd)) := by
  cases hget : s.accepting addr with
  | none => exact ⟨rfl, rfl, Healthy.fresh addr fd .accept⟩
  | some c => exact h.clients .accept c hget

theorem Joint.Inv.accepts_entry (fd : Handle) {data : Option Bytes} {soc : Socket} {rc : Received}
    (hrc : ((s.accepting addr).getD (acceptedClient addr fd)).recv .linux data soc = some rc) :
    Entry (makeUniqueID addr) rc.client := by
  cases hget : s.accepting addr with
  | none =>
      rw [hget, Option.getD_none, UDPClient.recv_accept rfl rfl] at hrc
      cases hrc
      exact Entry.accepted addr fd
  | some c =>
      rw [hget, Option.getD_some] at hrc
      have hentry := h.entries _ c hget
      exact hentry.kept (hentry.recv hrc)

/-- A call on the client that the server already has. -/
theorem Joint.Inv.serves {a : Action} (hside : a.ofServer) {c c' : UDPClient}
    (hget : s.accepting addr = some c) {sent : List Datagram} {messages : List Bytes}
    {copies : List Copy} (hcall : CallResult c c' sent messages copies)
    (hcopies : ∀ copy ∈ copies, copy.InBounds ∧ copy.Short) :
    Acts addr s a (s.served (s.server.put (makeUniqueID addr) c') sent messages copies) := by
  have hentry := h.entries _ c hget
  obtain ⟨call, hc'⟩ := hcall.call
  exact .accept hside (.inl hget) hcall (hentry.kept (hentry.call hc')) (s.server.put_lookup _ c')
    hcopies

theorem Joint.Inv.act_acts {a : Action} (ha : s.Allowed a) : Acts addr s a (s.act addr a) := by
  have hnone : ∀ copy ∈ ([] : List Copy), copy.InBounds ∧ copy.Short := List.forall_mem_nil _
  cases a with
  | connectSend payload => exact .connect id (.send payload) hnone
  | connectUpdate dlt => exact .connect id (.update dlt) hnone
  | connectRecv reads =>
      have hcopies := copies_connect h ha
      have hundefined := recv_undefined_iff (h.clients .connect s.connect rfl) reads
      unfold Joint.act
      dsimp only
      cases hr : s.connect.recv .linux none (bytesOf reads) with
      | none => exact .undefined id hcopies (hundefined.mp hr)
      | some r =>
          have hin : ∀ copy ∈ s.connect.copies reads, copy.InBounds := by
            intro copy hcopy
            by_contra hout
            rw [hundefined.mpr ⟨copy, hcopy, hout⟩] at hr
            cases hr
          exact .connect id (.recv hr)
            fun copy hcopy => ⟨hin copy hcopy, (hcopies copy hcopy).mp (hin copy hcopy)⟩
  | datagram fd d reads =>
      have htype := (h.accepts fd).clientType
      obtain ⟨rc, hrc⟩ := UDPClient.recv_accept_total htype .linux
        (some (d.bytes.take maxClientBuffLen)) (bytesOf reads)
      obtain ⟨server, hact, htable⟩ := act_datagram ha.1 hrc
      have hold : s.accepting addr = some ((s.accepting addr).getD (acceptedClient addr fd)) ∨
          s.accepting addr = none ∧
            ∃ fd', (s.accepting addr).getD (acceptedClient addr fd) = acceptedClient addr fd' := by
        cases s.accepting addr with
        | none => exact .inr ⟨rfl, fd, rfl⟩
        | some c => exact .inl rfl
      rw [hact]
      exact .accept trivial hold (.recv hrc) (h.accepts_entry fd hrc) htable
        (copies_accept htype reads)
  | acceptSend payload =>
      have hside : Action.ofServer (.acceptSend payload) := trivial
      unfold Joint.act
      dsimp only
      cases hget : s.accepting addr with
      | none => exact .nothing hside hget
      | some c => exact h.serves hside hget (.send payload) hnone
  | acceptUpdate dlt =>
      have hside : Action.ofServer (.acceptUpdate dlt) := trivial
      unfold Joint.act
      dsimp only
      cases hget : s.accepting addr with
      | none => exact .nothing hside hget
      | some c => exact h.serves hside hget (.update dlt) hnone
  | acceptRecv reads =>
      have hside : Action.ofServer (.acceptRecv reads) := trivial
      unfold Joint.act
      dsimp only
      cases hget : s.accepting addr with
      | none => exact .nothing hside hget
      | some c =>
          have htype := (h.clients .accept c hget).clientType
          obtain ⟨rc, hrc⟩ := UDPClient.recv_accept_total htype .linux none (bytesOf reads)
          unfold UDPServer.recvClient
          simp only [hrc, Option.bind_eq_bind, Option.bind_some]
          exact h.serves hside hget (.recv hrc) (copies_accept htype reads)

theorem Joint.Inv.acted {a : Action} (ha : s.Allowed a) : Acted addr s (s.act addr a) := by
  have hacts := h.act_acts ha
  generalize s.act addr a = s' at hacts
  cases hacts with
  | connect hside hcall hcopies =>
      have hc := h.clients .connect s.connect rfl
      obtain ⟨hc', hconduct⟩ := hc.called hcall
      exact .connected _ _ _ _ hc' hconduct hcopies
  | @accept c c' server sent messages copies hside hold hcall hentry htable hcopies =>
      have hc : ClientInv .accept c := by
        rcases hold with hget | ⟨-, fd, rfl⟩
        · exact h.clients .accept c hget
        · exact ⟨rfl, rfl, Healthy.fresh addr fd .accept⟩
      obtain ⟨hc', hconduct⟩ := hc.called hcall
      exact .served _ _ _ _ _ htable hentry hc' hconduct hcopies
  | undefined hside hcopies hout => exact .broken _ hcopies hout
  | nothing hside hnone => exact .idle

theorem Joint.Inv.act {a : Action} (ha : s.Allowed a) : (s.act addr a).Inv addr :=
  h.acts (h.acted ha)

theorem Joint.Step.inv {s' : Joint} (hs : Joint.Step addr s s') : s'.Inv addr := by
  cases hs with
  | act a hsane ha => exact h.act ha

end Action

theorem Joint.inv_of_reachable {info addr : SockaddrIn} {soc : Handle} {s : Joint}
    (h : Joint.Reachable info addr soc s) : s.Inv addr := by
  induction h with
  | refl => exact Joint.Inv.start addr info soc
  | tail _ hs ih => exact Joint.Step.inv ih hs

end UdpKcp.Wheel
