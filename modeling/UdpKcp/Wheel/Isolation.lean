import UdpKcp.Wheel.Server
import Mathlib.Data.Set.Function

/-! # Session isolation

`m_AllClients` is keyed by a 32-bit fold of a 48-bit address. Sessions of
different remote addresses stay apart along a run of the server exactly as long
as the addresses seen fold to different keys.
-/

namespace UdpKcp.Wheel

open ByteCodec (Bytes encodeLE)
open Ikcp Plug
open UDPClient (Kept)

/-- One datagram of the listening socket: its source, the client it was handed to, as
that client is afterwards, and what the client sent meanwhile. -/
structure Handover where
  src : SockaddrIn
  client : UDPClient
  sent : List Datagram

/-- The kernel gives out descriptors that are not in use. -/
def UDPServer.Unused (s : UDPServer) (fd : Handle) : Prop :=
  fd ≠ invalidSocket ∧ ∀ key c, s.allClients.lookup key = some c → c.sock ≠ fd

/-- Runs of a server whose system calls succeed: datagrams from the listening socket, with
arbitrary calls on the clients in between. -/
inductive Served : UDPServer → List Handover → Prop where
  | start : Served .start []
  | datagram {s : UDPServer} {log : List Handover} (h : Served s log) (fd : Handle)
      (hfd : s.Unused fd) (d : Bytes) (addr : SockaddrIn) (soc : Socket)
      (r : UDPServer.Dispatched) (hr : s.recv (.succeed fd) (some (d, addr)) soc = some r)
      (c : UDPClient) (hc : r.client = some c) : Served r.server (log ++ [⟨addr, c, r.sent⟩])
  | call {s : UDPServer} {log : List Handover} (h : Served s log) (key : UInt32)
      (c c' : UDPClient) (hget : s.allClients.lookup key = some c) (call : Call)
      (hcall : c.call .linux call = some c') : Served (s.put key c') log

/-- What the clients of different addresses owe each other. -/
structure Isolated (log : List Handover) : Prop where
  own : ∀ h ∈ log, h.client.kAddrInfo = h.src
  apart : ∀ h ∈ log, ∀ h' ∈ log, h.src ≠ h'.src →
    h.client.sock ≠ h'.client.sock ∧ h.client.convID ≠ h'.client.convID ∧
      h.client.plugUserData.map (·.conv) ≠ h'.client.plugUserData.map (·.conv)
  answered : ∀ h ∈ log, ∃ first ∈ log, first.src = h.src ∧
    first.client.sock = h.client.sock ∧
    first.sent = [⟨.idReply, encodeLE 4 (makeUniqueID h.src).toNat⟩]

/-! ## One datagram -/

/-- A datagram goes to the client of its key, which is made and answers on first contact. -/
structure Delivered (s : UDPServer) (fd : Handle) (addr : SockaddrIn) (r : UDPServer.Dispatched)
    (c : UDPClient) : Prop where
  client : r.client = some c
  table : ∀ key, r.server.allClients.lookup key =
    if key = makeUniqueID addr then some c else s.allClients.lookup key
  entry : Entry (makeUniqueID addr) c
  found : (∃ old, s.allClients.lookup (makeUniqueID addr) = some old ∧ Kept old c) ∨
    (s.allClients.lookup (makeUniqueID addr) = none ∧ c.sock = fd ∧ c.kAddrInfo = addr ∧
      r.sent = [⟨.idReply, encodeLE 4 (makeUniqueID addr).toNat⟩])

/-- With clients past their first `Recv` in the table, every datagram is delivered. -/
theorem exists_delivered {s : UDPServer} {fd : Handle} (hfd : fd ≠ invalidSocket)
    (hentries : ∀ key c, s.allClients.lookup key = some c → Entry key c) (d : Bytes)
    (addr : SockaddrIn) (soc : Socket) :
    ∃ r c, s.recv (.succeed fd) (some (d, addr)) soc = some r ∧ Delivered s fd addr r c := by
  cases hget : s.allClients.lookup (makeUniqueID addr) with
  | some old =>
      have hentry := hentries _ _ hget
      obtain ⟨rc, hrecv⟩ := UDPClient.recv_accept_total hentry.clientType .linux
        (some (d.take maxClientBuffLen)) soc
      obtain ⟨r, hr, hd⟩ := @UDPServer.recv_dispatches s fd hfd d addr soc rc
        (by rw [hget]; exact hrecv)
      have hk := hentry.recv hrecv
      exact ⟨r, rc.client, hr, hd.client, hd.table, hentry.kept hk, Or.inl ⟨old, hget, hk⟩⟩
  | none =>
      obtain ⟨r, hr, hd⟩ := @UDPServer.recv_dispatches s fd hfd d addr soc _
        (by rw [hget]; exact UDPClient.recv_accept rfl rfl (some (d.take maxClientBuffLen)) soc)
      exact ⟨r, _, hr, hd.client, hd.table, Entry.accepted addr fd,
        Or.inr ⟨hget, rfl, rfl, hd.sent⟩⟩

/-! ## The invariant of a run -/

/-- What the table and the log of a run know of each other. -/
structure ServedInv (s : UDPServer) (log : List Handover) : Prop where
  entries : ∀ key c, s.allClients.lookup key = some c → Entry key c
  socks : ∀ key c, s.allClients.lookup key = some c → ∀ key' c',
    s.allClients.lookup key' = some c' → c.sock = c'.sock → key = key'
  known : ∀ h ∈ log, Entry (makeUniqueID h.src) h.client ∧
    ∃ c, s.allClients.lookup (makeUniqueID h.src) = some c ∧ c.sock = h.client.sock ∧
      c.kAddrInfo = h.client.kAddrInfo
  answered : ∀ key c, s.allClients.lookup key = some c → ∃ first ∈ log,
    first.src = c.kAddrInfo ∧ first.client.sock = c.sock ∧
    first.sent = [⟨.idReply, encodeLE 4 key.toNat⟩]

theorem ServedInv.start : ServedInv .start [] where
  entries := fun key c h => by cases h
  socks := fun key c h => by cases h
  known := List.forall_mem_nil _
  answered := fun key c h => by cases h

/-- A client of the table is replaced by what it has become. -/
theorem ServedInv.call {s : UDPServer} {log : List Handover} (h : ServedInv s log) {key : UInt32}
    {c c' : UDPClient} (hget : s.allClients.lookup key = some c) (hk : Kept c c') {s' : UDPServer}
    (htable : ∀ other, s'.allClients.lookup other =
      if other = key then some c' else s.allClients.lookup other) : ServedInv s' log := by
  -- every entry is an old one with the same identity
  have hold : ∀ other d', s'.allClients.lookup other = some d' →
      ∃ d, s.allClients.lookup other = some d ∧ Kept d d' := by
    intro other d' hd'
    rw [htable] at hd'
    by_cases heq : other = key
    · rw [if_pos heq] at hd'
      cases hd'
      exact ⟨c, heq ▸ hget, hk⟩
    · rw [if_neg heq] at hd'
      exact ⟨d', hd', Kept.refl d'⟩
  refine ⟨?_, ?_, ?_, ?_⟩
  · intro other d' hd'
    obtain ⟨d, hd, hkept⟩ := hold other d' hd'
    exact (h.entries other d hd).kept hkept
  · intro k d' hd' k' e' he' hsock
    obtain ⟨d, hd, hkept⟩ := hold k d' hd'
    obtain ⟨e, he, hkept'⟩ := hold k' e' he'
    rw [hkept.sock, hkept'.sock] at hsock
    exact h.socks k d hd k' e he hsock
  · intro o ho
    obtain ⟨hentry, d, hd, hsock, haddr⟩ := h.known o ho
    refine ⟨hentry, ?_⟩
    rw [htable]
    by_cases heq : makeUniqueID o.src = key
    · have hsame : d = c := by
        rw [heq] at hd
        exact Option.some.inj (hd.symm.trans hget)
      subst hsame
      rw [if_pos heq]
      exact ⟨c', rfl, hk.sock.trans hsock, hk.kAddrInfo.trans haddr⟩
    · rw [if_neg heq]
      exact ⟨d, hd, hsock, haddr⟩
  · intro other d' hd'
    obtain ⟨d, hd, hkept⟩ := hold other d' hd'
    rw [hkept.sock, hkept.kAddrInfo]
    exact h.answered other d hd

/-- A client is added under a key that the table did not have. -/
theorem ServedInv.accept {s : UDPServer} {log : List Handover} (h : ServedInv s log)
    {fd : Handle} (hfd : s.Unused fd) {addr : SockaddrIn} {c : UDPClient}
    (hnone : s.allClients.lookup (makeUniqueID addr) = none) (hentry : Entry (makeUniqueID addr) c)
    (hsock : c.sock = fd) (haddr : c.kAddrInfo = addr) {s' : UDPServer}
    (htable : ∀ other, s'.allClients.lookup other =
      if other = makeUniqueID addr then some c else s.allClients.lookup other) :
    ServedInv s' (log ++
      [⟨addr, c, [⟨.idReply, encodeLE 4 (makeUniqueID addr).toNat⟩]⟩]) := by
  have hcases : ∀ other d, s'.allClients.lookup other = some d →
      (other = makeUniqueID addr ∧ d = c) ∨
        (other ≠ makeUniqueID addr ∧ s.allClients.lookup other = some d) := by
    intro other d hd
    rw [htable] at hd
    by_cases heq : other = makeUniqueID addr
    · rw [if_pos heq] at hd
      exact Or.inl ⟨heq, (Option.some.inj hd).symm⟩
    · rw [if_neg heq] at hd
      exact Or.inr ⟨heq, hd⟩
  refine ⟨?_, ?_, ?_, ?_⟩
  · intro other d hd
    rcases hcases other d hd with ⟨rfl, rfl⟩ | ⟨-, hd⟩
    · exact hentry
    · exact h.entries other d hd
  · intro k d hd k' d' hd' hsame
    rcases hcases k d hd with ⟨rfl, rfl⟩ | ⟨-, hd⟩
    · rcases hcases k' d' hd' with ⟨rfl, -⟩ | ⟨-, hd'⟩
      · rfl
      · exact absurd (hsame.symm.trans hsock) (hfd.2 k' d' hd')
    · rcases hcases k' d' hd' with ⟨rfl, rfl⟩ | ⟨-, hd'⟩
      · exact absurd (hsame.trans hsock) (hfd.2 k d hd)
      · exact h.socks k d hd k' d' hd' hsame
  · intro o ho
    rcases List.mem_append.mp ho with ho | ho
    · obtain ⟨hentry', d, hd, hrest⟩ := h.known o ho
      refine ⟨hentry', d, ?_, hrest⟩
      rw [htable]
      by_cases heq : makeUniqueID o.src = makeUniqueID addr
      · rw [heq, hnone] at hd
        cases hd
      · rw [if_neg heq]
        exact hd
    · rw [List.mem_singleton.mp ho]
      exact ⟨hentry, c, by rw [htable, if_pos rfl], rfl, rfl⟩
  · intro other d hd
    rcases hcases other d hd with ⟨rfl, rfl⟩ | ⟨-, hd⟩
    · exact ⟨_, List.mem_append_right _ List.mem_cons_self, haddr.symm, rfl, rfl⟩
    · obtain ⟨first, hfirst, hrest⟩ := h.answered other d hd
      exact ⟨first, List.mem_append_left _ hfirst, hrest⟩

theorem ServedInv.datagram {s : UDPServer} {log : List Handover} (h : ServedInv s log)
    {fd : Handle} (hfd : s.Unused fd) {addr : SockaddrIn} {r : UDPServer.Dispatched}
    {c : UDPClient} (hd : Delivered s fd addr r c) :
    ServedInv r.server (log ++ [⟨addr, c, r.sent⟩]) := by
  rcases hd.found with ⟨old, hold, hk⟩ | ⟨hnone, hsock, haddr, hsent⟩
  · have hinv := h.call hold hk hd.table
    refine ⟨hinv.entries, hinv.socks, ?_, ?_⟩
    · intro o ho
      rcases List.mem_append.mp ho with ho | ho
      · exact hinv.known o ho
      · rw [List.mem_singleton.mp ho]
        exact ⟨hd.entry, c, by rw [hd.table, if_pos rfl], rfl, rfl⟩
    · intro key d hget
      obtain ⟨first, hfirst, hrest⟩ := hinv.answered key d hget
      exact ⟨first, List.mem_append_left _ hfirst, hrest⟩
  · rw [hsent]
    exact h.accept hfd hnone hd.entry hsock haddr hd.table

theorem Served.inv {s : UDPServer} {log : List Handover} (h : Served s log) : ServedInv s log := by
  induction h with
  | start => exact ServedInv.start
  | datagram h fd hfd d addr soc r hr c hc ih =>
      obtain ⟨r', c', hr', hd⟩ := exists_delivered hfd.1 ih.entries d addr soc
      have hresult : r = r' := Option.some.inj (hr.symm.trans hr')
      subst hresult
      have hclient : c = c' := Option.some.inj (hc.symm.trans hd.client)
      rw [hclient]
      exact ih.datagram hfd hd
  | @call s log h key c c' hget call hcall ih =>
      exact ih.call hget ((ih.entries key c hget).call hcall) (s.put_lookup key c')

/-- No datagram stops a run: it always reaches some client. -/
theorem Served.exists_datagram {s : UDPServer} {log : List Handover} (h : Served s log)
    {fd : Handle} (hfd : s.Unused fd) (d : Bytes) (addr : SockaddrIn) (soc : Socket) :
    ∃ r c, s.recv (.succeed fd) (some (d, addr)) soc = some r ∧ r.client = some c := by
  obtain ⟨r, c, hr, hd⟩ := exists_delivered hfd.1 h.inv.entries d addr soc
  exact ⟨r, c, hr, hd.client⟩

/-! ## Isolation -/

/-- Sessions are isolated along a run exactly when `MakeUniqueID` tells the addresses of
the run apart. -/
theorem isolated_iff {s : UDPServer} {log : List Handover} (h : Served s log) :
    Isolated log ↔ Set.InjOn makeUniqueID {addr | ∃ o ∈ log, o.src = addr} := by
  have hinv := h.inv
  constructor
  · rintro hiso a ⟨o, ho, rfl⟩ b ⟨o', ho', rfl⟩ hkey
    obtain ⟨-, c, hc, -, haddr⟩ := hinv.known o ho
    obtain ⟨-, c', hc', -, haddr'⟩ := hinv.known o' ho'
    have hsame : c = c' := by
      rw [hkey] at hc
      exact Option.some.inj (hc.symm.trans hc')
    rw [← hiso.own o ho, ← hiso.own o' ho', ← haddr, ← haddr', hsame]
  · intro hinj
    have hown : ∀ o ∈ log, o.client.kAddrInfo = o.src := by
      intro o ho
      obtain ⟨hentry, c, hc, -, haddr⟩ := hinv.known o ho
      obtain ⟨first, hfirst, hsrc, -⟩ := hinv.answered _ c hc
      apply hinj
      · exact ⟨first, hfirst, hsrc.trans haddr⟩
      · exact ⟨o, ho, rfl⟩
      · exact hentry.addr
    refine ⟨hown, ?_, ?_⟩
    · intro o ho o' ho' hne
      obtain ⟨hentry, c, hc, hsock, -⟩ := hinv.known o ho
      obtain ⟨hentry', c', hc', hsock', -⟩ := hinv.known o' ho'
      have hkey : makeUniqueID o.src ≠ makeUniqueID o'.src :=
        fun heq => hne (hinj ⟨o, ho, rfl⟩ ⟨o', ho', rfl⟩ heq)
      refine ⟨?_, ?_, ?_⟩
      · intro hsame
        exact hkey (hinv.socks _ c hc _ c' hc' (by rw [hsock, hsock', hsame]))
      · rw [hentry.convID, hentry'.convID]
        exact hkey
      · rw [hentry.block, hentry'.block]
        exact fun heq => hkey (Option.some.inj heq)
    · intro o ho
      obtain ⟨-, c, hc, hsock, haddr⟩ := hinv.known o ho
      obtain ⟨first, hfirst, hsrc, hsock', hsent⟩ := hinv.answered _ c hc
      refine ⟨first, hfirst, ?_, hsock'.trans hsock, hsent⟩
      rw [hsrc, haddr, hown o ho]

/-! ## Two peers -/

theorem UDPServer.Unused.first {fd : Handle} (h : fd ≠ invalidSocket) :
    UDPServer.start.Unused fd :=
  ⟨h, fun _ _ hget => by cases hget⟩

/-- After one datagram only its client's descriptor is in use. -/
theorem Served.unused_second {fd fd' : Handle} {d : Bytes} {addr : SockaddrIn} {soc : Socket}
    {r : UDPServer.Dispatched} (hfd : fd ≠ invalidSocket) (hfd' : fd' ≠ invalidSocket)
    (hne : fd ≠ fd') (hr : UDPServer.start.recv (.succeed fd) (some (d, addr)) soc = some r) :
    r.server.Unused fd' := by
  obtain ⟨r', c, hr', hd⟩ := @exists_delivered .start fd hfd ServedInv.start.entries d addr soc
  have hresult : r = r' := Option.some.inj (hr.symm.trans hr')
  subst hresult
  refine ⟨hfd', ?_⟩
  intro key d' hget
  rw [hd.table] at hget
  by_cases hkey : key = makeUniqueID addr
  · rw [if_pos hkey] at hget
    cases hget
    rcases hd.found with ⟨old, hold, -⟩ | ⟨-, hsock, -⟩
    · cases hold
    · rw [hsock]
      exact hne
  · rw [if_neg hkey] at hget
    cases hget

/-- A server that hears from one address and then from another. -/
theorem exists_served_two (a b : SockaddrIn) :
    ∃ s first second, Served s [first, second] ∧ first.src = a ∧ second.src = b ∧
      first.client.kAddrInfo = a := by
  have hfd : (5 : Handle) ≠ invalidSocket := by decide
  have hfd' : (6 : Handle) ≠ invalidSocket := by decide
  have hstart := Served.start
  obtain ⟨r, c, hr, hd⟩ := @exists_delivered .start 5 hfd hstart.inv.entries [104] a []
  have haddr : c.kAddrInfo = a := by
    rcases hd.found with ⟨old, hold, -⟩ | ⟨-, -, haddr, -⟩
    · cases hold
    · exact haddr
  have hone := hstart.datagram 5 (UDPServer.Unused.first hfd) [104] a [] r hr c hd.client
  have hunused := Served.unused_second hfd hfd' (by decide) hr
  obtain ⟨r', c', hr', hc'⟩ := hone.exists_datagram hunused [105] b []
  exact ⟨_, _, _, hone.datagram 6 hunused [105] b [] r' hr' c' hc', rfl, rfl, haddr⟩

/-- Two ports of one host. -/
theorem isolated_ports :
    ∃ s first second, Served s [first, second] ∧ first.src ≠ second.src ∧
      Isolated [first, second] := by
  obtain ⟨s, first, second, hs, hfirst, hsecond, -⟩ :=
    exists_served_two ⟨0x0100007f, 0x0002⟩ ⟨0x0100007f, 0x0003⟩
  have hne : first.src ≠ second.src := by
    rw [hfirst, hsecond]
    decide
  have hkey : makeUniqueID first.src ≠ makeUniqueID second.src := by
    rw [hfirst, hsecond]
    decide
  refine ⟨s, first, second, hs, hne, (isolated_iff hs).mpr ?_⟩
  rintro x ⟨o, ho, rfl⟩ y ⟨o', ho', rfl⟩ heq
  simp only [List.mem_cons, List.not_mem_nil, or_false] at ho ho'
  rcases ho with rfl | rfl <;> rcases ho' with rfl | rfl
  · rfl
  · exact absurd heq hkey
  · exact absurd heq.symm hkey
  · rfl

/-- 127.0.0.1 at port 512 and 127.0.1.1 at port 256 have one key: the datagram of the
second is handed to the client of the first. -/
theorem isolated_collision :
    ∃ s first second, Served s [first, second] ∧
      first.src = ⟨0x0100007f, 0x0002⟩ ∧ second.src = ⟨0x0101007f, 0x0001⟩ ∧
      second.client.sock = first.client.sock ∧ second.client.kAddrInfo = first.src ∧
      ¬ Isolated [first, second] := by
  obtain ⟨s, first, second, hs, hfirst, hsecond, haddr⟩ :=
    exists_served_two ⟨0x0100007f, 0x0002⟩ ⟨0x0101007f, 0x0001⟩
  have hkey : makeUniqueID second.src = makeUniqueID first.src := by
    rw [hfirst, hsecond]
    decide
  obtain ⟨-, c, hc, hsock, hinfo⟩ := hs.inv.known first (by simp)
  obtain ⟨-, c', hc', hsock', hinfo'⟩ := hs.inv.known second (by simp)
  have hsame : c' = c := by
    rw [hkey] at hc'
    exact Option.some.inj (hc'.symm.trans hc)
  have hwrong : second.client.kAddrInfo = first.src := by
    rw [← hinfo', hsame, hinfo, haddr, hfirst]
  refine ⟨s, first, second, hs, hfirst, hsecond, by rw [← hsock', hsame, hsock], hwrong, ?_⟩
  intro hiso
  have hown := hiso.own second (by simp)
  rw [hwrong, hfirst, hsecond] at hown
  exact absurd hown (by decide)

end UdpKcp.Wheel
