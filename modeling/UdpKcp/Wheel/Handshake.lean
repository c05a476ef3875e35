import UdpKcp.Wheel.Copies

/-! # Completing the handshake

The connect side repeats raw datagrams until it reads an id. The accept side
answers the first of them only, and an answer that is lost is not repeated.
-/

namespace UdpKcp.Wheel

open ByteCodec (Bytes encodeLE)
open Ikcp Plug
open UDPClient (Kept)

inductive ServerStep (addr : SockaddrIn) : Joint → Joint → Prop where
  | act (s : Joint) (a : Action) (hserver : a.ofServer) (ha : s.Allowed a) :
      ServerStep addr s (s.act addr a)

/-- The datagram `d` reaches the server: at the listening socket, or, where the accept side
is there, at its own. -/
inductive Delivers (addr : SockaddrIn) (s : Joint) (d : Datagram) : Joint → Prop where
  | listener (fd : Handle) (reads : List (Option Datagram))
      (ha : s.Allowed (.datagram fd d reads)) :
      Delivers addr s d (s.act addr (.datagram fd d reads))
  | own (reads : List (Option Datagram)) (hd : some d ∈ reads) (ha : s.Allowed (.acceptRecv reads))
      (hpresent : s.accepting addr ≠ none) : Delivers addr s d (s.act addr (.acceptRecv reads))

/-- The connect side reads these datagrams, one in each `Recv`. -/
def readAll (addr : SockaddrIn) (s : Joint) (ds : List Datagram) : Joint :=
  ds.foldl (fun s d => s.act addr (.connectRecv [some d])) s

/-- All that the server has sent from `before` to `after` is delivered. -/
def deliverAnswer (addr : SockaddrIn) (before after : Joint) : Joint :=
  readAll addr after (after.toClient.drop before.toClient.length)

/-- The connect side has the id of the accept side. -/
def HasId (addr : SockaddrIn) (s : Joint) : Prop :=
  ∃ c, s.accepting addr = some c ∧ s.connect.convID = c.convID

/-- With an id, `Send` only queues. -/
theorem send_sent {c : UDPClient} (hconv : c.convID ≠ 0) (data : Bytes) :
    (c.send data).sent = [] := by
  unfold UDPClient.send
  rw [if_neg (show ¬ c.getKcpConvID = 0 from hconv)]
  cases c.plugUserData with
  | none => rfl
  | some block => rfl

theorem recvKcp_sent {c : UDPClient} (hconv : c.convID ≠ 0) (data : Option Bytes)
    (soc : Socket) : (c.recvKcp data soc).sent = [] := by
  unfold UDPClient.recvKcp
  cases c.plugUserData with
  | none => rfl
  | some block =>
      have hreply := @send_sent
        { c with plugUserData := some (kcpRecv block data soc c.getBuffLeftLen).block } hconv
      dsimp only
      split
      · exact hreply _
      · rfl

theorem update_sent (c : UDPClient) (dlt : UInt32) :
    ∀ d ∈ (c.update dlt).2, d.origin = .output := by
  unfold UDPClient.update
  cases c.plugUserData with
  | none => exact List.forall_mem_nil _
  | some block =>
      intro d hd
      obtain ⟨bytes, -, rfl⟩ := List.mem_map.mp hd
      rfl

/-- What happens between two states of a server that has its accept side: it sends only
the output of flushes. -/
structure Answers (addr : SockaddrIn) (s s' : Joint) : Prop where
  connect : s'.connect = s.connect
  present : s'.accepting addr ≠ none
  sent : ∃ out, s'.toClient = s.toClient ++ out ∧ ∀ d ∈ out, d.origin = .output

theorem Answers.refl {addr : SockaddrIn} {s : Joint} (h : s.accepting addr ≠ none) :
    Answers addr s s :=
  ⟨rfl, h, [], (List.append_nil _).symm, List.forall_mem_nil _⟩

theorem Answers.trans {addr : SockaddrIn} {a b c : Joint} (hab : Answers addr a b)
    (hbc : Answers addr b c) : Answers addr a c := by
  obtain ⟨out, hout, horigin⟩ := hab.sent
  obtain ⟨out', hout', horigin'⟩ := hbc.sent
  refine ⟨hbc.connect.trans hab.connect, hbc.present, out ++ out', ?_, ?_⟩
  · rw [hout', hout, List.append_assoc]
  · exact fun d hd => (List.mem_append.mp hd).elim (horigin d) (horigin' d)

section Complete

variable {info addr : SockaddrIn} {soc : Handle} {s : Joint}

/-- A call on the accept side that sends only the output of flushes. -/
theorem Answers.served {server : UDPServer} {c : UDPClient}
    (hget : server.allClients.lookup (makeUniqueID addr) = some c) {sent : List Datagram}
    (hsent : ∀ d ∈ sent, d.origin = .output) (messages : List Bytes) (copies : List Copy) :
    Answers addr s (s.served server sent messages copies) := by
  refine ⟨rfl, ?_, sent, rfl, hsent⟩
  show server.allClients.lookup (makeUniqueID addr) ≠ none
  rw [hget]
  exact Option.some_ne_none c

theorem CallResult.output {c c' : UDPClient} {sent : List Datagram} {messages : List Bytes}
    {copies : List Copy} (h : CallResult c c' sent messages copies) (hconv : c.convID ≠ 0) :
    ∀ d ∈ sent, d.origin = .output := by
  cases h with
  | send payload =>
      rw [send_sent hconv]
      exact List.forall_mem_nil _
  | update dlt => exact update_sent c dlt
  | recv hr =>
      rw [UDPClient.recv_plugged hconv] at hr
      cases hr
      rw [recvKcp_sent hconv]
      exact List.forall_mem_nil _

theorem ServerStep.answers (h : s.Inv addr) (hid : makeUniqueID addr ≠ 0)
    (hpresent : s.accepting addr ≠ none) {s' : Joint} (hs : ServerStep addr s s') :
    Answers addr s s' := by
  cases hs with
  | act a hserver ha =>
      have hacts := h.act_acts ha
      generalize s.act addr a = s' at hacts
      cases hacts with
      | connect hside hcall hcopies => exact absurd hserver hside
      | @accept c c' server sent messages copies hside hold hcall hentry htable hcopies =>
          rcases hold with hget | ⟨hnone, -⟩
          · have hconv : c.convID ≠ 0 := by
              rw [(h.entries _ c hget).convID]
              exact hid
            exact Answers.served ((htable (makeUniqueID addr)).trans (if_pos rfl))
              (hcall.output hconv) messages copies
          · exact absurd hnone hpresent
      | undefined hside hcopies hout => exact absurd hserver hside
      | nothing hside hnone => exact absurd hnone hpresent

theorem ServerStep.inv (h : s.Inv addr) {s' : Joint} (hs : ServerStep addr s s') :
    s'.Inv addr := by
  cases hs with
  | act a hserver ha => exact h.act ha

theorem answers_run (h : s.Inv addr) (hid : makeUniqueID addr ≠ 0)
    (hpresent : s.accepting addr ≠ none) {s' : Joint}
    (hrun : Relation.ReflTransGen (ServerStep addr) s s') :
    s'.Inv addr ∧ Answers addr s s' := by
  induction hrun with
  | refl => exact ⟨h, Answers.refl hpresent⟩
  | tail _ hs ih =>
      obtain ⟨hinv, hanswers⟩ := ih
      exact ⟨hs.inv hinv, hanswers.trans (hs.answers hinv hid hanswers.present)⟩

theorem Delivers.step {d : Datagram} {s' : Joint} (hd : Delivers addr s d s') :
    ServerStep addr s s' := by
  cases hd with
  | listener fd reads ha => exact ServerStep.act s _ trivial ha
  | own reads hmem ha hpresent => exact ServerStep.act s _ trivial ha

/-- Sending raw changes no client. -/
theorem connectSend_raw (hconv : s.connect.convID = 0) (payload : Bytes) :
    (s.act addr (.connectSend payload)).connect = s.connect := by
  unfold Joint.act Joint.connected UDPClient.send
  dsimp only
  rw [if_pos (show s.connect.getKcpConvID = 0 from hconv)]

/-- The first datagram makes the accept side, which looks at no byte of it. -/
theorem act_datagram_first (hget : s.accepting addr = none) {fd : Handle}
    (hfd : fd ≠ invalidSocket) (d : Datagram) (reads : List (Option Datagram)) :
    ∃ server copies, s.act addr (.datagram fd d reads) =
        s.served server [⟨.idReply, encodeLE 4 (makeUniqueID addr).toNat⟩] [] copies ∧
      server.allClients.lookup (makeUniqueID addr) =
        some ((acceptedClient addr fd).setKcpConvID (makeUniqueID addr)) := by
  have hrc : ((s.accepting addr).getD (acceptedClient addr fd)).recv .linux
      (some (d.bytes.take maxClientBuffLen)) (bytesOf reads) = some {
        client := (acceptedClient addr fd).setKcpConvID (makeUniqueID addr)
        soc := bytesOf reads
        sent := [⟨.idReply, encodeLE 4 (makeUniqueID addr).toNat⟩]
        accepted := []
        messages := []
        handed := none } := by
    rw [hget]
    exact UDPClient.recv_accept rfl rfl _ _
  obtain ⟨server, hact, htable⟩ := act_datagram hfd hrc
  exact ⟨server, _, hact, (htable (makeUniqueID addr)).trans (if_pos rfl)⟩

/-- It is answered with the id. -/
theorem Delivers.first (h : s.Inv addr) (hget : s.accepting addr = none) {d : Datagram}
    {s' : Joint} (hd : Delivers addr s d s') :
    s'.connect = s.connect ∧ s'.accepting addr ≠ none ∧ s'.Inv addr ∧
      s'.toClient = s.toClient ++ [⟨.idReply, encodeLE 4 (makeUniqueID addr).toNat⟩] := by
  cases hd with
  | own reads hmem ha hpresent => exact absurd hget hpresent
  | listener fd reads ha =>
      obtain ⟨server, copies, hact, hclient⟩ := act_datagram_first hget ha.1 d reads
      have hinv := h.act ha
      rw [hact] at hinv ⊢
      refine ⟨rfl, ?_, hinv, rfl⟩
      show server.allClients.lookup (makeUniqueID addr) ≠ none
      rw [hclient]
      exact Option.some_ne_none _

/-! ## Reading the answer -/

theorem connectRecv_accepting (s : Joint) (reads : List (Option Datagram)) :
    (s.act addr (.connectRecv reads)).accepting addr = s.accepting addr := by
  unfold Joint.act
  dsimp only
  cases s.connect.recv .linux none (bytesOf reads) with
  | none => rfl
  | some r => rfl

/-- Read for an id, the output of a flush sets none: its copy is undefined. -/
theorem connectRecv_output (hc : ClientInv .connect s.connect) (hconv : s.connect.convID = 0)
    {d : Datagram} (hlong : ikcpOverhead ≤ d.bytes.length) :
    (s.act addr (.connectRecv [some d])).connect = s.connect := by
  have hundefined : s.connect.recv .linux none (bytesOf [some d]) = none := by
    rw [UDPClient.recv_connect hc.clientType hconv, Option.map_eq_none_iff,
      getKcpConvID_eq_none, handshakeData_read hc.buffOffset]
    unfold ikcpOverhead at hlong
    unfold maxClientBuffLen
    simp only [List.head?_cons, Option.join_some, List.length_take]
    omega
  unfold Joint.act
  dsimp only
  rw [hundefined]
  rfl

theorem readAll_output {ds : List Datagram} (hc : ClientInv .connect s.connect)
    (hconv : s.connect.convID = 0) (hlong : ∀ d ∈ ds, ikcpOverhead ≤ d.bytes.length) :
    (readAll addr s ds).connect = s.connect := by
  induction ds generalizing s with
  | nil => rfl
  | cons d ds ih =>
      have hread : (s.act addr (.connectRecv [some d])).connect = s.connect :=
        connectRecv_output hc hconv (hlong d List.mem_cons_self)
      have hlater : ∀ d' ∈ ds, ikcpOverhead ≤ d'.bytes.length :=
        fun d' hd' => hlong d' (List.mem_cons_of_mem d hd')
      exact (ih (by rwa [hread]) (by rwa [hread]) hlater).trans hread

/-- Once set, the id stays, whatever is read. -/
theorem readAll_convID {ds : List Datagram} (hconv : s.connect.convID ≠ 0) :
    (readAll addr s ds).connect.convID = s.connect.convID := by
  induction ds generalizing s with
  | nil => rfl
  | cons d ds ih =>
      have hread : (s.act addr (.connectRecv [some d])).connect.convID = s.connect.convID := by
        unfold Joint.act
        dsimp only
        rw [UDPClient.recv_plugged hconv]
        exact (Kept.recvKcp s.connect none (bytesOf [some d])).convID
      exact (ih (by rwa [hread])).trans hread

theorem readAll_accepting (s : Joint) (ds : List Datagram) :
    (readAll addr s ds).accepting addr = s.accepting addr := by
  induction ds generalizing s with
  | nil => rfl
  | cons d ds ih => exact (ih _).trans (connectRecv_accepting s [some d])

/-- An id reply is taken for what it says. -/
theorem connectRecv_idReply (hc : ClientInv .connect s.connect) (hconv : s.connect.convID = 0)
    (id : UInt32) :
    (s.act addr (.connectRecv [some ⟨.idReply, encodeLE 4 id.toNat⟩])).connect.convID = id := by
  have hlen : (encodeLE 4 id.toNat).length = 4 := ByteCodec.encodeLE_length 4 id.toNat
  have htake : (encodeLE 4 id.toNat).take maxClientBuffLen = encodeLE 4 id.toNat :=
    List.take_of_length_le (by rw [hlen]; decide)
  have hset : (s.connect.setKcpConvID id).convID = id := by
    unfold UDPClient.setKcpConvID
    rw [if_pos hconv]
    cases s.connect.plugUserData with
    | none => rfl
    | some block => rfl
  have hown : Plug.getKcpConvID (encodeLE 4 id.toNat) ((4 : Nat) : Int) = some id :=
    UDPClient.getKcpConvID_own id
  unfold Joint.act
  dsimp only
  rw [UDPClient.recv_connect hc.clientType hconv, handshakeData_read hc.buffOffset]
  simp only [List.head?_cons, Option.join_some, htake, hlen, hown, Option.map_some]
  exact hset

/-! ## One exchange -/

/-- With the accept side there, nothing that comes back is an id. -/
theorem not_hasId (h : s.Inv addr) (hid : makeUniqueID addr ≠ 0) (hconv : s.connect.convID = 0)
    (hpresent : s.accepting addr ≠ none) {after : Joint}
    (hrun : Relation.ReflTransGen (ServerStep addr) s after) :
    ¬ HasId addr (deliverAnswer addr s after) := by
  obtain ⟨hinv, hanswers⟩ := answers_run h hid hpresent hrun
  obtain ⟨out, hout, horigin⟩ := hanswers.sent
  have hlong : ∀ d ∈ out, ikcpOverhead ≤ d.bytes.length := by
    intro d hmem
    have hsent : d ∈ after.toClient := by
      rw [hout]
      exact List.mem_append_right _ hmem
    exact hinv.output d hsent (horigin d hmem)
  have hzero : after.connect.convID = 0 := by rw [hanswers.connect, hconv]
  have hread : (readAll addr after out).connect = after.connect :=
    readAll_output (hinv.clients .connect after.connect rfl) hzero hlong
  rintro ⟨c, hget, heq⟩
  unfold deliverAnswer at hget heq
  rw [hout, List.drop_left] at hget heq
  rw [readAll_accepting] at hget
  rw [hread, hzero, (hinv.entries _ c hget).convID] at heq
  exact hid heq.symm

/-- Without one, the id reply comes back first and what follows does not change the id. -/
theorem hasId_of_first (h : s.Inv addr) (hid : makeUniqueID addr ≠ 0)
    (hconv : s.connect.convID = 0) (hget : s.accepting addr = none) {d : Datagram}
    {mid after : Joint} (hd : Delivers addr s d mid)
    (hrun : Relation.ReflTransGen (ServerStep addr) mid after) :
    HasId addr (deliverAnswer addr s after) := by
  obtain ⟨hconnect, hpresent, hinvMid, hfirst⟩ := hd.first h hget
  obtain ⟨hinv, hanswers⟩ := answers_run hinvMid hid hpresent hrun
  obtain ⟨out, hout, -⟩ := hanswers.sent
  obtain ⟨c, hc⟩ := Option.ne_none_iff_exists'.mp hanswers.present
  have hzero : after.connect.convID = 0 := by rw [hanswers.connect, hconnect, hconv]
  have hset : (after.act addr (.connectRecv
      [some ⟨.idReply, encodeLE 4 (makeUniqueID addr).toNat⟩])).connect.convID =
      makeUniqueID addr :=
    connectRecv_idReply (hinv.clients .connect after.connect rfl) hzero _
  have hkept : (readAll addr (after.act addr (.connectRecv
      [some ⟨.idReply, encodeLE 4 (makeUniqueID addr).toNat⟩])) out).connect.convID =
      makeUniqueID addr :=
    (readAll_convID (by rw [hset]; exact hid)).trans hset
  refine ⟨c, (readAll_accepting after _).trans hc, ?_⟩
  unfold deliverAnswer
  rw [hout, hfirst, List.append_assoc, List.drop_left, List.singleton_append,
    (hinv.entries _ c hc).convID]
  exact hkept

end Complete

/-- From any reachable state without an id, a datagram sent, delivered and answered, whatever
else the server does and whether it answers at once or in a flush, gives the connect side
its id exactly when the server had no accept side yet. -/
theorem handshake_iff {info addr : SockaddrIn} {soc : Handle} {s : Joint}
    (h : Joint.Reachable info addr soc s) (hid : makeUniqueID addr ≠ 0)
    (hconv : s.connect.convID = 0) {payload : Bytes} {mid after : Joint}
    (hd : Delivers addr (s.act addr (.connectSend payload)) ⟨.raw, payload⟩ mid)
    (hrun : Relation.ReflTransGen (ServerStep addr) mid after) :
    HasId addr (deliverAnswer addr (s.act addr (.connectSend payload)) after) ↔
      s.accepting addr = none := by
  have hinv : (s.act addr (.connectSend payload)).Inv addr :=
    (Joint.inv_of_reachable h).act trivial
  have hzero : (s.act addr (.connectSend payload)).connect.convID = 0 := by
    rw [connectSend_raw hconv, hconv]
  have hsame : (s.act addr (.connectSend payload)).accepting addr = s.accepting addr := rfl
  rw [← hsame]
  constructor
  · intro hhas
    by_contra hpresent
    exact not_hasId hinv hid hzero hpresent (Relation.ReflTransGen.head hd.step hrun) hhas
  · intro hget
    exact hasId_of_first hinv hid hzero hget hd hrun

/-- The first datagram is answered. -/
theorem handshake_first :
    makeUniqueID peerAddr ≠ 0 ∧ HasId peerAddr
      (deliverAnswer peerAddr ((Joint.start peerAddr 5).act peerAddr (.connectSend [104]))
        answered) := by
  have hmem : (⟨.raw, [104]⟩ : Datagram) ∈
      ((Joint.start peerAddr 5).act peerAddr (.connectSend [104])).toServer :=
    List.mem_append_right _ List.mem_cons_self
  refine ⟨by decide, ?_⟩
  exact (handshake_iff Relation.ReflTransGen.refl (by decide) rfl
    (Delivers.listener 6 [] ⟨by decide, hmem, by simp⟩) Relation.ReflTransGen.refl).mpr rfl

/-- After a lost reply the connect side sends again, and nothing comes back. -/
theorem handshake_lostReply :
    ∃ s mid, Joint.Reachable peerAddr peerAddr 5 s ∧ s.connect.convID = 0 ∧
      Delivers peerAddr (s.act peerAddr (.connectSend [104])) ⟨.raw, [104]⟩ mid ∧
      ¬ HasId peerAddr
        (deliverAnswer peerAddr (s.act peerAddr (.connectSend [104])) mid) := by
  have hmem : (⟨.raw, [104]⟩ : Datagram) ∈
      (answered.act peerAddr (.connectSend [104])).toServer :=
    List.mem_append_right _ List.mem_cons_self
  refine ⟨answered, _, answered_reachable, by decide, Delivers.own [some ⟨.raw, [104]⟩]
    List.mem_cons_self ?_ (by decide), ?_⟩
  · intro d hd
    cases List.mem_singleton.mp hd
    exact hmem
  · rintro ⟨c, hget, heq⟩
    have hsilent : (deliverAnswer peerAddr (answered.act peerAddr (.connectSend [104]))
        ((answered.act peerAddr (.connectSend [104])).act peerAddr
          (.acceptRecv [some ⟨.raw, [104]⟩]))).connect.convID = 0 := by decide
    have hentry := congrArg (Option.map UDPClient.convID) hget
    rw [Option.map_some, ← heq, hsilent] at hentry
    exact absurd hentry (by decide)

end UdpKcp.Wheel
