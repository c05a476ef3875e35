import UdpKcp.Plug.Representation

/-! # Arrival order

What the receiving half holds after data segments of one window is read off the
set of numbers that have arrived: the run from the old `rcv_nxt` that is
complete, as far as the queue has room, and the rest in order. So neither order
nor repetition nor the cutting into datagrams can be seen in it.
-/

namespace UdpKcp.Plug

open ByteCodec (Bytes)
open Serial (Window offset)
open Ikcp

/-! ## What is compared -/

/-- Number, fragment count and payload. -/
abbrev Entry := UInt32 × UInt32 × Bytes

def entry (seg : IKCPSEG) : Entry := (seg.sn, seg.frg, seg.data)

def entries (segs : List IKCPSEG) : List Entry := segs.map entry

@[simp] theorem entries_append (xs ys : List IKCPSEG) :
    entries (xs ++ ys) = entries xs ++ entries ys := List.map_append

@[simp] theorem entries_length (segs : List IKCPSEG) : (entries segs).length = segs.length :=
  List.length_map _

/-- The receiving half, as far as the arrival order could show. -/
structure Holdings where
  rcvNxt : UInt32
  nrcvQue : ℕ
  nrcvBuf : ℕ
  rcvQueue : List Entry
  rcvBuf : List Entry
  deriving DecidableEq, Repr

def holdings (kcp : IKCPCB) : Holdings where
  rcvNxt := kcp.rcvNxt
  nrcvQue := kcp.nrcvQue
  nrcvBuf := kcp.nrcvBuf
  rcvQueue := entries kcp.rcvQueue
  rcvBuf := entries kcp.rcvBuf

/-! ## The holdings read off the arrived numbers -/

section Filled

variable (start : IKCPCB) (content : UInt32 → UInt32 × Bytes)

/-- The entry that every segment with this number has. -/
def labelled (sn : UInt32) : Entry := (sn, content sn)

/-- Since `start` the numbers of `arrived` have come, those waiting in `rcv_buf` then
included; `count` of them have moved to the queue and the others wait. -/
structure Filled (arrived : Set UInt32) (kcp : IKCPCB) (count : ℕ) : Prop where
  nxt : kcp.rcvNxt = start.rcvNxt + UInt32.ofNat count
  queue : entries kcp.rcvQueue =
    entries start.rcvQueue ++ (Serial.run start.rcvNxt count).map (labelled content)
  buf : ∀ seg ∈ kcp.rcvBuf, entry seg = labelled content seg.sn
  mem_iff : ∀ sn, sn ∈ arrived ↔ offset start.rcvNxt sn < count ∨ sn ∈ numbers kcp.rcvBuf
  inside : ∀ sn ∈ arrived, offset start.rcvNxt sn < plugWnd

variable {start content} {arrived : Set UInt32} {kcp kcp' : IKCPCB} {count count' : ℕ}

theorem Filled.fixed (h : Filled start content arrived kcp count) (hf : RecvFixed kcp kcp') :
    Filled start content arrived kcp' count := by
  obtain ⟨-, hnxt, hqueue, -, hbuf, -⟩ := hf
  refine ⟨?_, ?_, ?_, ?_, h.inside⟩
  · rw [hnxt]; exact h.nxt
  · rw [hqueue]; exact h.queue
  · rw [hbuf]; exact h.buf
  · rw [hbuf]; exact h.mem_iff

theorem Filled.queue_length (h : Filled start content arrived kcp count) :
    kcp.rcvQueue.length = start.rcvQueue.length + count := by
  have hlen := congrArg List.length h.queue
  simpa using hlen

theorem entries_of_labelled {segs : List IKCPSEG}
    (h : ∀ seg ∈ segs, entry seg = labelled content seg.sn) :
    entries segs = (numbers segs).map (labelled content) := by
  unfold entries numbers
  rw [List.map_map]
  exact List.map_congr_left h

/-- The number that is due next has not arrived, unless the queue is full. -/
theorem Filled.frontier (h : Filled start content arrived kcp count) (hs : RecvSettled kcp)
    (hroom : start.rcvQueue.length + count < plugWnd) :
    start.rcvNxt + UInt32.ofNat count ∉ arrived := by
  have hplug : plugWnd = 128 := rfl
  have hself : offset start.rcvNxt (start.rcvNxt + UInt32.ofNat count) = count :=
    Serial.offset_base_add (by omega)
  have hqueued := hs.queued
  rw [h.queue_length] at hqueued
  rw [h.mem_iff, ← h.nxt]
  rintro (hlt | hmem)
  · rw [h.nxt] at hlt
    omega
  · cases hbuf : kcp.rcvBuf with
    | nil => simp [hbuf] at hmem
    | cons seg rest =>
        -- the due number can only wait at the head, where it keeps the queue full
        have hwindow := hs.window
        rw [hbuf, numbers_cons] at hwindow hmem
        rcases List.mem_cons.mp hmem with heq | hrest
        · have hfull := hs.ready seg (by simp [hbuf]) heq.symm
          omega
        · have hlt := hwindow.head_lt hrest
          rw [Serial.offset_self] at hlt
          omega

theorem Filled.count_le (h : Filled start content arrived kcp count) (hs : RecvRing kcp) :
    start.rcvQueue.length + count ≤ plugWnd := by
  have hqueued := hs.queued
  have hroom := hs.room
  rw [h.queue_length] at hqueued
  omega

theorem Filled.offset_nxt (h : Filled start content arrived kcp count) (hs : RecvRing kcp) :
    offset start.rcvNxt kcp.rcvNxt = count := by
  have hplug : plugWnd = 128 := rfl
  have hle := h.count_le hs
  rw [h.nxt]
  exact Serial.offset_base_add (by omega)

/-- The comparisons of `ikcp_input` and `ikcp_parse_data`, seen from the old `rcv_nxt`. -/
theorem Filled.guards (h : Filled start content arrived kcp count) (hs : RecvRing kcp)
    {sn : UInt32} (hin : offset start.rcvNxt sn < plugWnd) :
    itimediff sn (kcp.rcvNxt + kcp.rcvWnd) = (offset start.rcvNxt sn : Int) - (count + plugWnd) ∧
      itimediff sn kcp.rcvNxt = (offset start.rcvNxt sn : Int) - count := by
  have hplug : plugWnd = 128 := rfl
  have hle := h.count_le hs
  have hmid := h.offset_nxt hs
  have hend : offset start.rcvNxt (kcp.rcvNxt + kcp.rcvWnd) = count + plugWnd := by
    rw [← @UInt32.ofNat_toNat kcp.rcvWnd, hs.wnd, Serial.offset_add (by omega), hmid]
  have hlimit : itimediff sn (kcp.rcvNxt + kcp.rcvWnd) = _ :=
    Serial.diff_eq_offset start.rcvNxt (by omega) (by omega)
  have hnxt : itimediff sn kcp.rcvNxt = _ :=
    Serial.diff_eq_offset start.rcvNxt (by omega) (by omega)
  omega

/-- The arrived numbers say how many have moved. -/
theorem Filled.count_unique (h : Filled start content arrived kcp count) (hs : RecvSettled kcp)
    (h' : Filled start content arrived kcp' count') (hs' : RecvSettled kcp') :
    ¬ count < count' := by
  intro hlt
  have hplug : plugWnd = 128 := rfl
  have hle' := h'.count_le hs'.toRecvRing
  apply h.frontier hs (by omega)
  rw [h'.mem_iff, Serial.offset_base_add (by omega)]
  exact Or.inl hlt

theorem Filled.numbers_iff (h : Filled start content arrived kcp count) (hs : RecvRing kcp)
    {sn : UInt32} :
    sn ∈ numbers kcp.rcvBuf ↔ sn ∈ arrived ∧ count ≤ offset start.rcvNxt sn := by
  have hplug : plugWnd = 128 := rfl
  have hle := h.count_le hs
  constructor
  · intro hmem
    have hin := hs.window.inside sn hmem
    have hmid := h.offset_nxt hs
    have htrans := @Serial.offset_trans start.rcvNxt kcp.rcvNxt sn (by omega)
    exact ⟨(h.mem_iff sn).mpr (Or.inr hmem), by omega⟩
  · rintro ⟨harrived, hge⟩
    rcases (h.mem_iff sn).mp harrived with hlt | hmem
    · omega
    · exact hmem

/-- Two blocks in which the same numbers have arrived hold the same. -/
theorem Filled.holdings_eq (h : Filled start content arrived kcp count) (hs : RecvSettled kcp)
    (h' : Filled start content arrived kcp' count') (hs' : RecvSettled kcp') :
    holdings kcp = holdings kcp' := by
  have hcount : count = count' := by
    have hle := h.count_unique hs h' hs'
    have hge := h'.count_unique hs' h hs
    omega
  subst hcount
  have hnxt : kcp.rcvNxt = kcp'.rcvNxt := h.nxt.trans h'.nxt.symm
  have hqueue : entries kcp.rcvQueue = entries kcp'.rcvQueue := h.queue.trans h'.queue.symm
  have hnumbers : numbers kcp.rcvBuf = numbers kcp'.rcvBuf := by
    have hwindow := hs.window
    rw [hnxt] at hwindow
    apply hwindow.eq_of_mem_iff hs'.window
    intro sn
    rw [h.numbers_iff hs.toRecvRing, h'.numbers_iff hs'.toRecvRing]
  have hbuf : entries kcp.rcvBuf = entries kcp'.rcvBuf := by
    rw [entries_of_labelled h.buf, entries_of_labelled h'.buf, hnumbers]
  have hque : kcp.nrcvQue = kcp'.nrcvQue := by
    rw [hs.queued, hs'.queued, h.queue_length, h'.queue_length]
  have hcounted : kcp.nrcvBuf = kcp'.nrcvBuf := by
    rw [hs.counted, hs'.counted, ← numbers_length, hnumbers, numbers_length]
  unfold holdings
  rw [hnxt, hqueue, hbuf, hque, hcounted]

/-! ## One segment -/

theorem Filled.moveRcvBuf (h : Filled start content arrived kcp count) (hs : RecvRing kcp) :
    ∃ count', Filled start content arrived (moveRcvBuf kcp) count' := by
  have hplug : plugWnd = 128 := rfl
  have hroom : kcp.nrcvQue ≤ kcp.rcvWnd.toNat := by
    rw [hs.wnd]
    exact hs.room
  have htaken := moveAvailable_taken kcp.rcvNxt kcp.rcvBuf hroom
  have happend := moveAvailable_append kcp.rcvWnd kcp.rcvNxt kcp.nrcvQue kcp.rcvBuf
  have hcount := htaken.count_le
  have hqueued := hs.queued
  have hmid := h.offset_nxt hs
  rw [hs.wnd] at hcount
  rw [h.queue_length] at hqueued
  unfold Ikcp.moveRcvBuf
  generalize moveAvailable kcp.rcvWnd kcp.rcvNxt kcp.nrcvQue kcp.rcvBuf = moved at *
  have hbuf : ∀ seg ∈ moved.1 ++ moved.2, entry seg = labelled content seg.sn := by
    rw [happend]
    exact h.buf
  have hmoved := entries_of_labelled fun seg hseg => hbuf seg (List.mem_append_left _ hseg)
  refine ⟨count + moved.1.length, ?_, ?_, ?_, ?_, h.inside⟩
  · dsimp only
    rw [h.nxt, UInt32.ofNat_add, UInt32.add_assoc]
  · dsimp only
    rw [entries_append, hmoved, htaken.numbers, h.queue, h.nxt, Serial.run_append,
      List.map_append, List.append_assoc]
  · exact fun seg hseg => hbuf seg (List.mem_append_right _ hseg)
  · intro sn
    dsimp only
    have hrun := @Serial.mem_run_iff start.rcvNxt kcp.rcvNxt sn moved.1.length (by omega)
    rw [h.mem_iff, ← happend, numbers_append, List.mem_append, htaken.numbers, hrun, hmid]
    by_cases hmem : sn ∈ numbers moved.2
    · simp [hmem]
    · simp only [hmem, or_false]
      omega

/-- A segment that is put into `rcv_buf`. -/
theorem Filled.inserted (h : Filled start content arrived kcp count) {seg : IKCPSEG}
    {buf : List IKCPSEG} (hentry : entry seg = labelled content seg.sn)
    (hin : offset start.rcvNxt seg.sn < plugWnd) (hperm : buf.Perm (seg :: kcp.rcvBuf)) :
    Filled start content (insert seg.sn arrived)
      { kcp with rcvBuf := buf, nrcvBuf := kcp.nrcvBuf + 1 } count := by
  refine ⟨h.nxt, h.queue, ?_, ?_, ?_⟩
  · intro s hmem
    rcases List.mem_cons.mp (hperm.mem_iff.mp hmem) with rfl | hold
    · exact hentry
    · exact h.buf s hold
  · intro sn
    have hnumbers : sn ∈ numbers buf ↔ sn = seg.sn ∨ sn ∈ numbers kcp.rcvBuf :=
      (hperm.map _).mem_iff.trans List.mem_cons
    show sn ∈ insert seg.sn arrived ↔ _ ∨ sn ∈ numbers buf
    rw [Set.mem_insert_iff, h.mem_iff, hnumbers]
    exact or_left_comm
  · intro sn hmem
    rcases Set.mem_insert_iff.mp hmem with rfl | hold
    · exact hin
    · exact h.inside sn hold

theorem Filled.parseData (h : Filled start content arrived kcp count) (hs : RecvSettled kcp)
    {seg : IKCPSEG} (hentry : entry seg = labelled content seg.sn)
    (hin : offset start.rcvNxt seg.sn < plugWnd) (hge : count ≤ offset start.rcvNxt seg.sn) :
    ∃ count', Filled start content (insert seg.sn arrived) (ikcpParseData kcp seg) count' := by
  obtain ⟨hlimit, hnxt⟩ := h.guards hs.toRecvRing hin
  have hmid := h.offset_nxt hs.toRecvRing
  have hnear : offset kcp.rcvNxt seg.sn < plugWnd := by
    rw [@Serial.offset_rebase start.rcvNxt kcp.rcvNxt seg.sn (by omega)]
    omega
  unfold ikcpParseData
  rw [if_neg (by omega)]
  dsimp only
  rcases insert_window hs.window (by decide) hnear with ⟨hnone, hmem⟩ | ⟨out, hsome, -, hperm, hwin⟩
  · rw [hnone, Set.insert_eq_of_mem ((h.mem_iff seg.sn).mpr (Or.inr hmem))]
    exact h.moveRcvBuf hs.toRecvRing
  · rw [hsome]
    refine (h.inserted hentry hin hperm).moveRcvBuf ⟨hs.wnd, hs.queued, ?_, hs.room, hs.order, hwin⟩
    show kcp.nrcvBuf + 1 = out.reverse.length
    rw [hperm.length_eq, List.length_cons, hs.counted]

theorem Filled.push (h : Filled start content arrived kcp count) (hs : RecvSettled kcp)
    {hd : SegHeader} {payload : Bytes}
    (hentry : entry (receivedSegment hd payload) = labelled content hd.sn)
    (hin : offset start.rcvNxt hd.sn < plugWnd) :
    ∃ count', Filled start content (insert hd.sn arrived) (inputPush kcp hd payload) count' := by
  obtain ⟨hlimit, hnxt⟩ := h.guards hs.toRecvRing hin
  have hfixed : RecvFixed kcp (ikcpAckPush kcp hd.sn hd.ts) := ⟨rfl, rfl, rfl, rfl, rfl, rfl⟩
  unfold inputPush
  dsimp only
  rw [if_pos (by omega)]
  by_cases hge : count ≤ offset start.rcvNxt hd.sn
  · have hnxt' : itimediff hd.sn (ikcpAckPush kcp hd.sn hd.ts).rcvNxt ≥ 0 := by
      show itimediff hd.sn kcp.rcvNxt ≥ 0
      omega
    rw [if_pos hnxt']
    exact (h.fixed hfixed).parseData (hs.fixed hfixed) hentry hin hge
  · -- the window start has passed this number: it came before
    have hnxt' : ¬ itimediff hd.sn (ikcpAckPush kcp hd.sn hd.ts).rcvNxt ≥ 0 := by
      show ¬ itimediff hd.sn kcp.rcvNxt ≥ 0
      omega
    rw [if_neg hnxt', Set.insert_eq_of_mem ((h.mem_iff hd.sn).mpr (Or.inl (by omega)))]
    exact ⟨count, h.fixed hfixed⟩

/-! ## Runs of data segments -/

/-- A data segment of the conversation with its number in the window of `block`. -/
structure Arriving (block : IKCPCB) (seg : IKCPSEG) : Prop extends Acceptable block.conv seg where
  cmd_eq : seg.cmd = ikcpCmdPush
  ahead : itimediff seg.sn block.rcvNxt ≥ 0
  before : itimediff seg.sn (block.rcvNxt + block.rcvWnd) < 0

theorem Filled.segment {st : InputState} (h : Filled start content arrived st.kcp count)
    (hs : RecvSettled st.kcp) (hwnd : start.rcvWnd.toNat = plugWnd) {seg : IKCPSEG}
    (hseg : Arriving start seg) (hentry : entry seg = labelled content seg.sn) :
    ∃ count', Filled start content (insert seg.sn arrived)
      (inputSegment st seg.header seg.data).kcp count' := by
  have hin := offset_of_guards hwnd hseg.before hseg.ahead
  have hcmd : seg.header.cmd.toUInt32 = ikcpCmdPush := (u32_of_u8 hseg.cmd_lt).trans hseg.cmd_eq
  have hreceived : entry (receivedSegment seg.header seg.data) =
      labelled content seg.header.sn := by
    have hfrg : seg.header.frg.toUInt32 = seg.frg := u32_of_u8 hseg.frg_lt
    refine Eq.trans ?_ hentry
    show (seg.sn, seg.header.frg.toUInt32, seg.data) = (seg.sn, seg.frg, seg.data)
    rw [hfrg]
  have hcommon : RecvFixed st.kcp (inputCommon st.kcp seg.header) :=
    ⟨rfl, rfl, rfl, rfl, rfl, rfl⟩
  rcases inputSegment_cases st seg.header seg.data with
    ⟨hack, -⟩ | ⟨-, heq⟩ | ⟨hwask, -⟩ | ⟨-, hpush, -, -⟩
  · exact absurd (hack.symm.trans hcmd) (by decide)
  · rw [heq]
    exact (h.fixed hcommon).push (hs.fixed hcommon) hreceived hin
  · exact absurd (hwask.symm.trans hcmd) (by decide)
  · exact absurd hcmd hpush

/-- What a run of datagrams carries along. -/
structure Receiving (start : IKCPCB) (content : UInt32 → UInt32 × Bytes) (arrived : Set UInt32)
    (kcp : IKCPCB) : Prop where
  filled : ∃ count, Filled start content arrived kcp count
  settled : RecvSettled kcp
  conv_eq : kcp.conv = start.conv

theorem Receiving.segments {st : InputState} (h : Receiving start content arrived st.kcp)
    (hwnd : start.rcvWnd.toNat = plugWnd) {segs : List IKCPSEG}
    (hsegs : ∀ seg ∈ segs, Arriving start seg ∧ entry seg = labelled content seg.sn) :
    Receiving start content (arrived ∪ {sn | sn ∈ numbers segs}) (inputSegments st segs).kcp := by
  induction segs generalizing st arrived with
  | nil => simpa using h
  | cons seg segs ih =>
      obtain ⟨hseg, hentry⟩ := hsegs seg List.mem_cons_self
      obtain ⟨count, hfilled⟩ := h.filled
      have hstep : Receiving start content (insert seg.sn arrived)
          (inputSegment st seg.header seg.data).kcp :=
        ⟨hfilled.segment h.settled hwnd hseg hentry, (h.settled.inputSegment _ _).1,
          (conv_of_config (inputSegment_config st _ _)).trans h.conv_eq⟩
      have hrest := ih hstep fun s hs => hsegs s (List.mem_cons_of_mem _ hs)
      have hset : insert seg.sn arrived ∪ {sn | sn ∈ numbers segs} =
          arrived ∪ {sn | sn ∈ numbers (seg :: segs)} := by
        ext sn
        simp only [Set.mem_union, Set.mem_insert_iff, Set.mem_ofPred_eq, numbers_cons,
          List.mem_cons]
        tauto
      rw [inputSegments_cons, ← hset]
      exact hrest

theorem Receiving.datagram (h : Receiving start content arrived kcp)
    (hwnd : start.rcvWnd.toNat = plugWnd) {group : List IKCPSEG}
    (hgroup : ∀ seg ∈ group, Arriving start seg ∧ entry seg = labelled content seg.sn) :
    Receiving start content (arrived ∪ {sn | sn ∈ numbers group})
      (ikcpInput kcp (segmentBytes group)).1 := by
  by_cases hnil : group = []
  · subst hnil
    simpa [ikcpInput, ikcpOverhead] using h
  · have haccept : ∀ seg ∈ group, Acceptable kcp.conv seg := fun seg hseg =>
      (hgroup seg hseg).1.toAcceptable.cast h.conv_eq
    have hloop := @Receiving.segments start content arrived { kcp := kcp } h hwnd group hgroup
    have hfixed : RecvFixed (inputSegments { kcp := kcp } group).kcp
        (inputTail (inputSegments { kcp := kcp } group) kcp.sndUna) := by
      rw [inputTail_eq]
      exact ⟨rfl, rfl, rfl, rfl, rfl, rfl⟩
    obtain ⟨count, hfilled⟩ := hloop.filled
    rw [ikcpInput_segments hnil haccept]
    exact ⟨⟨count, hfilled.fixed hfixed⟩, hloop.settled.fixed hfixed,
      (conv_of_config (inputTail_config _ _)).trans hloop.conv_eq⟩

end Filled

/-- The block after datagrams made of these groups of segments. -/
def inputDatagrams (block : IKCPCB) (groups : List (List IKCPSEG)) : IKCPCB :=
  groups.foldl (fun kcp group => (ikcpInput kcp (segmentBytes group)).1) block

theorem Receiving.datagrams {start kcp : IKCPCB} {content : UInt32 → UInt32 × Bytes}
    {arrived : Set UInt32} (h : Receiving start content arrived kcp)
    (hwnd : start.rcvWnd.toNat = plugWnd) {groups : List (List IKCPSEG)}
    (hgroups : ∀ seg ∈ groups.flatten, Arriving start seg ∧ entry seg = labelled content seg.sn) :
    Receiving start content (arrived ∪ {sn | sn ∈ numbers groups.flatten})
      (inputDatagrams kcp groups) := by
  induction groups generalizing kcp arrived with
  | nil => simpa [inputDatagrams] using h
  | cons group groups ih =>
      simp only [List.flatten_cons, List.forall_mem_append] at hgroups
      have hrest := ih (h.datagram hwnd hgroups.1) hgroups.2
      have hset : arrived ∪ {sn | sn ∈ numbers group} ∪ {sn | sn ∈ numbers groups.flatten} =
          arrived ∪ {sn | sn ∈ numbers (group :: groups).flatten} := by
        ext sn
        simp [or_assoc]
      rw [← hset]
      exact hrest

/-! ## Order, repetition and packing -/

/-- Equal numbers carry equal contents. -/
def Coherent (segs : List IKCPSEG) : Prop :=
  ∀ a ∈ segs, ∀ b ∈ segs, a.sn = b.sn → a.frg = b.frg ∧ a.data = b.data

theorem Coherent.exists_content {segs : List IKCPSEG} (h : Coherent segs) :
    ∃ content, ∀ seg ∈ segs, entry seg = labelled content seg.sn := by
  refine ⟨fun sn => ((segs.find? fun seg => seg.sn = sn).map fun seg =>
    (seg.frg, seg.data)).getD (0, []), ?_⟩
  intro seg hseg
  cases hfind : segs.find? fun s => s.sn = seg.sn with
  | none =>
      have hnone := List.find?_eq_none.mp hfind seg hseg
      simp at hnone
  | some found =>
      have hsn : found.sn = seg.sn := by simpa using List.find?_some hfind
      obtain ⟨hfrg, hdata⟩ := h found (List.mem_of_find?_eq_some hfind) seg hseg hsn
      simp [entry, labelled, hfind, hfrg, hdata]

theorem Receiving.start {block : IKCPCB} (hs : RecvSettled block)
    {content : UInt32 → UInt32 × Bytes}
    (hbuf : ∀ seg ∈ block.rcvBuf, entry seg = labelled content seg.sn) :
    Receiving block content {sn | sn ∈ numbers block.rcvBuf} block where
  filled := ⟨0, by simp, by simp [Serial.run], hbuf, by simp, fun sn hsn => hs.window.inside sn hsn⟩
  settled := hs
  conv_eq := rfl

/-- Data segments of one window, coherent with each other and with what waits, leave the
receiving half the same in every order, however often repeated and however cut into
datagrams. -/
theorem arrival_order {conv : UInt32} {block : IKCPCB} (h : Reachable conv block)
    {xs ys : List (List IKCPSEG)} (harriving : ∀ seg ∈ xs.flatten, Arriving block seg)
    (hcoherent : Coherent (block.rcvBuf ++ xs.flatten))
    (hsame : ∀ seg, seg ∈ ys.flatten ↔ seg ∈ xs.flatten) :
    holdings (inputDatagrams block ys) = holdings (inputDatagrams block xs) := by
  have hringed := ringed_of_reachable h
  have hwnd := hringed.sound.rcvWnd_toNat
  obtain ⟨content, hcontent⟩ := hcoherent.exists_content
  have hstart := Receiving.start hringed.rcv fun seg hseg =>
    hcontent seg (List.mem_append_left _ hseg)
  have hsegs : ∀ seg ∈ xs.flatten, Arriving block seg ∧ entry seg = labelled content seg.sn :=
    fun seg hseg => ⟨harriving seg hseg, hcontent seg (List.mem_append_right _ hseg)⟩
  have hx := hstart.datagrams hwnd hsegs
  have hy := hstart.datagrams hwnd fun seg hseg => hsegs seg ((hsame seg).mp hseg)
  have hnumbers : {sn | sn ∈ numbers ys.flatten} = {sn | sn ∈ numbers xs.flatten} := by
    ext sn
    simp only [numbers, Set.mem_ofPred_eq, List.mem_map, hsame]
  rw [hnumbers] at hy
  obtain ⟨count, hfilled⟩ := hx.filled
  obtain ⟨count', hfilled'⟩ := hy.filled
  exact hfilled'.holdings_eq hy.settled hfilled hx.settled

def segmentZero : IKCPSEG := { conv := 7, cmd := 81, frg := 1, wnd := 128, data := [65] }

def segmentOne : IKCPSEG := { conv := 7, cmd := 81, wnd := 32, sn := 1, data := [66, 67] }

theorem arriving_zero : Arriving (newKcpPlugControlBlock 7) segmentZero :=
  ⟨⟨⟨by decide, by decide, by decide, by decide⟩, by decide, by decide⟩, by decide, by decide,
    by decide⟩

theorem arriving_one : Arriving (newKcpPlugControlBlock 7) segmentOne :=
  ⟨⟨⟨by decide, by decide, by decide, by decide⟩, by decide, by decide⟩, by decide, by decide,
    by decide⟩

/-- The second segment first and alone, or twice in one datagram around the first. -/
theorem arrival_order_pair :
    (inputDatagrams (newKcpPlugControlBlock 7) [[segmentOne], [segmentZero]]).nrcvQue = 2 ∧
      holdings (inputDatagrams (newKcpPlugControlBlock 7)
          [[segmentOne, segmentZero, segmentOne]]) =
        holdings (inputDatagrams (newKcpPlugControlBlock 7) [[segmentOne], [segmentZero]]) := by
  refine ⟨by decide, arrival_order Relation.ReflTransGen.refl ?_ ?_ ?_⟩
  · simp [arriving_one, arriving_zero]
  · intro a ha b hb hsn
    have hpair : ∀ seg ∈ (newKcpPlugControlBlock 7).rcvBuf ++ [[segmentOne], [segmentZero]].flatten,
        seg = segmentOne ∨ seg = segmentZero := by
      have hbuf : (newKcpPlugControlBlock 7).rcvBuf = [] := rfl
      simp [hbuf]
    rcases hpair a ha with rfl | rfl <;> rcases hpair b hb with rfl | rfl
    · exact ⟨rfl, rfl⟩
    · exact absurd hsn (by decide)
    · exact absurd hsn (by decide)
    · exact ⟨rfl, rfl⟩
  · intro seg
    simp only [List.flatten_cons, List.flatten_nil, List.mem_append, List.mem_cons,
      List.not_mem_nil, or_false]
    tauto

end UdpKcp.Plug
