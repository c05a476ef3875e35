import UdpKcp.Memory.Block
import UdpKcp.Ikcp.Outgoing
import Mathlib.Data.List.Induction

/-! # Input through the pointers

The walks of `ikcp_input` over `snd_buf` and `rcv_buf`. Each leaves a block that
stands for what the list model computes.
-/

namespace UdpKcp.Memory

open ByteCodec (Bytes)
open Ikcp
open Intrusive (front back front_nil front_cons back_nil back_concat)
open Triples (Triple)

/-! ## Acknowledgements -/

/-- `ikcp_shrink_buf`. -/
def shrinkBuf : M Unit := do
  let p ← nextOf (.head .sndBuf)
  if p ≠ .head .sndBuf then do
    let seg ← iqueueEntry p
    setKcp fun kcp => { kcp with sndUna := seg.sn }
  else setKcp fun kcp => { kcp with sndUna := kcp.sndNxt }

/-- The loop of `ikcp_parse_una`. -/
def unaLoop (una : UInt32) : Nat → Ptr → M Unit
  | 0, _ => failure
  | fuel + 1, p =>
      if p = .head .sndBuf then pure ()
      else do
        let seg ← iqueueEntry p
        let next ← nextOf p
        if itimediff una seg.sn > 0 then do
          iqueueDel p
          segmentDelete p
          setKcp fun kcp => { kcp with nsndBuf := kcp.nsndBuf - 1 }
          unaLoop una fuel next
        else pure ()

/-- `ikcp_parse_una`. -/
def parseUna (una : UInt32) : M Unit := do
  let p ← nextOf (.head .sndBuf)
  let fuel ← walkFuel
  unaLoop una fuel p

/-- The loop of `ikcp_parse_ack`. -/
def ackLoop (sn : UInt32) : Nat → Ptr → M Unit
  | 0, _ => failure
  | fuel + 1, p =>
      if p = .head .sndBuf then pure ()
      else do
        let seg ← iqueueEntry p
        let next ← nextOf p
        if sn = seg.sn then do
          iqueueDel p
          segmentDelete p
          setKcp fun kcp => { kcp with nsndBuf := kcp.nsndBuf - 1 }
        else if itimediff sn seg.sn < 0 then pure ()
        else ackLoop sn fuel next

/-- `ikcp_parse_ack`. -/
def parseAck (sn : UInt32) : M Unit := do
  let kcp ← getKcp
  if itimediff sn kcp.sndUna < 0 ∨ itimediff sn kcp.sndNxt ≥ 0 then pure ()
  else do
    let p ← nextOf (.head .sndBuf)
    let fuel ← walkFuel
    ackLoop sn fuel p

/-- The loop of `ikcp_parse_fastack`. -/
def fastackLoop (sn : UInt32) : Nat → Ptr → M Unit
  | 0, _ => failure
  | fuel + 1, p =>
      if p = .head .sndBuf then pure ()
      else do
        let seg ← iqueueEntry p
        let next ← nextOf p
        if itimediff sn seg.sn < 0 then pure ()
        else if sn ≠ seg.sn then do
          setEntry p { seg with fastack := seg.fastack + 1 }
          fastackLoop sn fuel next
        else fastackLoop sn fuel next

/-- `ikcp_parse_fastack`. -/
def parseFastack (sn _ts : UInt32) : M Unit := do
  let kcp ← getKcp
  if itimediff sn kcp.sndUna < 0 ∨ itimediff sn kcp.sndNxt ≥ 0 then pure ()
  else do
    let p ← nextOf (.head .sndBuf)
    let fuel ← walkFuel
    fastackLoop sn fuel p

/-! ## Data -/

/-- The walk of `ikcp_parse_data` from the tail of `rcv_buf`: where it stops, and `repeat`. -/
def dataLoop (sn : UInt32) : Nat → Ptr → M (Ptr × Bool)
  | 0, _ => failure
  | fuel + 1, p =>
      if p = .head .rcvBuf then pure (p, false)
      else do
        let seg ← iqueueEntry p
        let prev ← prevOf p
        if seg.sn = sn then pure (p, true)
        else if itimediff sn seg.sn > 0 then pure (p, false)
        else dataLoop sn fuel prev

/-- The loop that moves available data from `rcv_buf` to `rcv_queue`. -/
def moveLoop : Nat → M Unit
  | 0 => failure
  | fuel + 1 => do
      if ← iqueueIsEmpty .rcvBuf then pure ()
      else do
        let p ← nextOf (.head .rcvBuf)
        let seg ← iqueueEntry p
        let kcp ← getKcp
        if seg.sn = kcp.rcvNxt ∧ kcp.nrcvQue < kcp.rcvWnd.toNat then do
          iqueueDel p
          setKcp fun kcp => { kcp with nrcvBuf := kcp.nrcvBuf - 1 }
          iqueueAddTail p (.head .rcvQueue)
          setKcp fun kcp => { kcp with nrcvQue := kcp.nrcvQue + 1, rcvNxt := kcp.rcvNxt + 1 }
          moveLoop fuel
        else pure ()

def moveAll : M Unit := do
  let fuel ← walkFuel
  moveLoop fuel

/-- Link the new segment in behind `p`, or free it when its number is there already. -/
def insertData (newseg p : Ptr) (repeated : Bool) : M Unit :=
  if repeated = false then do
    iqueueInit newseg
    iqueueAdd newseg p
    setKcp fun kcp => { kcp with nrcvBuf := kcp.nrcvBuf + 1 }
  else segmentDelete newseg

/-- `ikcp_parse_data`. -/
def parseData (newseg : Ptr) : M Unit := do
  let seg ← iqueueEntry newseg
  let sn := seg.sn
  let kcp ← getKcp
  if itimediff sn (kcp.rcvNxt + kcp.rcvWnd) ≥ 0 ∨ itimediff sn kcp.rcvNxt < 0 then
    segmentDelete newseg
  else do
    let p ← prevOf (.head .rcvBuf)
    let fuel ← walkFuel
    let (p, repeated) ← dataLoop sn fuel p
    insertData newseg p repeated
    moveAll

/-! ## ikcp_input -/

/-- The locals of `ikcp_input` that live across the loop. -/
structure Locals where
  flag : Bool := false
  maxack : UInt32 := 0
  latestTs : UInt32 := 0

def updateRtt (rtt : Int) : M Unit :=
  if rtt ≥ 0 then setKcp fun kcp => ikcpUpdateAck kcp rtt else pure ()

/-- The acknowledgement branch. -/
def segmentAck (l : Locals) (h : SegHeader) : M Locals := do
  let kcp ← getKcp
  updateRtt (itimediff kcp.current h.ts)
  parseAck h.sn
  shrinkBuf
  return if l.flag = false ∨ itimediff h.sn l.maxack > 0 then
    { flag := true, maxack := h.sn, latestTs := h.ts }
  else l

/-- The data branch. -/
def segmentPush (h : SegHeader) (payload : Bytes) : M Unit := do
  let kcp ← getKcp
  if itimediff h.sn (kcp.rcvNxt + kcp.rcvWnd) < 0 then do
    ackPush h.sn h.ts
    if itimediff h.sn kcp.rcvNxt ≥ 0 then do
      let seg ← segmentNew (receivedSegment h payload)
      parseData seg
    else pure ()
  else pure ()

/-- One well-formed segment of the loop in `ikcp_input`. -/
def inputSegment (l : Locals) (h : SegHeader) (payload : Bytes) : M Locals := do
  setKcp fun kcp => { kcp with rmtWnd := h.wnd.toUInt32 }
  parseUna h.una
  shrinkBuf
  if h.cmd.toUInt32 = ikcpCmdAck then segmentAck l h
  else if h.cmd.toUInt32 = ikcpCmdPush then do
    segmentPush h payload
    return l
  else if h.cmd.toUInt32 = ikcpCmdWask then do
    setKcp fun kcp => { kcp with probe := kcp.probe ||| ikcpAskTell }
    return l
  else return l

/-- The loop of `ikcp_input`. -/
def inputLoop : Nat → Locals → Bytes → M (Locals × Option Int)
  | 0, l, _ => return (l, none)
  | fuel + 1, l, data =>
      if data.length < ikcpOverhead then return (l, none)
      else do
        let h := (decodeHeader data).1
        let body := (decodeHeader data).2
        let kcp ← getKcp
        if h.conv ≠ kcp.conv then return (l, some (-1))
        else if body.length < h.len.toNat ∨ asI32 h.len < 0 then return (l, some (-2))
        else if ¬ validCmd h.cmd then return (l, some (-3))
        else do
          let l ← inputSegment l h (body.take h.len.toNat)
          inputLoop fuel l (body.drop h.len.toNat)

/-- What `ikcp_input` does after the loop, or the error it returns. -/
def inputEnd (l : Locals) (prevUna : UInt32) : Option Int → M Int
  | some code => return code
  | none => do
      if l.flag then parseFastack l.maxack l.latestTs else pure ()
      setKcp fun kcp => inputCwnd kcp prevUna
      return 0

/-- `ikcp_input`. The signed sums of `ikcp_update_ack` wrap. -/
def input (data : Bytes) : M Int := do
  let kcp ← getKcp
  if data.length < ikcpOverhead then return -1
  else do
    let (l, code) ← inputLoop data.length {} data
    inputEnd l kcp.sndUna code

/-! ## The walks over the send buffer -/

section Walks

variable {own : Queue → List (Nat × IKCPSEG)} {loose : List (Nat × IKCPSEG)} {kcp k : IKCPCB}
  {acks : List (UInt32 × UInt32)}

theorem shrinkBuf_triple :
    Triple (Stands loose k) shrinkBuf fun _ => Stands loose (ikcpShrinkBuf k) := by
  refine Stands.triple fun own kcp acks hk => ?_
  subst hk
  refine (next_head_triple .sndBuf).bind_eq _ ?_
  cases hbuf : own .sndBuf with
  | nil =>
      simp only [front_nil, ne_eq, not_true_eq_false, if_false]
      refine (setKcp_triple rfl).post fun _ b hb => ?_
      have hnxt : ikcpShrinkBuf (blockOf own kcp acks) =
          blockOf own { kcp with sndUna := kcp.sndNxt } acks := by
        simp [ikcpShrinkBuf, blockOf, hbuf]
      rw [hnxt]
      exact hb.stands
  | cons x xs =>
      rw [if_pos front_ne_head]
      have hx : x ∈ own .sndBuf := by simp [hbuf]
      refine (entry_triple hx).bind_eq _ ?_
      refine (setKcp_triple rfl).post fun _ b hb => ?_
      have hsn : ikcpShrinkBuf (blockOf own kcp acks) =
          blockOf own { kcp with sndUna := x.2.sn } acks := by
        simp [ikcpShrinkBuf, blockOf, hbuf]
      rw [hsn]
      exact hb.stands

theorem parseUna_cons {seg : IKCPSEG} {next : List IKCPSEG} {una : UInt32}
    (hbuf : k.sndBuf = seg :: next) (hgt : itimediff una seg.sn > 0) :
    ikcpParseUna k una =
      ikcpParseUna { k with sndBuf := next, nsndBuf := k.nsndBuf - 1 } una := by
  have hlen := (dropUnacked_suffix una next).length_le
  simp only [ikcpParseUna, hbuf, dropUnacked, if_pos hgt, List.length_cons]
  congr 1
  omega

theorem parseUna_stop {una : UInt32} (hstop : dropUnacked una k.sndBuf = k.sndBuf) :
    ikcpParseUna k una = k := by
  simp [ikcpParseUna, hstop]

theorem unaLoop_triple (una : UInt32) {fuel : Nat} (hfuel : (own .sndBuf).length < fuel) :
    Triple (Holds own loose kcp acks) (unaLoop una fuel (front .sndBuf (own .sndBuf)))
      fun _ => Stands loose (ikcpParseUna (blockOf own kcp acks) una) := by
  generalize hxs : own .sndBuf = xs at hfuel ⊢
  induction xs generalizing own kcp fuel with
  | nil =>
      obtain ⟨fuel, rfl⟩ := Nat.exists_eq_succ_of_ne_zero (Nat.ne_of_gt (Nat.zero_lt_of_lt hfuel))
      rw [unaLoop, if_pos front_nil, parseUna_stop (by simp [blockOf, hxs, dropUnacked])]
      exact Triple.pure fun b hb => hb.stands
  | cons x xs ih =>
      obtain ⟨fuel, rfl⟩ := Nat.exists_eq_succ_of_ne_zero (Nat.ne_of_gt (Nat.zero_lt_of_lt hfuel))
      have hsplit : own .sndBuf = [] ++ x :: xs := hxs
      have hbuf : (blockOf own kcp acks).sndBuf = x.2 :: xs.map Prod.snd := by simp [blockOf, hxs]
      rw [unaLoop, if_neg front_ne_head]
      have hx : x ∈ own .sndBuf := by simp [hxs]
      refine (entry_triple hx).bind_eq _ ?_
      refine (next_triple hsplit).bind_eq _ ?_
      refine Triple.ite (fun hgt => ?_) (fun hgt => ?_)
      · refine (del_triple hsplit).bind fun _ => delete_triple.bind fun _ => ?_
        refine (setKcp_triple rfl).bind fun _ => ?_
        refine (ih (Function.update_self _ _ _) (by simpa using hfuel)).post fun _ b hb => ?_
        rw [parseUna_cons hbuf hgt]
        rw [blockOf_update_sndBuf] at hb
        exact hb
      · rw [parseUna_stop (by rw [hbuf, dropUnacked, if_neg hgt])]
        exact Triple.pure fun b hb => hb.stands

theorem parseUna_triple (una : UInt32) :
    Triple (Stands loose k) (parseUna una) fun _ => Stands loose (ikcpParseUna k una) := by
  refine Stands.triple fun own kcp acks hk => ?_
  subst hk
  refine (next_head_triple .sndBuf).bind_eq _ ?_
  refine walkFuel_triple.bind fun fuel => Triple.and fun hfuel => ?_
  exact unaLoop_triple una (hfuel .sndBuf)

/-- One entry fewer: what the walk leaves, and the count. -/
theorem ackLoop_triple (sn : UInt32) {done rest : List (Nat × IKCPSEG)}
    (hown : own .sndBuf = done ++ rest) {fuel : Nat} (hfuel : rest.length < fuel) :
    Triple (Holds own loose kcp acks) (ackLoop sn fuel (front .sndBuf rest)) fun _ =>
      Stands loose { blockOf own kcp acks with
        sndBuf := done.map Prod.snd ++ removeAcked sn (rest.map Prod.snd)
        nsndBuf := kcp.nsndBuf -
          (rest.length - (removeAcked sn (rest.map Prod.snd)).length) } := by
  induction rest generalizing done fuel with
  | nil =>
      obtain ⟨fuel, rfl⟩ := Nat.exists_eq_succ_of_ne_zero (Nat.ne_of_gt (Nat.zero_lt_of_lt hfuel))
      rw [ackLoop, if_pos front_nil]
      refine Triple.pure fun b hb => ?_
      simpa [removeAcked, blockOf, hown] using hb.stands
  | cons x rest ih =>
      obtain ⟨fuel, rfl⟩ := Nat.exists_eq_succ_of_ne_zero (Nat.ne_of_gt (Nat.zero_lt_of_lt hfuel))
      have hx : x ∈ own .sndBuf := by simp [hown]
      rw [ackLoop, if_neg front_ne_head]
      refine (entry_triple hx).bind_eq _ ?_
      refine (next_triple hown).bind_eq _ ?_
      refine Triple.ite (fun heq => ?_) (fun hne => Triple.ite (fun hlt => ?_) (fun hge => ?_))
      · refine (del_triple hown).bind fun _ => delete_triple.bind fun _ => ?_
        refine (setKcp_triple rfl).post fun _ b hb => ?_
        have hstands := hb.stands
        rw [blockOf_update_sndBuf] at hstands
        simpa [removeAcked, heq, blockOf] using hstands
      · refine Triple.pure fun b hb => ?_
        simpa [removeAcked, hne, hlt, blockOf, hown] using hb.stands
      · have hnext : own .sndBuf = (done ++ [x]) ++ rest := by simp [hown]
        refine (ih hnext (by simpa using hfuel)).post fun _ b hb => ?_
        simpa [removeAcked, hne, hge] using hb

theorem parseAck_triple (sn : UInt32) :
    Triple (Stands loose k) (parseAck sn) fun _ => Stands loose (ikcpParseAck k sn) := by
  refine Stands.triple fun own kcp acks hk => ?_
  subst hk
  refine getKcp_triple.bind_eq _ ?_
  refine Triple.ite (fun hout => ?_) (fun hin => ?_)
  · refine Triple.pure fun b hb => ?_
    have hsame : ikcpParseAck (blockOf own kcp acks) sn = blockOf own kcp acks := if_pos hout
    rw [hsame]
    exact hb.stands
  · refine (next_head_triple .sndBuf).bind_eq _ ?_
    refine walkFuel_triple.bind fun fuel => Triple.and fun hfuel => ?_
    refine (ackLoop_triple sn (List.nil_append _).symm (hfuel .sndBuf)).post fun _ b hb => ?_
    have hack : ikcpParseAck (blockOf own kcp acks) sn = _ := if_neg hin
    rw [hack]
    simpa [blockOf] using hb

theorem fastackLoop_triple (sn : UInt32) {done rest : List (Nat × IKCPSEG)}
    (hown : own .sndBuf = done ++ rest) {fuel : Nat} (hfuel : rest.length < fuel) :
    Triple (Holds own loose kcp acks) (fastackLoop sn fuel (front .sndBuf rest)) fun _ =>
      Stands loose { blockOf own kcp acks with
        sndBuf := done.map Prod.snd ++ countFastack sn (rest.map Prod.snd) } := by
  induction rest generalizing own done fuel with
  | nil =>
      obtain ⟨fuel, rfl⟩ := Nat.exists_eq_succ_of_ne_zero (Nat.ne_of_gt (Nat.zero_lt_of_lt hfuel))
      rw [fastackLoop, if_pos front_nil]
      refine Triple.pure fun b hb => ?_
      simpa [countFastack, blockOf, hown] using hb.stands
  | cons x rest ih =>
      obtain ⟨fuel, rfl⟩ := Nat.exists_eq_succ_of_ne_zero (Nat.ne_of_gt (Nat.zero_lt_of_lt hfuel))
      have hx : x ∈ own .sndBuf := by simp [hown]
      have hroom : rest.length < fuel := by simpa using hfuel
      rw [fastackLoop, if_neg front_ne_head]
      refine (entry_triple hx).bind_eq _ ?_
      refine (next_triple hown).bind_eq _ ?_
      refine Triple.ite (fun hlt => ?_) (fun hge => Triple.ite (fun hne => ?_) (fun heq => ?_))
      · refine Triple.pure fun b hb => ?_
        simpa [countFastack, hlt, blockOf, hown] using hb.stands
      · refine (setEntry_triple hown _).bind fun _ => ?_
        have hnext : Function.update own .sndBuf
            (done ++ (x.1, { x.2 with fastack := x.2.fastack + 1 }) :: rest) .sndBuf =
              (done ++ [(x.1, { x.2 with fastack := x.2.fastack + 1 })]) ++ rest := by simp
        refine (ih hnext hroom).post fun _ b hb => ?_
        rw [blockOf_update_sndBuf] at hb
        simpa [countFastack, hge, hne] using hb
      · have hnext : own .sndBuf = (done ++ [x]) ++ rest := by simp [hown]
        refine (ih hnext hroom).post fun _ b hb => ?_
        simpa [countFastack, hge, heq] using hb

theorem parseFastack_triple (sn ts : UInt32) :
    Triple (Stands loose k) (parseFastack sn ts) fun _ =>
      Stands loose (ikcpParseFastack k sn ts) := by
  refine Stands.triple fun own kcp acks hk => ?_
  subst hk
  refine getKcp_triple.bind_eq _ ?_
  refine Triple.ite (fun hout => ?_) (fun hin => ?_)
  · refine Triple.pure fun b hb => ?_
    have hsame : ikcpParseFastack (blockOf own kcp acks) sn ts = blockOf own kcp acks :=
      if_pos hout
    rw [hsame]
    exact hb.stands
  · refine (next_head_triple .sndBuf).bind_eq _ ?_
    refine walkFuel_triple.bind fun fuel => Triple.and fun hfuel => ?_
    refine (fastackLoop_triple sn (List.nil_append _).symm (hfuel .sndBuf)).post fun _ b hb => ?_
    have hfast : ikcpParseFastack (blockOf own kcp acks) sn ts = _ := if_neg hin
    rw [hfast]
    exact hb

/-! ## The walk over the receive buffer -/

theorem dataLoop_triple (newseg : IKCPSEG) {ahead behind : List (Nat × IKCPSEG)}
    (hown : own .rcvBuf = ahead ++ behind) {fuel : Nat} (hfuel : ahead.length < fuel) :
    Triple (Holds own loose kcp acks) (dataLoop newseg.sn fuel (back .rcvBuf ahead)) fun r b =>
      (∃ keep skip, ahead = keep ++ skip ∧ r.1 = back .rcvBuf keep ∧
        (r.2 = true → insertFromTail newseg (ahead.map Prod.snd).reverse = none) ∧
        (r.2 = false → insertFromTail newseg (ahead.map Prod.snd).reverse =
          some ((skip.map Prod.snd).reverse ++ newseg :: (keep.map Prod.snd).reverse))) ∧
      Holds own loose kcp acks b := by
  induction ahead using List.reverseRecOn generalizing behind fuel with
  | nil =>
      obtain ⟨fuel, rfl⟩ := Nat.exists_eq_succ_of_ne_zero (Nat.ne_of_gt (Nat.zero_lt_of_lt hfuel))
      rw [dataLoop, if_pos back_nil]
      exact Triple.pure fun b hb => ⟨⟨[], [], rfl, rfl, by simp, by simp [insertFromTail]⟩, hb⟩
  | append_singleton ahead x ih =>
      obtain ⟨fuel, rfl⟩ := Nat.exists_eq_succ_of_ne_zero (Nat.ne_of_gt (Nat.zero_lt_of_lt hfuel))
      have hsplit : own .rcvBuf = ahead ++ x :: behind := by simp [hown]
      have hx : x ∈ own .rcvBuf := by simp [hsplit]
      rw [dataLoop, if_neg back_ne_head, back_concat]
      refine (entry_triple hx).bind_eq _ ?_
      refine (prev_triple hsplit).bind_eq _ ?_
      refine Triple.ite (fun heq => ?_) (fun hne => Triple.ite (fun hgt => ?_) (fun hle => ?_))
      · refine Triple.pure fun b hb => ⟨⟨ahead ++ [x], [], by simp, by simp, ?_, by simp⟩, hb⟩
        intro _
        simp [insertFromTail, heq]
      · refine Triple.pure fun b hb => ⟨⟨ahead ++ [x], [], by simp, by simp, by simp, ?_⟩, hb⟩
        intro _
        simp [insertFromTail, hne, hgt]
      · refine (ih hsplit (by simpa using hfuel)).post fun r b => ?_
        rintro ⟨⟨keep, skip, hahead, hr, hnone, hsome⟩, hb⟩
        refine ⟨⟨keep, skip ++ [x], by simp [hahead], hr, ?_, ?_⟩, hb⟩
        · intro hrep
          simp [insertFromTail, hne, hle, hnone hrep]
        · intro hrep
          simp [insertFromTail, hne, hle, hsome hrep]

/-! ## Moving available data -/

theorem moveRcvBuf_cons {seg : IKCPSEG} {rest : List IKCPSEG} (hbuf : k.rcvBuf = seg :: rest)
    (hmove : seg.sn = k.rcvNxt ∧ k.nrcvQue < k.rcvWnd.toNat) :
    moveRcvBuf k =
      moveRcvBuf { k with
        rcvBuf := rest
        nrcvBuf := k.nrcvBuf - 1
        rcvQueue := k.rcvQueue ++ [seg]
        nrcvQue := k.nrcvQue + 1
        rcvNxt := k.rcvNxt + 1 } := by
  have hnxt : ∀ n : Nat, k.rcvNxt + UInt32.ofNat (n + 1) = k.rcvNxt + 1 + UInt32.ofNat n := by
    intro n
    rw [UInt32.ofNat_add, UInt32.add_assoc, UInt32.add_comm (UInt32.ofNat n)]
    rfl
  simp only [moveRcvBuf, hbuf, moveAvailable, if_pos hmove, List.length_cons, hnxt,
    List.append_assoc, List.singleton_append]
  congr 1 <;> omega

theorem moveRcvBuf_stop (hstop : ∀ seg rest, k.rcvBuf = seg :: rest →
    ¬ (seg.sn = k.rcvNxt ∧ k.nrcvQue < k.rcvWnd.toNat)) : moveRcvBuf k = k := by
  have hnone : moveAvailable k.rcvWnd k.rcvNxt k.nrcvQue k.rcvBuf = ([], k.rcvBuf) := by
    cases hbuf : k.rcvBuf with
    | nil => rfl
    | cons seg rest => rw [moveAvailable, if_neg (hstop seg rest hbuf)]
  simp [moveRcvBuf, hnone]

theorem moveLoop_triple {fuel : Nat} (hfuel : k.rcvBuf.length < fuel) :
    Triple (Stands loose k) (moveLoop fuel) fun _ => Stands loose (moveRcvBuf k) := by
  induction fuel generalizing k with
  | zero => omega
  | succ fuel ih =>
      refine Stands.triple fun own kcp acks hk => ?_
      subst hk
      rw [moveLoop]
      refine (isEmpty_triple .rcvBuf).bind_eq _ ?_
      cases hbuf : own .rcvBuf with
      | nil =>
          simp only [decide_true, if_true]
          rw [moveRcvBuf_stop (by simp [blockOf, hbuf])]
          exact Triple.pure fun b hb => hb.stands
      | cons x rest =>
          have hx : x ∈ own .rcvBuf := by simp [hbuf]
          have hsplit : own .rcvBuf = [] ++ x :: rest := hbuf
          have hblock : (blockOf own kcp acks).rcvBuf = x.2 :: rest.map Prod.snd := by
            simp [blockOf, hbuf]
          simp only [reduceCtorEq, decide_false, Bool.false_eq_true, if_false]
          refine (next_head_triple .rcvBuf).bind_eq _ ?_
          rw [hbuf, front_cons]
          refine (entry_triple hx).bind_eq _ ?_
          refine getKcp_triple.bind_eq _ ?_
          refine Triple.ite (fun hmove => ?_) (fun hstop => ?_)
          · refine (del_triple hsplit).bind fun _ => ?_
            refine (setKcp_triple rfl).bind fun _ => ?_
            refine (addTail_triple .rcvQueue).bind fun _ => ?_
            refine (setKcp_triple rfl).bind fun _ => ?_
            rw [moveRcvBuf_cons hblock hmove]
            refine (ih ?_).pre fun b hb => ?_
            · simpa [hblock] using hfuel
            · have hstands := hb.stands
              rw [blockOf_update_rcvQueue, blockOf_update_rcvBuf] at hstands
              simpa [blockOf] using hstands
          · rw [moveRcvBuf_stop]
            · exact Triple.pure fun b hb => hb.stands
            · intro seg tail htail
              rw [hblock] at htail
              obtain ⟨rfl, -⟩ := List.cons.inj htail
              exact hstop

theorem moveAll_triple :
    Triple (Stands loose k) moveAll fun _ => Stands loose (moveRcvBuf k) := by
  refine Stands.triple fun own kcp acks hk => ?_
  subst hk
  refine walkFuel_triple.bind fun fuel => Triple.and fun hfuel => ?_
  refine (moveLoop_triple ?_).pre fun b hb => hb.stands
  simpa [blockOf] using hfuel .rcvBuf

theorem insertData_triple {x : Nat × IKCPSEG} {keep skip : List (Nat × IKCPSEG)}
    {repeated : Bool} (hown : own .rcvBuf = keep ++ skip)
    (hnone : repeated = true → insertFromTail x.2 ((own .rcvBuf).map Prod.snd).reverse = none)
    (hsome : repeated = false → insertFromTail x.2 ((own .rcvBuf).map Prod.snd).reverse =
      some ((skip.map Prod.snd).reverse ++ x.2 :: (keep.map Prod.snd).reverse)) :
    Triple (Holds own (x :: loose) kcp acks)
      (insertData (.node x.1) (back .rcvBuf keep) repeated) fun _ => Stands loose
        (match insertFromTail x.2 (blockOf own kcp acks).rcvBuf.reverse with
        | some rcvBuf => { blockOf own kcp acks with
            rcvBuf := rcvBuf.reverse, nrcvBuf := kcp.nrcvBuf + 1 }
        | none => blockOf own kcp acks) := by
  refine Triple.ite (fun hrep => ?_) (fun hrep => ?_)
  · have hinsert : insertFromTail x.2 (blockOf own kcp acks).rcvBuf.reverse = _ := hsome hrep
    refine init_triple.bind fun _ => (add_triple hown).bind fun _ => ?_
    refine (setKcp_triple rfl).post fun _ b hb => ?_
    have hstands := hb.stands
    rw [blockOf_update_rcvBuf] at hstands
    rw [hinsert]
    simpa [blockOf] using hstands
  · have hinsert : insertFromTail x.2 (blockOf own kcp acks).rcvBuf.reverse = none :=
      hnone (by simpa using hrep)
    refine delete_triple.post fun _ b hb => ?_
    rw [hinsert]
    exact hb.stands

theorem parseData_triple {a : Nat} {seg : IKCPSEG} :
    Triple (Stands ((a, seg) :: loose) k) (parseData (.node a)) fun _ =>
      Stands loose (ikcpParseData k seg) := by
  refine Stands.triple fun own kcp acks hk => ?_
  subst hk
  have hentry : (a, seg) ∈ (a, seg) :: loose := List.mem_cons_self
  refine (entry_loose_triple hentry).bind_eq _ ?_
  refine getKcp_triple.bind_eq _ ?_
  refine Triple.ite (fun hout => ?_) (fun hin => ?_)
  · refine delete_triple.post fun _ b hb => ?_
    have hsame : ikcpParseData (blockOf own kcp acks) seg = blockOf own kcp acks := if_pos hout
    rw [hsame]
    exact hb.stands
  · have hdata : ikcpParseData (blockOf own kcp acks) seg = _ := if_neg hin
    refine (prev_head_triple .rcvBuf).bind_eq _ ?_
    refine walkFuel_triple.bind fun fuel => Triple.and fun hfuel => ?_
    refine (dataLoop_triple seg (List.append_nil _).symm (hfuel .rcvBuf)).bind fun r => ?_
    refine Triple.and ?_
    rintro ⟨keep, skip, hown, hp, hnone, hsome⟩
    obtain ⟨p, repeated⟩ := r
    dsimp only at hp hnone hsome ⊢
    subst hp
    rw [hdata]
    exact (insertData_triple hown hnone hsome).bind fun _ => moveAll_triple

/-! ## Whole datagrams -/

theorem blockOf_updateAck (rtt : Int) :
    blockOf own (ikcpUpdateAck kcp rtt) acks = ikcpUpdateAck (blockOf own kcp acks) rtt := by
  unfold ikcpUpdateAck blockOf
  dsimp only
  split <;> rfl

theorem blockOf_inputCwnd (prevUna : UInt32) :
    blockOf own (inputCwnd kcp prevUna) acks = inputCwnd (blockOf own kcp acks) prevUna := by
  unfold inputCwnd growCwnd blockOf
  dsimp only
  split_ifs <;> rfl

theorem updateAck_mtu (rtt : Int) : (ikcpUpdateAck kcp rtt).mtu = kcp.mtu :=
  congrArg Config.mtu (ikcpUpdateAck_config kcp rtt)

theorem inputCwnd_mtu (prevUna : UInt32) : (inputCwnd kcp prevUna).mtu = kcp.mtu := by
  rw [inputCwnd_eq]

/-- The locals as the list model keeps them. -/
def Locals.of (st : InputState) : Locals where
  flag := st.flag
  maxack := st.maxack
  latestTs := st.latestTs

theorem segmentAck_triple {st : InputState} (h : SegHeader) :
    Triple (Stands loose st.kcp) (segmentAck (Locals.of st) h) fun l b =>
      l = Locals.of (inputAck st h) ∧ Stands loose (inputAck st h).kcp b := by
  have hrtt : Triple (Stands loose st.kcp) (updateRtt (itimediff st.kcp.current h.ts)) fun _ =>
      Stands loose (if itimediff st.kcp.current h.ts ≥ 0 then
        ikcpUpdateAck st.kcp (itimediff st.kcp.current h.ts) else st.kcp) := by
    unfold updateRtt
    split
    · exact Stands.setKcp (fun kcp => updateAck_mtu _) fun _ _ _ => blockOf_updateAck _
    · exact Triple.pure fun b hb => hb
  have hread : Triple (Stands loose st.kcp) getKcp fun kcp b =>
      kcp.current = st.kcp.current ∧ Stands loose st.kcp b := by
    refine Stands.triple fun own kcp acks hk => getKcp_triple.post ?_
    rintro _ b ⟨rfl, hb⟩
    rw [hk]
    exact ⟨rfl, hb.stands⟩
  refine hread.bind fun kcp => Triple.and fun hcurrent => ?_
  rw [hcurrent]
  refine hrtt.bind fun _ => (parseAck_triple h.sn).bind fun _ => shrinkBuf_triple.bind fun _ => ?_
  refine Triple.pure fun b hb => ?_
  unfold inputAck Locals.of
  split <;> exact ⟨rfl, hb⟩

theorem segmentPush_triple (h : SegHeader) (payload : Bytes) :
    Triple (Stands loose k) (segmentPush h payload) fun _ =>
      Stands loose (inputPush k h payload) := by
  refine Stands.triple fun own kcp acks hk => ?_
  subst hk
  refine getKcp_triple.bind_eq _ ?_
  refine Triple.ite (fun hin => ?_) (fun hout => ?_)
  · refine (ackPush_triple h.sn h.ts).bind fun _ => ?_
    have hpush : inputPush (blockOf own kcp acks) h payload = _ := if_pos hin
    refine Triple.ite (fun hge => ?_) (fun hlt => ?_)
    · refine (new_triple (receivedSegment h payload)).bind fun p => Triple.exists fun a => ?_
      refine Triple.and fun hp => ?_
      subst hp
      have hdata : inputPush (blockOf own kcp acks) h payload =
          ikcpParseData (blockOf own kcp (acks ++ [(h.sn, h.ts)])) (receivedSegment h payload) :=
        hpush.trans (if_pos hge)
      rw [hdata]
      exact parseData_triple.pre fun b hb => hb.stands
    · refine Triple.pure fun b hb => ?_
      have hold : inputPush (blockOf own kcp acks) h payload =
          blockOf own kcp (acks ++ [(h.sn, h.ts)]) := hpush.trans (if_neg hlt)
      rw [hold]
      exact hb.stands
  · refine Triple.pure fun b hb => ?_
    have hsame : inputPush (blockOf own kcp acks) h payload = blockOf own kcp acks := if_neg hout
    rw [hsame]
    exact hb.stands

theorem inputSegment_triple {st : InputState} (h : SegHeader) (payload : Bytes) :
    Triple (Stands loose st.kcp) (inputSegment (Locals.of st) h payload) fun l b =>
      l = Locals.of (Ikcp.inputSegment st h payload) ∧
        Stands loose (Ikcp.inputSegment st h payload).kcp b := by
  have hwnd : Triple (Stands loose st.kcp)
      (setKcp fun kcp => { kcp with rmtWnd := h.wnd.toUInt32 }) fun _ =>
        Stands loose { st.kcp with rmtWnd := h.wnd.toUInt32 } :=
    Stands.setKcp (fun _ => rfl) fun _ _ _ => rfl
  refine hwnd.bind fun _ => (parseUna_triple h.una).bind fun _ => shrinkBuf_triple.bind fun _ => ?_
  unfold Ikcp.inputSegment
  dsimp only
  split_ifs with hack hpush hwask
  · exact @segmentAck_triple loose { st with kcp := inputCommon st.kcp h } h
  · exact (segmentPush_triple h payload).bind fun _ => Triple.pure fun b hb => ⟨rfl, hb⟩
  · have hprobe : Triple (Stands loose (inputCommon st.kcp h))
        (setKcp fun kcp => { kcp with probe := kcp.probe ||| ikcpAskTell }) fun _ =>
          Stands loose { inputCommon st.kcp h with
            probe := (inputCommon st.kcp h).probe ||| ikcpAskTell } :=
      Stands.setKcp (fun _ => rfl) fun _ _ _ => rfl
    exact hprobe.bind fun _ => Triple.pure fun b hb => ⟨rfl, hb⟩
  · exact Triple.pure fun b hb => ⟨rfl, hb⟩

theorem inputLoop_triple {fuel : Nat} {st : InputState} (data : Bytes) :
    Triple (Stands loose st.kcp) (inputLoop fuel (Locals.of st) data) fun r b =>
      r = (Locals.of (Ikcp.inputLoop fuel st data).1, (Ikcp.inputLoop fuel st data).2) ∧
        Stands loose (Ikcp.inputLoop fuel st data).1.kcp b := by
  induction fuel generalizing st data with
  | zero => exact Triple.pure fun b hb => ⟨rfl, hb⟩
  | succ fuel ih =>
      unfold inputLoop Ikcp.inputLoop
      dsimp only
      refine Triple.ite (fun hshort => ?_) (fun hlong => ?_)
      · rw [if_pos hshort]
        exact Triple.pure fun b hb => ⟨rfl, hb⟩
      · rw [if_neg hlong]
        have hread : Triple (Stands loose st.kcp) getKcp fun kcp b =>
            kcp.conv = st.kcp.conv ∧ Stands loose st.kcp b := by
          refine Stands.triple fun own kcp acks hk => getKcp_triple.post ?_
          rintro _ b ⟨rfl, hb⟩
          rw [hk]
          exact ⟨rfl, hb.stands⟩
        refine hread.bind fun kcp => Triple.and fun hconv => ?_
        rw [hconv]
        split_ifs with hother hbad hcmd
        · exact Triple.pure fun b hb => ⟨rfl, hb⟩
        · exact Triple.pure fun b hb => ⟨rfl, hb⟩
        · refine (inputSegment_triple _ _).bind fun l => Triple.and fun hl => ?_
          rw [hl]
          exact ih _
        · exact Triple.pure fun b hb => ⟨rfl, hb⟩

theorem inputTail_triple (st : InputState) (prevUna : UInt32) :
    Triple (Stands loose st.kcp) (inputEnd (Locals.of st) prevUna none) fun r b =>
      r = 0 ∧ Stands loose (inputTail st prevUna) b := by
  have hcwnd : ∀ k, Triple (Stands loose k) (setKcp fun kcp => inputCwnd kcp prevUna) fun _ =>
      Stands loose (inputCwnd k prevUna) :=
    fun k => Stands.setKcp (fun kcp => inputCwnd_mtu _) fun _ _ _ => blockOf_inputCwnd _
  unfold inputEnd inputTail Locals.of
  dsimp only
  split_ifs
  · refine (parseFastack_triple st.maxack st.latestTs).bind fun _ => (hcwnd _).bind fun _ => ?_
    exact Triple.pure fun b hb => ⟨rfl, hb⟩
  · exact (hcwnd _).bind fun _ => Triple.pure fun b hb => ⟨rfl, hb⟩

/-- `ikcp_input` through the pointers: the value returned and the block left are
those of the list model. -/
theorem input_triple (data : Bytes) :
    Triple (Stands loose k) (input data) fun r b =>
      r = (ikcpInput k data).2 ∧ Stands loose (ikcpInput k data).1 b := by
  refine Stands.triple fun own kcp acks hk => getKcp_triple.bind_eq _ ?_
  have huna : kcp.sndUna = k.sndUna := by rw [hk]; rfl
  refine Triple.pre ?_ fun b (hb : Holds own loose kcp acks b) => hb.stands
  rw [← hk, huna]
  unfold ikcpInput
  refine Triple.ite (fun hshort => ?_) (fun hlong => ?_)
  · rw [if_pos hshort]
    exact Triple.pure fun b hb => ⟨rfl, hb⟩
  · rw [if_neg hlong]
    refine (@inputLoop_triple loose _ { kcp := k } data).bind fun r => Triple.and fun hr => ?_
    subst hr
    cases hloop : Ikcp.inputLoop data.length { kcp := k } data with
    | mk st code =>
        cases code with
        | none => exact inputTail_triple st k.sndUna
        | some code => exact Triple.pure fun b hb => ⟨rfl, hb⟩

end Walks

end UdpKcp.Memory
