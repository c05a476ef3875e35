import UdpKcp.Link.Invariant
import UdpKcp.Link.Halves
import UdpKcp.Plug.Representation

/-! # Flow control

What a sender may have opened and what its receiver has room for. `snd_una` is
behind `rcv_nxt` as long as the receive queue has room, so nothing in flight
fails the window test of `ikcp_input`. Only a full queue lets single
acknowledgements carry `snd_una` past `rcv_nxt`, by at most one window.
-/

namespace UdpKcp.Link

open ByteCodec (Bytes)
open Framing (Piece)
open Serial (Window offset)
open SelectiveRepeat (Fact Half Side)
open Ikcp Plug

/-! ## Blocks of a link are blocks of the plug -/

theorem Step.calls {s s' : State} (h : Step s s') (side : Side) :
    Relation.ReflGen Plug.Call (s.ep side).kcp (s'.ep side).kcp := by
  have hcases : ∀ {e : Endpoint} {caller : Side}, Plug.Call (s.ep caller).kcp e.kcp →
      Relation.ReflGen Plug.Call (s.ep side).kcp (Function.update s.ep caller e side).kcp := by
    intro e caller hcall
    by_cases hside : side = caller
    · subst hside
      rw [Function.update_self]
      exact .single hcall
    · rw [Function.update_of_ne hside]
  cases h with
  | send caller payload => exact hcases (Plug.Call.send _ payload)
  | update caller dlt => exact hcases (Plug.Call.update _ dlt)
  | recv caller input pending rest maxlen hnet =>
      exact hcases (Plug.Call.recv _ input (pending.map some) maxlen)
  | drop | duplicate => exact .refl

theorem Reachable.plug {conv : UInt32} {s : State} (h : Reachable conv s) (side : Side) :
    Plug.Reachable conv (s.ep side).kcp := by
  induction h with
  | refl => exact Relation.ReflTransGen.refl
  | tail _ hs ih => exact ih.trans (hs.calls side).to_reflTransGen

/-! ## Where snd_una stands -/

section Receiver

variable {conv : UInt32} {s : State} {said : Side → Set (Fact (Piece UInt8))}
  (hreach : Reachable conv s) (h : Inv (InFlight conv) conv s said) (side : Side)

include h

/-- What lies below `snd_una` was accepted. -/
theorem una_accepted {n : ℕ} (hn : n < (s.ep side).kcp.sndUna.toNat) :
    n < (s.ep side.other).kcp.rcvNxt.toNat ∨ n ∈ sns (s.ep side.other).kcp.rcvBuf := by
  have hsend := (h.tracked side).send
  have hhalf : Half ((s.ep side).peer (said side)) ((s.ep side.other).peer (said side.other)) :=
    h.peers side
  rcases hhalf.covered n (Nat.lt_of_lt_of_le hn hsend.una_le_nxt) with hpend | hacc
  · exact absurd (hsend.una_le hpend) (Nat.not_le.mpr hn)
  · exact (view_accepted (h.tracked side.other).recv.toRecvLoose).mp hacc

/-- With room in the queue the next number has not arrived. -/
theorem una_le_rcvNxt
    (hroom : (s.ep side.other).kcp.nrcvQue < (s.ep side.other).kcp.rcvWnd.toNat) :
    (s.ep side).kcp.sndUna.toNat ≤ (s.ep side.other).kcp.rcvNxt.toNat := by
  have hrecv := (h.tracked side.other).recv
  by_contra hpast
  rcases una_accepted h side (Nat.not_le.mp hpast) with hlt | hearly
  · exact Nat.lt_irrefl _ hlt
  · -- its segment heads the buffer, and only a full queue keeps it there
    cases hbuf : (s.ep side.other).kcp.rcvBuf with
    | nil =>
        rw [hbuf] at hearly
        cases hearly
    | cons seg segs =>
        have hhead : seg ∈ (s.ep side.other).kcp.rcvBuf.head? := by
          rw [hbuf]
          rfl
        have hascending := hrecv.ascending
        have hahead := hrecv.ahead seg.sn.toNat (mem_sns (List.mem_of_mem_head? hhead))
        rw [hbuf] at hearly hascending
        have hfirst : seg.sn = (s.ep side.other).kcp.rcvNxt := by
          rcases List.mem_cons.mp hearly with heq | htail
          · exact UInt32.toNat_inj.mp heq.symm
          · have habove := (ascending_cons.mp hascending).1 _ htail
            omega
        have hfull := hrecv.ready seg hhead hfirst
        rw [hrecv.wnd] at hroom
        omega

include hreach

/-- Full or not, single acknowledgements carry `snd_una` at most one window ahead. -/
theorem una_le_window :
    (s.ep side).kcp.sndUna.toNat ≤ (s.ep side.other).kcp.rcvNxt.toNat + plugWnd := by
  have hwindow := (ringed_of_reachable (hreach.plug side.other)).rcv.window
  have hnxt := (h.tracked side.other).recv.nxt_lt
  by_contra hpast
  rcases una_accepted h side (Nat.not_le.mp hpast) with hlt | hearly
  · omega
  · obtain ⟨seg, hseg, heq⟩ := List.mem_map.mp hearly
    have hinside := hwindow.inside seg.sn (mem_numbers hseg)
    rw [Serial.offset_eq] at hinside
    have hsn := seg.sn.toNat_lt
    unfold plugWnd at *
    unfold halfCircle at hnxt
    omega

end Receiver

/-! ## The window test -/

/-- How far a number that is not behind `rcv_nxt` may lie ahead of it: it passes the test
`_itimediff(sn, kcp->rcv_nxt + kcp->rcv_wnd) < 0` of `ikcp_input` while the receive queue
has room, and is less than a window past it otherwise. -/
structure Within (kcp : IKCPCB) (sn : UInt32) : Prop where
  room : itimediff sn kcp.rcvNxt ≥ 0 → kcp.nrcvQue < kcp.rcvWnd.toNat →
    itimediff sn (kcp.rcvNxt + kcp.rcvWnd) < 0
  full : itimediff sn kcp.rcvNxt ≥ 0 → itimediff sn (kcp.rcvNxt + kcp.rcvWnd) < kcp.rcvWnd.toNat

/-- An opened number lies no farther ahead of the receiver than `Within` says. -/
theorem within_of_opened {conv : UInt32} {s : State} {said : Side → Set (Fact (Piece UInt8))}
    (hreach : Reachable conv s) (h : Inv (InFlight conv) conv s said) (side : Side) {sn : UInt32}
    (hsn : sn.toNat < (s.ep side).kcp.sndNxt.toNat) : Within (s.ep side.other).kcp sn := by
  have hsend := (h.tracked side).send
  have hrecv := (h.tracked side.other).recv
  have hopen := hsend.window
  have hnxt := hrecv.nxt_lt
  have hlast := hsend.nxt_lt
  have hplug : plugWnd = 128 := rfl
  unfold halfCircle at hnxt hlast
  -- the end of the window, without wrap
  have hend : ((s.ep side.other).kcp.rcvNxt + (s.ep side.other).kcp.rcvWnd).toNat =
      (s.ep side.other).kcp.rcvNxt.toNat + (s.ep side.other).kcp.rcvWnd.toNat := by
    rw [UInt32.toNat_add, hrecv.wnd]
    omega
  have hahead : itimediff sn (s.ep side.other).kcp.rcvNxt =
      (sn.toNat : Int) - (s.ep side.other).kcp.rcvNxt.toNat :=
    Serial.diff_of_lt_half (by omega) hnxt
  have hdiff : itimediff sn (s.ep side.other).kcp.rcvNxt ≥ 0 →
      itimediff sn ((s.ep side.other).kcp.rcvNxt + (s.ep side.other).kcp.rcvWnd) =
        (sn.toNat : Int) -
          ((s.ep side.other).kcp.rcvNxt + (s.ep side.other).kcp.rcvWnd).toNat := by
    intro hnew
    rw [hahead] at hnew
    apply Serial.diff_of_near
    all_goals
      rw [hend, hrecv.wnd]
      omega
  constructor
  · intro hnew hroom
    have huna := una_le_rcvNxt h side hroom
    rw [hdiff hnew, hend, hrecv.wnd]
    omega
  · intro hnew
    have huna := una_le_window hreach h side
    rw [hdiff hnew, hend, hrecv.wnd]
    omega

/-- In every reachable state the segments that a side may still retransmit, and those it
has in flight, pass the window test of the other side while its receive queue has room,
and lie less than a window past it otherwise. -/
theorem pushes_within {conv : UInt32} {s : State} (h : Reachable conv s)
    (hfew : ∀ side, (s.ep side).sent < 2 ^ 31) (side : Side) :
    (∀ seg ∈ (s.ep side).kcp.sndBuf, Within (s.ep side.other).kcp seg.sn) ∧
    ∀ d ∈ s.net side, ∃ decoded, decodeDatagram d = some decoded ∧
      ∀ seg ∈ decoded, seg.1.cmd.toUInt32 = ikcpCmdPush →
        Within (s.ep side.other).kcp seg.1.sn := by
  obtain ⟨said, hinv⟩ := inv_of_reachable h hfew
  constructor
  · intro seg hseg
    exact within_of_opened h hinv side ((hinv.tracked side).send.below _ (mem_sns hseg))
  · intro d hd
    obtain ⟨segs, rfl, -, hhonest⟩ := hinv.flight side d hd
    refine ⟨_, decodeDatagram_segmentBytes fun seg hs =>
      (hhonest.acceptable seg hs).toEncodable, ?_⟩
    intro decoded hdecoded hpush
    obtain ⟨seg, hs, rfl⟩ := List.mem_map.mp hdecoded
    have hfacts := (hhonest.facts seg hs).header (hhonest.acceptable seg hs)
    have hhalf : Half ((s.ep side).peer (said side)) ((s.ep side.other).peer (said side.other)) :=
      hinv.peers side
    exact within_of_opened h hinv side (hhalf.data_said _ _ (hfacts.data hpush)).1

/-- The message of `oneMessage`, before it is received. -/
def oneFlight : State :=
  ((State.start 7).send .left [1, 2, 3]).update .left 0 |>.update .left 10

theorem pushes_within_oneFlight :
    (oneFlight.net .left).length = 1 ∧
    ∀ d ∈ oneFlight.net .left, ∃ decoded, decodeDatagram d = some decoded ∧
      ∀ seg ∈ decoded, seg.1.cmd.toUInt32 = ikcpCmdPush →
        Within (oneFlight.ep .right).kcp seg.1.sn := by
  have hreach : Reachable 7 oneFlight :=
    ((Relation.ReflTransGen.single (Step.send _ .left [1, 2, 3])).tail
      (Step.update _ .left 0)).tail (Step.update _ .left 10)
  have hfew : ∀ side, (oneFlight.ep side).sent < 2 ^ 31 := by
    intro side
    cases side <;> decide
  exact ⟨by decide, (pushes_within hreach hfew .left).2⟩

end UdpKcp.Link
