/-
# What is typed can arrive

While both peers chat, what has been typed on either side can still be displayed on the other,
whatever the network has lost: the transport sends everything again once it is overdue, the peers
go on until nothing is left, and since nobody has typed a control word neither of them leaves on
the way.
-/

import P2PNetworking.Peer.Progress

namespace P2PNetworking.Peer

open P2PNetworking.Lib
open P2PNetworking.Common (Side Addresses loopback)

/-- Both peers chat, neither is about to leave, and nobody has typed a control word. -/
structure Serving (addr : Addresses) (c : Stack × List StackEvent) : Prop where
  active : Active addr c
  chatting : ∀ side, (c.1.peers side).phase = .chatting
  staying : ∀ side, exitText ∉ (c.1.peers side).stdin
  words : ∀ side, ∀ line ∈ typedBy side (seenTrace c.2), ¬ IsControlWord line

namespace Serving

variable {addr : Addresses} {c d : Stack × List StackEvent}

theorem onward (h : Serving addr c) (hd : Active addr d) (honward : Onward c d) :
    Serving addr d where
  active := hd
  chatting side := honward.chatting side (h.chatting side)
  staying side hmem := h.staying side (honward.stdin side hmem)
  words side := by
    rw [honward.typed side]
    exact h.words side

/-- Neither peer leaves, since neither has said goodbye. -/
theorem stays (h : Serving addr c) {actor : Side} {packet : Common.Packet}
    {rest : List Common.Packet} {bytes : List UInt8}
    (houtput : c.1.outputRx actor = packet :: rest) (hpayload : packet.payload = some bytes) :
    reaction bytes ≠ .left := by
  obtain ⟨d, payload, later, hd, hseen, hpeers, hpipe, rfl⟩ :=
    h.active.exists_head houtput hpayload
  have hwords : ∀ line ∈ typedAt actor.peer d.2, ¬ IsControlWord line := by
    rw [← typedBy_map_seen, hseen]
    exact h.words actor.peer
  have hinv := inv_of_typed hd hwords
  have hhead : payload ∈ (d.1.direction actor.peer).pipe := by
    rw [Chat.direction, hpipe]
    exact List.mem_cons_self
  cases payload with
  | control word =>
      have hword : word ≠ .goodbye := by
        rintro rfl
        have hclosed : (d.1.peers actor.peer).phase = .closed := hinv.farewell hhead
        rw [hpeers] at hclosed
        exact (h.active.running actor.peer).2 hclosed
      simp [reaction_control, hword]
  | line text => simp [(reaction_line (hinv.piped text hhead)).1]

/-- As long as something is left on a side, there is a way to go on. -/
theorem canReach_closer (h : Serving addr c) {now : ℕ} (hsupplied : Supplied addr now c)
    {side : Side} (hleft : ¬ Settled side c) :
    (stackMachine addr).CanReach (ServesAt now) c (Closer addr now c) := by
  by_cases hidle : ∀ actor, (c.1.peers actor).phase ≠ .detected ∧ c.1.outputRx actor = [] ∧
      c.1.packetRx actor = []
  · cases hstdin : (c.1.peers side).stdin with
    | cons line rest =>
        have hline : line ≠ exitText := by
          rintro rfl
          exact h.staying side (hstdin ▸ List.mem_cons_self)
        have hroom : (c.1.packetRx side).length < channelCapacity := by
          rw [(hidle side).2.2]
          decide
        obtain ⟨d, hstep, hd⟩ := hsupplied.exists_send (h.chatting side) hstdin hline hroom
        exact .one (show ServesAt now (.chat (.send side)) from trivial) hstep hd
    | nil =>
        refine hsupplied.canReach_delivery side (fun other => (hidle other).2.1) ?_
        refine fun hdelivered => hleft ?_
        exact ⟨hstdin, (hidle side).2.2, (hidle side.peer).2.1, hdelivered⟩
  · exact hsupplied.canReach_closer (fun _ _ _ _ _ => h.stays) hidle

end Serving

/-- While both peers chat and nobody types a control word, all that has been typed on either side
can still come to be displayed on the other, as soon as what is lost may be sent again. -/
theorem canReach_allDisplayed {addr : Addresses} {c : Stack × List StackEvent}
    (h : Serving addr c) {now : ℕ}
    (hnow : c.1.link.clock + Common.Endpoint.retransmitTimeout < now) :
    (stackMachine addr).CanReach (ServesAt now) c fun d => ∀ side,
      typedBy side (seenTrace d.2) = typedBy side (seenTrace c.2) ∧
        displayedBy side.peer (seenTrace d.2) =
          (messages (typedBy side (seenTrace c.2))).map utf8 := by
  have hsettled : (stackMachine addr).CanReach (ServesAt now) c
      fun d => (∀ side, Settled side d) ∧ Serving addr d ∧ Onward c d := by
    refine (h.active.canReach_supplied hnow).trans fun b hb => ?_
    refine (Machine.CanReach.of_measure Stack.totalLoad
      (fun d (hd : Supplied addr now d ∧ Serving addr d ∧ Onward c d) hgoal => ?_)
      ⟨hb.1, h.onward hb.1.toActive hb.2, hb.2⟩)
    obtain ⟨hsupplied, hserving, honward⟩ := hd
    obtain ⟨side, hleft⟩ := not_forall.mp fun hall => hgoal ⟨hall, hserving, honward⟩
    refine (hserving.canReach_closer hsupplied hleft).mono fun e he => ?_
    exact ⟨⟨he.supplied, hserving.onward he.supplied.toActive he.onward,
      honward.trans he.onward⟩, he.less⟩
  refine hsettled.mono fun d hd side => ?_
  obtain ⟨hsettled, hserving, honward⟩ := hd
  rw [← honward.typed side]
  exact ⟨rfl, (hsettled side).displayedBy_eq hserving.active.reachable hserving.active.fits
    (hserving.words side)⟩

/-- The left side says "hi", and its confirmation is lost. -/
def interruption : List StackAction :=
  acquaintance ++ [.chat (.type .left ['h', 'i', '\n']), .chat (.send .left)] ++ putOut .left ++
    [.link (.lose (loopback.datagram .left ⟨⟨2, 1⟩, some (utf8 ControlWord.connected.text)⟩))]

theorem canReach_allDisplayed_interruption : ∃ c,
    (stackMachine loopback).exec (stackMachine loopback).init interruption = some c ∧
      c.1.link.inFlight = [] ∧ c.1.link.clock = 0 ∧ displayedBy .right (seenTrace c.2) = [] ∧
      (stackMachine loopback).CanReach (ServesAt 2000000001) c fun d =>
        displayedBy .right (seenTrace d.2) = [utf8 ['h', 'i']] := by
  obtain ⟨c, hexec, hflight, hclock, hnone, hleft, hright, hleftPeer, hrightPeer, hbudget⟩ :
      ∃ c ∈ (stackMachine loopback).exec (stackMachine loopback).init interruption,
        c.1.link.inFlight = [] ∧ c.1.link.clock = 0 ∧ displayedBy .right (seenTrace c.2) = [] ∧
          typedBy .left (seenTrace c.2) = [['h', 'i']] ∧ typedBy .right (seenTrace c.2) = [] ∧
          c.1.peers .left = ⟨.chatting, 5, []⟩ ∧ c.1.peers .right = ⟨.chatting, 6, []⟩ ∧
          Stack.budget .left c ≤ 9 ∧ Stack.budget .right c ≤ 9 := by decide +kernel
  have hserving : Serving loopback c := by
    refine ⟨⟨⟨interruption, hexec⟩, fun other => ?_, fun other => ?_, fun other => ?_⟩,
      fun other => ?_, fun other => ?_, fun other => ?_⟩
    · cases other with
      | left => exact hleftPeer ▸ (by decide : Chat.Running .chatting)
      | right => exact hrightPeer ▸ (by decide : Chat.Running .chatting)
    · cases other with
      | left => exact hleft ▸ (by decide)
      | right => exact hright ▸ (by decide)
    · cases other with
      | left => exact Nat.lt_of_le_of_lt hbudget.1 (by decide)
      | right => exact Nat.lt_of_le_of_lt hbudget.2 (by decide)
    · cases other with
      | left => rw [hleftPeer]
      | right => rw [hrightPeer]
    · cases other with
      | left => simp [hleftPeer]
      | right => simp [hrightPeer]
    · cases other with
      | left => exact hleft ▸ (by decide)
      | right => exact hright ▸ (by decide)
  have hnow : c.1.link.clock + Common.Endpoint.retransmitTimeout < 2000000001 := by
    rw [hclock]
    decide
  refine ⟨c, hexec, hflight, hclock, hnone,
    (canReach_allDisplayed hserving hnow).mono fun d hd => ?_⟩
  have hdisplayed : displayedBy .right (seenTrace d.2) = _ := (hd .left).2
  rw [hdisplayed, hleft]
  decide

end P2PNetworking.Peer
