/-
# How the chat and its transport go on

While both peers are running, whatever the network has lost and however full the channels are,
there is a task that can go on.  Each step that hands something on, from the keyboard
to the screen of the other side, comes closer to the end, and none of them makes a user type,
loses a line or ends a chat.

Time passes only once, at the start: with one tick of each retransmission timer all that the
transport owes is under way, and then nothing has to wait for a clock.
-/

import P2PNetworking.Peer.EndToEnd

namespace P2PNetworking.Peer

open P2PNetworking.Lib
open P2PNetworking.Common (Side Link LinkAction Addresses linkMachine sideTrace
  sideTrace_map_mk sideTrace_map_mk_of_ne handedOver handedCount totalHanded submittedPayloads
  deliveredPayloads WithinLimits LinkInv linkInv_of_reachable HasSent Lossless NothingLost
  Unprompted Untimed Resends)

/-- The steps that hand on what is there, and read no other time than this: the peers send, confirm
and read, and the transport works and loses nothing. -/
def ServesAt (now : ℕ) : StackAction → Prop
  | .chat (.send _) | .chat (.confirm _) | .chat (.receive _) => True
  | .submit _ time => time = now
  | .link action => Untimed action ∨ Resends now action
  | .chat _ => False

/-! ## How far there is to go -/

/-- A payload that the search has still to send. -/
def Phase.toConfirm (phase : Phase) : ℕ := if phase = .chatting then 0 else 1

/-- How far the search is from the chat. -/
def Phase.toChat : Phase → ℕ
  | .searching => 5
  | .detected => 4
  | _ => 0

/-- What a side may have submitted in the end, if nobody types and nothing else is sent. -/
def Stack.budget (side : Side) (c : Stack × List StackEvent) : ℕ :=
  (submittedPayloads side (linkTrace c.2)).length + (c.1.packetRx side).length +
    (c.1.peers side).stdin.length + (c.1.peers side).phase.toConfirm

/-- How many packets of a side the other has been handed. -/
def handedAt (side : Side) (c : Stack × List StackEvent) : ℕ :=
  handedCount side (c.1.link, linkTrace c.2)

/-- How far a direction is from having been read to the end: what is to be sent, what is in the
channel to the transport, what the transport owes, and what is in the channel from it. -/
def Stack.load (side : Side) (c : Stack × List StackEvent) : ℕ :=
  4 * (c.1.peers side).stdin.length + (c.1.peers side).phase.toChat +
    3 * (c.1.packetRx side).length +
    2 * ((submittedPayloads side (linkTrace c.2)).length + 1 - handedAt side.peer c) +
    (c.1.outputRx side.peer).length

def Stack.totalLoad (c : Stack × List StackEvent) : ℕ := Stack.load .left c + Stack.load .right c

theorem totalLoad_lt {c d : Stack × List StackEvent}
    (hall : ∀ side, Stack.load side d ≤ Stack.load side c) {side : Side}
    (hside : Stack.load side d < Stack.load side c) : Stack.totalLoad d < Stack.totalLoad c := by
  have hleft := hall .left
  have hright := hall .right
  unfold Stack.totalLoad
  cases side <;> omega

/-- Both peers are running, and the lines and the numbers suffice for the transport. -/
structure Active (addr : Addresses) (c : Stack × List StackEvent) : Prop where
  reachable : (stackMachine addr).Reachable c
  running : ∀ side, Chat.Running (c.1.peers side).phase
  sizes : ∀ side, ∀ line ∈ typedBy side (seenTrace c.2), (utf8 line).length ≤ 6592
  budget : ∀ side, Stack.budget side c < 2 ^ 32 - 1

theorem Active.fits {addr : Addresses} {c : Stack × List StackEvent} (h : Active addr c) :
    Fits c.2 where
  sizes := h.sizes
  few side := by
    have hbudget := h.budget side
    unfold Stack.budget at hbudget
    omega

theorem Active.withinLimits {addr : Addresses} {c : Stack × List StackEvent}
    (h : Active addr c) : WithinLimits (linkTrace c.2) := h.fits.withinLimits h.reachable

/-- Both peers are running, it is this time, and nothing that has been sent is lost. -/
structure Supplied (addr : Addresses) (now : ℕ) (c : Stack × List StackEvent) : Prop
    extends Active addr c where
  clock : c.1.link.clock = now
  kept : ∀ side, NothingLost addr side (c.1.link, linkTrace c.2)

/-- Nobody has typed or punched, and who chats goes on. -/
structure Onward (c d : Stack × List StackEvent) : Prop where
  typed : ∀ side, typedBy side (seenTrace d.2) = typedBy side (seenTrace c.2)
  punches : ∀ side, (d.1.peers side).punches = (c.1.peers side).punches
  stdin : ∀ side, (d.1.peers side).stdin ⊆ (c.1.peers side).stdin
  chatting : ∀ side, (c.1.peers side).phase = .chatting → (d.1.peers side).phase = .chatting

theorem Onward.refl (c : Stack × List StackEvent) : Onward c c :=
  ⟨fun _ => rfl, fun _ => rfl, fun _ => List.Subset.refl _, fun _ => id⟩

theorem Onward.trans {c d e : Stack × List StackEvent} (hfirst : Onward c d)
    (hsecond : Onward d e) : Onward c e where
  typed side := (hsecond.typed side).trans (hfirst.typed side)
  punches side := (hsecond.punches side).trans (hfirst.punches side)
  stdin side := List.Subset.trans (hsecond.stdin side) (hfirst.stdin side)
  chatting side hside := hsecond.chatting side (hfirst.chatting side hside)

/-- A peer stays where it is or goes on. -/
structure GoesOn (peer next : ChatPeer) : Prop where
  running : Chat.Running peer.phase → Chat.Running next.phase
  punches : next.punches = peer.punches
  stdin : next.stdin ⊆ peer.stdin
  chatting : peer.phase = .chatting → next.phase = .chatting

theorem GoesOn.refl (peer : ChatPeer) : GoesOn peer peer :=
  ⟨id, rfl, List.Subset.refl _, id⟩

/-- There is less to do than there was. -/
structure Closer (addr : Addresses) (now : ℕ) (c d : Stack × List StackEvent) : Prop where
  supplied : Supplied addr now d
  onward : Onward c d
  less : Stack.totalLoad d < Stack.totalLoad c

/-- A step comes closer if it leaves no side more to do and one side less. -/
theorem Supplied.closer {addr : Addresses} {now : ℕ} {c d : Stack × List StackEvent}
    (h : Supplied addr now c) (hd : (stackMachine addr).Reachable d) (hclock : d.1.link.clock = now)
    (hkept : Active addr d → ∀ side, NothingLost addr side (d.1.link, linkTrace d.2))
    (htyped : ∀ side, typedBy side (seenTrace d.2) = typedBy side (seenTrace c.2))
    (hpeers : ∀ side, GoesOn (c.1.peers side) (d.1.peers side))
    (hbudget : ∀ side, Stack.budget side d ≤ Stack.budget side c)
    (hload : ∀ side, Stack.load side d ≤ Stack.load side c) {side : Side}
    (hless : Stack.load side d < Stack.load side c) : Closer addr now c d := by
  have hactive : Active addr d := by
    refine ⟨hd, fun other => (hpeers other).running (h.running other), fun other => ?_, ?_⟩
    · rw [htyped]
      exact h.sizes other
    · exact fun other => Nat.lt_of_le_of_lt (hbudget other) (h.budget other)
  have honward : Onward c d := ⟨htyped, fun other => (hpeers other).punches,
    fun other => (hpeers other).stdin, fun other => (hpeers other).chatting⟩
  exact ⟨⟨hactive, hclock, hkept hactive⟩, honward, totalLoad_lt hload hless⟩

/-! ## The transport goes on -/

/-- A step of the transport hands over one packet at most. -/
theorem handedOver_length_le {addr : Addresses} {link next : Link} {action : LinkAction}
    {new : List (Side × Common.Event)} (hstep : link.step addr action = some (next, new))
    (side : Side) : (handedOver (sideTrace side new)).length ≤ 1 := by
  have hside := Link.step_atSide hstep side
  cases hshare : action.atSide side with
  | none =>
      rw [hshare] at hside
      rw [hside.2]
      simp
  | some act =>
      rw [hshare] at hside
      have htransition := Common.Endpoint.transition_of_step hside
      generalize next.ends side = ep, sideTrace side new = events at htransition
      cases htransition <;> simp

/-- A side takes a step that the clock allows. -/
theorem step_atEnd {addr : Addresses} {link : Link} {side : Side} {action : Common.Action}
    {ep : Common.Endpoint} {events : List Common.Event} {clock : ℕ}
    (hclock : Link.clockAfter link.clock action = some clock)
    (hend : (link.ends side).step (addr.of side.peer) action = some (ep, events)) :
    link.step addr (.atEnd side action) =
      some (⟨Function.update link.ends side ep, link.inFlight ++ Link.wire addr side events, clock⟩,
        events.map (Prod.mk side)) := by
  simp [Link.step, Link.runEnd, hclock, hend]

theorem handedOver_map_mk {side : Side} {events : List Common.Event}
    (hevents : handedOver events = []) (other : Side) :
    handedOver (sideTrace other (events.map (Prod.mk side))) = [] := by
  rcases side.eq_or_eq_peer other with rfl | rfl
  · rw [sideTrace_map_mk, hevents]
  · rw [sideTrace_map_mk_of_ne side.peer_ne.symm]
    rfl

theorem isSubmit_of_unprompted {action : LinkAction} (h : Unprompted action) :
    isSubmit action = false := by
  cases action with
  | atEnd side act =>
      cases act with
      | submit => exact h.elim
      | _ => rfl
  | _ => rfl

/-- Only the transport has changed, and it has been asked for nothing. -/
structure Forwarded (c d : Stack × List StackEvent) : Prop where
  peers : d.1.peers = c.1.peers
  packetRx : d.1.packetRx = c.1.packetRx
  submitted : ∀ side,
    submittedPayloads side (linkTrace d.2) = submittedPayloads side (linkTrace c.2)
  seen : seenTrace d.2 = seenTrace c.2

theorem Forwarded.refl (c : Stack × List StackEvent) : Forwarded c c :=
  ⟨rfl, rfl, fun _ => rfl, rfl⟩

theorem Forwarded.trans {c d e : Stack × List StackEvent} (hfirst : Forwarded c d)
    (hsecond : Forwarded d e) : Forwarded c e where
  peers := hsecond.peers.trans hfirst.peers
  packetRx := hsecond.packetRx.trans hfirst.packetRx
  submitted side := (hsecond.submitted side).trans (hfirst.submitted side)
  seen := hsecond.seen.trans hfirst.seen

theorem Forwarded.onward {c d : Stack × List StackEvent} (h : Forwarded c d) : Onward c d where
  typed side := by rw [h.seen]
  punches side := by rw [h.peers]
  stdin side := by rw [h.peers]; exact List.Subset.refl _
  chatting side hchatting := by rw [h.peers, hchatting]

/-- No more payloads wait for the transport than the channel takes. -/
theorem packetRx_length_le {addr : Addresses} {c : Stack × List StackEvent}
    (hc : (stackMachine addr).Reachable c) (side : Side) :
    (c.1.packetRx side).length ≤ channelCapacity := by
  refine Machine.Reachable.induct (P := fun c : Stack × List StackEvent =>
    (c.1.packetRx side).length ≤ channelCapacity) (Nat.zero_le _) ?_ hc
  rintro ⟨stack, trace⟩ action d - h hstep
  obtain ⟨next, events, hnext, rfl⟩ := Machine.traced_step.mp hstep
  dsimp only at h hnext ⊢
  cases Stack.transition_of_step hnext with
  | chat _ _ hroom => exact hroom side
  | skip | read | link => exact h
  | @submit actor now payload rest link new hqueue =>
      by_cases hactor : side = actor
      · subst hactor
        rw [hqueue, List.length_cons] at h
        simpa using Nat.le_of_succ_le h
      · simpa [hactor] using h

/-- The side whose task takes the step. -/
def ChatAction.actor : ChatAction → Side
  | .punch side | .confirm side | .timeout side | .keepAlive side | .type side _ | .send side
  | .receive side => side

/-- A task that does not read leaves the other side alone. -/
theorem Chat.other_of_step {chat next : Chat} {action : ChatAction} {events : List ChatEvent}
    (hwrites : ∀ side, action ≠ .receive side) (hstep : chat.step action = some (next, events))
    {other : Side} (hother : other ≠ action.actor) :
    next.peers other = chat.peers other ∧ next.pipe other = chat.pipe other := by
  cases action with
  | receive side => exact absurd rfl (hwrites side)
  | send side =>
      dsimp only [ChatAction.actor] at hother
      simp only [Chat.step, Chat.send] at hstep
      split at hstep
      · split at hstep
        · cases hstep
          simp [Chat.enter, Chat.setPeer, Chat.push, hother]
        · split at hstep <;> cases hstep <;> simp [Chat.setPeer, Chat.push, hother]
      · cases hstep
  | punch side | confirm side | timeout side | keepAlive side | type side input =>
      dsimp only [ChatAction.actor] at hother
      simp only [Chat.step] at hstep
      split at hstep
      · cases hstep
        simp [Chat.enter, Chat.setPeer, Chat.push, hother]
      · cases hstep

namespace Active

variable {addr : Addresses} {c d : Stack × List StackEvent}

theorem forward (h : Active addr c) (hd : (stackMachine addr).Reachable d)
    (hforward : Forwarded c d) : Active addr d where
  reachable := hd
  running side := by rw [hforward.peers]; exact h.running side
  sizes side := by rw [hforward.seen]; exact h.sizes side
  budget side := by
    have hbudget := h.budget side
    unfold Stack.budget at hbudget ⊢
    rwa [hforward.peers, hforward.packetRx, hforward.submitted]

/-- The transport has not handed over more than there is. -/
theorem handedAt_le (h : Active addr c) (side : Side) :
    handedAt side.peer c ≤ (submittedPayloads side (linkTrace c.2)).length + 1 := by
  have hinv : LinkInv addr c.1.link (linkTrace c.2) :=
    linkInv_of_reachable ((linkComponent addr).reachable_view h.reachable) h.withinLimits
  have hle := (hinv.numbered side.peer).length_handed_le
  rwa [Side.peer_peer] at hle

/-- The transport can take a step if there is room for what it hands over. -/
theorem exists_link (h : Active addr c) {action : LinkAction} {link : Link}
    {new : List (Side × Common.Event)} (haction : Unprompted action)
    (hstep : c.1.link.step addr action = some (link, new))
    (hroom : ∀ side, handedOver (sideTrace side new) ≠ [] →
      (c.1.outputRx side).length < channelCapacity) :
    ∃ d, (stackMachine addr).step c (.link action) = some d ∧ Active addr d ∧
      Forwarded c d ∧ d.1.link = link ∧ linkTrace d.2 = linkTrace c.2 ++ new ∧
      (∀ side, d.1.outputRx side = c.1.outputRx side ++ handedOver (sideTrace side new)) ∧
      ∀ side, Stack.load side d + (handedOver (sideTrace side.peer new)).length =
        Stack.load side c := by
  have hquiet := isSubmit_of_unprompted haction
  have hfull : ∀ side ∈ [Side.left, Side.right], handedOver (sideTrace side new) ≠ [] →
      Chat.Running (c.1.peers side).phase →
      (c.1.outputRx side ++ handedOver (sideTrace side new)).length ≤ channelCapacity := by
    intro side _ hsome _
    have hone := handedOver_length_le hstep side
    have hless := hroom side hsome
    rw [List.length_append]
    omega
  let d : Stack × List StackEvent :=
    ({ c.1 with
        link := link
        outputRx := fun side => c.1.outputRx side ++ handedOver (sideTrace side new) },
      c.2 ++ new.map fun event => .link event.1 event.2)
  have hnext : (stackMachine addr).step c (.link action) = some d := by
    refine Machine.traced_step.mpr ⟨_, _, ?_, rfl⟩
    simp only [Stack.step, Stack.transport, hquiet, hstep]
    exact if_pos hfull
  have hforward : Forwarded c d :=
    ⟨rfl, rfl, fun side => by simp [d, submittedPayloads_quiet hquiet hstep side],
      by simp [d]⟩
  have hd := h.forward (h.reachable.step hnext) hforward
  have htrace : linkTrace d.2 = linkTrace c.2 ++ new := by simp [d]
  refine ⟨d, hnext, hd, hforward, rfl, htrace, fun _ => rfl, fun side => ?_⟩
  have hhanded : handedAt side.peer d =
      handedAt side.peer c + (handedOver (sideTrace side.peer new)).length := by
    simp [handedAt, handedCount, htrace]
  have hle := hd.handedAt_le side
  have houtput : (d.1.outputRx side.peer).length =
      (c.1.outputRx side.peer).length + (handedOver (sideTrace side.peer new)).length := by
    simp [d]
  rw [hhanded, hforward.submitted side] at hle
  unfold Stack.load
  rw [hhanded, hforward.submitted side, hforward.peers, hforward.packetRx, houtput]
  omega

theorem exists_mirror (h : Active addr c) : ∃ d, chatMachine.Reachable d ∧ Mirrors c d := by
  obtain ⟨d, hd, hmirrors⟩ := mirrors_of_reachable h.reachable
  exact ⟨d, hd, hmirrors h.withinLimits⟩

/-- What a side reads next is the first payload of the pipe to it. -/
theorem exists_head (h : Active addr c) {actor : Side} {packet : Common.Packet}
    {rest : List Common.Packet} {bytes : List UInt8}
    (houtput : c.1.outputRx actor = packet :: rest) (hpayload : packet.payload = some bytes) :
    ∃ d payload later, chatMachine.Reachable d ∧ d.2.map ChatEvent.seen = seenTrace c.2 ∧
      d.1.peers = c.1.peers ∧ d.1.pipe actor.peer = payload :: later ∧ payload.bytes = bytes := by
  obtain ⟨d, hd, hseen, ahead, hchat, hsubmitted⟩ := h.exists_mirror
  have hside := hsubmitted actor.peer
  rw [Side.peer_peer] at hside
  obtain ⟨payload, later, hahead, hbytes⟩ :=
    ahead_of_outputRx h.reachable h.withinLimits houtput hpayload hside
  refine ⟨d, payload, later ++ c.1.packetRx actor.peer, hd, hseen, ?_, ?_, hbytes⟩
  · rw [hchat]
    rfl
  · rw [hchat]
    simp [Chat.behind, Stack.outgoing, hahead]

/-- Nothing is handed over on the way. -/
theorem canReach_resend (h : Active addr c) {now : ℕ} {actions : List LinkAction}
    {e : Link × List (Side × Common.Event)} (hactions : ∀ action ∈ actions, Resends now action)
    (hexec : (linkMachine addr).exec (c.1.link, linkTrace c.2) actions = some e) :
    (stackMachine addr).CanReach (ServesAt now) c fun d =>
      Active addr d ∧ Forwarded c d ∧ (d.1.link, linkTrace d.2) = e := by
  induction actions generalizing c with
  | nil =>
      rw [Machine.exec_nil] at hexec
      cases hexec
      exact .here ⟨h, .refl c, rfl⟩
  | cons action actions ih =>
      rw [Machine.exec_cons, Option.bind_eq_some_iff] at hexec
      obtain ⟨middle, hstep, hrest⟩ := hexec
      obtain ⟨link, new, hlink, rfl⟩ := Machine.traced_step.mp hstep
      have haction := hactions action List.mem_cons_self
      have hnone := haction.handedOver_eq_nil hlink
      obtain ⟨d, hnext, hd, hforward, rfl, htrace, -, -⟩ :=
        h.exists_link haction.unprompted hlink fun side hsome => absurd (hnone side) hsome
      have hlater := ih hd (fun a ha => hactions a (List.mem_cons_of_mem _ ha)) (htrace ▸ hrest)
      have hserves : ServesAt now (.link action) := .inr haction
      refine .cons hserves hnext (hlater.mono fun f hf => ?_)
      exact ⟨hf.1, hforward.trans hf.2.1, hf.2.2⟩

/-- Once everything is overdue, one tick of each timer puts it under way. -/
theorem canReach_supplied (h : Active addr c) {now : ℕ}
    (hnow : c.1.link.clock + Common.Endpoint.retransmitTimeout < now) :
    (stackMachine addr).CanReach (ServesAt now) c fun d => Supplied addr now d ∧ Onward c d := by
  have hsent : HasSent addr (fun side => submittedPayloads side (linkTrace c.2))
      (c.1.link, linkTrace c.2) :=
    ⟨(linkComponent addr).reachable_view h.reachable, fun _ => rfl⟩
  obtain ⟨actions, e, hactions, hexec, hlossless, hclock⟩ :=
    hsent.canReach_lossless h.withinLimits hnow
  refine (h.canReach_resend hactions hexec).mono fun d hd => ?_
  obtain ⟨hactive, hforward, rfl⟩ := hd
  exact ⟨⟨hactive, hclock, hlossless.kept⟩, hforward.onward⟩

end Active

namespace Supplied

variable {addr : Addresses} {now : ℕ} {c d : Stack × List StackEvent}

/-- The transport takes a step that loses nothing and takes no time. -/
theorem exists_link (h : Supplied addr now c) {action : LinkAction} {link : Link}
    {new : List (Side × Common.Event)} (haction : Untimed action)
    (hstep : c.1.link.step addr action = some (link, new))
    (hroom : ∀ side, handedOver (sideTrace side new) ≠ [] →
      (c.1.outputRx side).length < channelCapacity) :
    ∃ d, (stackMachine addr).step c (.link action) = some d ∧ Supplied addr now d ∧
      Forwarded c d ∧ d.1.link = link ∧ linkTrace d.2 = linkTrace c.2 ++ new ∧
      (∀ side, d.1.outputRx side = c.1.outputRx side ++ handedOver (sideTrace side new)) ∧
      ∀ side, Stack.load side d + (handedOver (sideTrace side.peer new)).length =
        Stack.load side c := by
  obtain ⟨d, hnext, hd, hforward, hlink, htrace, hrest⟩ :=
    h.toActive.exists_link haction.unprompted hstep hroom
  have hview : (linkMachine addr).step (c.1.link, linkTrace c.2) action =
      some (d.1.link, linkTrace d.2) :=
    Machine.traced_step.mpr ⟨link, new, hstep, by rw [hlink, htrace]⟩
  refine ⟨d, hnext, ⟨hd, ?_, fun side => ?_⟩, hforward, hlink, htrace, hrest⟩
  · rw [hlink, haction.clock_eq hstep, h.clock]
  · exact (h.kept side).step ((linkComponent addr).reachable_view h.reachable) hd.withinLimits
      hview haction.unprompted.ne_lose

/-- What the transport owes is handed over one packet after the other. -/
theorem canReach_handOver (h : Supplied addr now c) {actions : List LinkAction}
    {e : Link × List (Side × Common.Event)} (hactions : ∀ action ∈ actions, Untimed action)
    (hexec : (linkMachine addr).exec (c.1.link, linkTrace c.2) actions = some e)
    (hmore : totalHanded (c.1.link, linkTrace c.2) < totalHanded e)
    (hroom : ∀ side, (c.1.outputRx side).length < channelCapacity) :
    (stackMachine addr).CanReach (ServesAt now) c (Closer addr now c) := by
  induction actions generalizing c with
  | nil =>
      rw [Machine.exec_nil] at hexec
      cases hexec
      exact absurd hmore (Nat.lt_irrefl _)
  | cons action actions ih =>
      rw [Machine.exec_cons, Option.bind_eq_some_iff] at hexec
      obtain ⟨middle, hstep, hrest⟩ := hexec
      obtain ⟨link, new, hlink, rfl⟩ := Machine.traced_step.mp hstep
      have haction := hactions action List.mem_cons_self
      have hserves : ServesAt now (.link action) := .inl haction
      obtain ⟨d, hnext, hd, hforward, rfl, htrace, houtput, hload⟩ :=
        h.exists_link haction hlink fun side _ => hroom side
      have hle : ∀ side, Stack.load side d ≤ Stack.load side c := fun side => by
        have := hload side
        omega
      by_cases hnone : ∀ side, handedOver (sideTrace side new) = []
      · have hsame : totalHanded (d.1.link, linkTrace d.2) =
            totalHanded (c.1.link, linkTrace c.2) := by
          simp [totalHanded, handedCount, htrace, hnone]
        have htotal : Stack.totalLoad d ≤ Stack.totalLoad c :=
          Nat.add_le_add (hle .left) (hle .right)
        have hlater := ih hd (fun a ha => hactions a (List.mem_cons_of_mem _ ha))
          (htrace ▸ hrest) (hsame ▸ hmore) fun side => by
            rw [houtput, hnone, List.append_nil]
            exact hroom side
        refine .cons hserves hnext (hlater.mono fun e he => ?_)
        exact ⟨he.supplied, hforward.onward.trans he.onward, Nat.lt_of_lt_of_le he.less htotal⟩
      · obtain ⟨side, hsome⟩ := not_forall.mp hnone
        have hless : Stack.load side.peer d < Stack.load side.peer c := by
          have hpeer := hload side.peer
          rw [Side.peer_peer] at hpeer
          have hpos := List.length_pos_iff.mpr hsome
          omega
        exact .one hserves hnext ⟨hd, hforward.onward, totalLoad_lt hle hless⟩

/-- `send` passes to the socket what it has taken. -/
theorem canReach_idle (h : Supplied addr now c) (actor : Side) :
    (stackMachine addr).CanReach (ServesAt now) c fun d =>
      Supplied addr now d ∧ Forwarded c d ∧ (d.1.link.ends actor).outgoing = [] ∧
        ∀ side, Stack.load side d = Stack.load side c := by
  induction hn : (c.1.link.ends actor).outgoing generalizing c with
  | nil => exact .here ⟨h, ⟨rfl, rfl, fun _ => rfl, rfl⟩, hn, fun _ => rfl⟩
  | cons packet rest ih =>
      have hpacket : (c.1.link.ends actor).outgoing[0]? = some packet := by rw [hn]; rfl
      obtain ⟨link, new, hlink, hends, hnone⟩ : ∃ link new,
          c.1.link.step addr (.atEnd actor (.transmit 0)) = some (link, new) ∧
            (link.ends actor).outgoing = rest ∧
            ∀ side, handedOver (sideTrace side new) = [] := by
        refine ⟨_, _, step_atEnd rfl (Common.Endpoint.step_transmit hpacket), ?_,
          handedOver_map_mk rfl⟩
        simp [hn]
      have haction : Untimed (.atEnd actor (.transmit 0)) := trivial
      obtain ⟨d, hnext, hd, hforward, rfl, -, -, hload⟩ :=
        h.exists_link haction hlink fun side hsome => absurd (hnone side) hsome
      have hsame : ∀ side, Stack.load side d = Stack.load side c := fun side => by
        have hside := hload side
        rwa [hnone, List.length_nil, Nat.add_zero] at hside
      have hserves : ServesAt now (.link (.atEnd actor (.transmit 0))) := .inl haction
      refine .cons hserves hnext ((ih hd hends).mono fun e he => ?_)
      obtain ⟨he, hlater, hidle, hload'⟩ := he
      exact ⟨he, hforward.trans hlater, hidle, fun side => (hload' side).trans (hsame side)⟩

/-- `send` takes the next payload. -/
theorem exists_submit (h : Supplied addr now c) {actor : Side} {payload : Payload}
    {rest : List Payload} (hidle : (c.1.link.ends actor).outgoing = [])
    (hqueue : c.1.packetRx actor = payload :: rest) :
    ∃ d, (stackMachine addr).step c (.submit actor now) = some d ∧ Closer addr now c d := by
  have hclock : Link.clockAfter c.1.link.clock (.submit now (.data payload.bytes)) = some now :=
    if_pos (Nat.le_of_eq h.clock)
  have hend : (c.1.link.ends actor).step (addr.of actor.peer)
      (.submit now (.data payload.bytes)) =
        some ((c.1.link.ends actor).send now (.data payload.bytes)) := by
    simp only [Common.Endpoint.step, hidle]
  obtain ⟨link, new, hlink, hnone, hnow⟩ : ∃ link new,
      c.1.link.step addr (.atEnd actor (.submit now (.data payload.bytes))) = some (link, new) ∧
        (∀ side, handedOver (sideTrace side new) = []) ∧ link.clock = now :=
    ⟨_, _, step_atEnd hclock hend, handedOver_map_mk rfl, rfl⟩
  have hsubmitted := submittedPayloads_submit hlink
  let d : Stack × List StackEvent :=
    (⟨link, c.1.peers, Function.update c.1.packetRx actor rest,
        fun side => c.1.outputRx side ++ handedOver (sideTrace side new)⟩,
      c.2 ++ new.map fun event => .link event.1 event.2)
  have hnext : (stackMachine addr).step c (.submit actor now) = some d := by
    refine Machine.traced_step.mpr ⟨_, _, ?_, rfl⟩
    simp only [Stack.step, Stack.submit, hqueue, Stack.transport, hlink]
    exact if_pos fun side _ hsome => absurd (hnone side) hsome
  have hqueues : ∀ side, (submittedPayloads side (linkTrace d.2)).length +
      (d.1.packetRx side).length = (submittedPayloads side (linkTrace c.2)).length +
        (c.1.packetRx side).length ∧
      (side = actor → (d.1.packetRx side).length < (c.1.packetRx side).length) ∧
      (side ≠ actor → (d.1.packetRx side).length = (c.1.packetRx side).length) := by
    intro side
    by_cases hside : side = actor
    · subst hside
      simp [d, hsubmitted, hqueue]
      omega
    · simp [d, hsubmitted, hside, Ne.symm hside]
  have hhanded : ∀ side, handedAt side d = handedAt side c := fun side => by
    simp [handedAt, handedCount, d, hnone]
  have houtput : ∀ side, d.1.outputRx side = c.1.outputRx side := fun side => by
    simp [d, hnone]
  have hle : ∀ side, Stack.load side d ≤ Stack.load side c ∧
      (side = actor → Stack.load side d < Stack.load side c) := by
    intro side
    obtain ⟨hsum, hless, hsame⟩ := hqueues side
    unfold Stack.load
    rw [hhanded, houtput]
    by_cases hside : side = actor
    · have := hless hside
      dsimp only [d] at this hsum ⊢
      omega
    · have := hsame hside
      dsimp only [d] at this hsum ⊢
      refine ⟨?_, fun heq => absurd heq hside⟩
      omega
  have hseen : seenTrace d.2 = seenTrace c.2 := by simp [d]
  have hbudget : ∀ side, Stack.budget side d ≤ Stack.budget side c := by
    intro side
    have hsum := (hqueues side).1
    unfold Stack.budget
    dsimp only [d] at hsum ⊢
    omega
  have hd := h.reachable.step hnext
  have hview : (linkMachine addr).step (c.1.link, linkTrace c.2)
      (.atEnd actor (.submit now (.data payload.bytes))) = some (d.1.link, linkTrace d.2) :=
    Machine.traced_step.mpr ⟨link, new, hlink, by simp [d]⟩
  refine ⟨d, hnext, h.closer hd hnow (fun hactive side => ?_) (fun _ => by rw [hseen])
    (fun _ => .refl _) hbudget (fun side => (hle side).1) ((hle actor).2 rfl)⟩
  exact (h.kept side).step ((linkComponent addr).reachable_view h.reachable) hactive.withinLimits
    hview (by simp)

/-! ## The peers go on -/

/-- A task of a peer sends something. -/
theorem exists_write (h : Supplied addr now c) (actor : Side) {action : ChatAction} {next : Chat}
    (hactor : action.actor = actor) (hwrites : ∀ side, action ≠ .receive side)
    (hstep : c.1.outgoing.step action = some (next, []))
    (hroom : (next.pipe actor).length ≤ channelCapacity)
    (hpeer : GoesOn (c.1.peers actor) (next.peers actor))
    (hbudget : (next.pipe actor).length + (next.peers actor).stdin.length +
        (next.peers actor).phase.toConfirm ≤
      (c.1.packetRx actor).length + (c.1.peers actor).stdin.length +
        (c.1.peers actor).phase.toConfirm)
    (hload : 4 * (next.peers actor).stdin.length + (next.peers actor).phase.toChat +
        3 * (next.pipe actor).length <
      4 * (c.1.peers actor).stdin.length + (c.1.peers actor).phase.toChat +
        3 * (c.1.packetRx actor).length) :
    ∃ d, (stackMachine addr).step c (.chat action) = some d ∧ Closer addr now c d := by
  have hothers : ∀ other, other ≠ actor →
      next.peers other = c.1.peers other ∧ next.pipe other = c.1.packetRx other :=
    fun _ hother => Chat.other_of_step hwrites hstep (hactor ▸ hother)
  let d : Stack × List StackEvent :=
    ({ c.1 with peers := next.peers, packetRx := next.pipe }, c.2)
  have hfull : ∀ other ∈ [Side.left, Side.right], (next.pipe other).length ≤ channelCapacity := by
    intro other _
    by_cases hother : other = actor
    · subst hother
      exact hroom
    · rw [(hothers other hother).2]
      exact packetRx_length_le h.reachable other
  have hnext : (stackMachine addr).step c (.chat action) = some d := by
    refine Machine.traced_step.mpr ⟨_, [], ?_, by rw [List.append_nil]⟩
    have hchat : c.1.step addr (.chat action) = c.1.chat action := by
      cases action with
      | receive reader => exact absurd rfl (hwrites reader)
      | _ => rfl
    rw [hchat, Stack.chat, hstep]
    exact if_pos hfull
  have hless : Stack.load actor d < Stack.load actor c := by
    have hhanded : handedAt actor.peer d = handedAt actor.peer c := rfl
    unfold Stack.load
    rw [hhanded]
    dsimp only [d]
    omega
  have hle : ∀ other, Stack.load other d ≤ Stack.load other c := by
    intro other
    by_cases hother : other = actor
    · exact hother ▸ Nat.le_of_lt hless
    · apply Nat.le_of_eq
      have hhanded : handedAt other.peer d = handedAt other.peer c := rfl
      unfold Stack.load
      rw [hhanded]
      dsimp only [d]
      rw [(hothers other hother).1, (hothers other hother).2]
  refine ⟨d, hnext, h.closer (h.reachable.step hnext) h.clock (fun _ => h.kept) (fun _ => rfl)
    (fun other => ?_) (fun other => ?_) hle hless⟩
  · by_cases hother : other = actor
    · exact hother ▸ hpeer
    · dsimp only [d]
      rw [(hothers other hother).1]
      exact .refl _
  · unfold Stack.budget
    by_cases hother : other = actor
    · subst hother
      dsimp only [d]
      omega
    · dsimp only [d]
      rw [(hothers other hother).1, (hothers other hother).2]

/-- The sender looks at a line. -/
theorem exists_send (h : Supplied addr now c) {actor : Side}
    (hchatting : (c.1.peers actor).phase = .chatting) {line : List Char}
    {rest : List (List Char)} (hstdin : (c.1.peers actor).stdin = line :: rest)
    (hline : line ≠ exitText) (hroom : (c.1.packetRx actor).length < channelCapacity) :
    ∃ d, (stackMachine addr).step c (.chat (.send actor)) = some d ∧ Closer addr now c d := by
  have hpeer : GoesOn (c.1.peers actor) { c.1.peers actor with stdin := rest } := by
    refine ⟨id, rfl, ?_, id⟩
    rw [hstdin]
    exact List.subset_cons_self _ _
  have hwrites : ∀ other, ChatAction.send actor ≠ .receive other := fun other heq => by cases heq
  by_cases hempty : line = []
  · subst hempty
    have hstep : c.1.outgoing.step (.send actor) =
        some (c.1.outgoing.setPeer actor { c.1.peers actor with stdin := rest }, []) := by
      simp [Chat.step, Chat.send, Stack.outgoing, hchatting, hstdin, hline]
    refine h.exists_write actor rfl hwrites hstep ?_ ?_ ?_ ?_
    · exact Nat.le_of_lt hroom
    · simpa [Chat.setPeer] using hpeer
    · simp [Chat.setPeer, Stack.outgoing, hstdin]
    · simp [Chat.setPeer, Stack.outgoing, hstdin]
  · have hstep : c.1.outgoing.step (.send actor) =
        some ((c.1.outgoing.setPeer actor { c.1.peers actor with stdin := rest }).push actor
          (.line line), []) := by
      simp [Chat.step, Chat.send, Stack.outgoing, hchatting, hstdin, hline, hempty]
    refine h.exists_write actor rfl hwrites hstep ?_ ?_ ?_ ?_
    · simpa [Chat.setPeer, Chat.push, Stack.outgoing] using Nat.succ_le_of_lt hroom
    · simpa [Chat.setPeer, Chat.push] using hpeer
    · simp [Chat.setPeer, Chat.push, Stack.outgoing, hstdin]
      omega
    · simp [Chat.setPeer, Chat.push, Stack.outgoing, hstdin]
      omega

/-- The search confirms. -/
theorem exists_confirm (h : Supplied addr now c) {actor : Side}
    (hdetected : (c.1.peers actor).phase = .detected)
    (hroom : (c.1.packetRx actor).length < channelCapacity) :
    ∃ d, (stackMachine addr).step c (.chat (.confirm actor)) = some d ∧ Closer addr now c d := by
  have hstep : c.1.outgoing.step (.confirm actor) =
      some ((c.1.outgoing.push actor (.control .connected)).enter actor .chatting, []) := by
    simp [Chat.step, Stack.outgoing, hdetected]
  have hwrites : ∀ other, ChatAction.confirm actor ≠ .receive other := fun other heq => by cases heq
  have hpeer : GoesOn (c.1.peers actor) { c.1.peers actor with phase := .chatting } :=
    ⟨fun _ => (by decide : Chat.Running .chatting), rfl, List.Subset.refl _, fun _ => rfl⟩
  refine h.exists_write actor rfl hwrites hstep ?_ ?_ ?_ ?_
  · simpa [Chat.push, Chat.enter, Chat.setPeer, Stack.outgoing] using Nat.succ_le_of_lt hroom
  · simpa [Chat.push, Chat.enter, Chat.setPeer, Stack.outgoing] using hpeer
  · simp [Chat.push, Chat.enter, Chat.setPeer, Stack.outgoing, hdetected, Phase.toConfirm]
    omega
  · simp [Chat.push, Chat.enter, Chat.setPeer, Stack.outgoing, hdetected, Phase.toChat]
    omega

/-- Something has been read, and a search may have come to its end. -/
theorem closer_of_read (h : Supplied addr now c) {action : StackAction} {actor : Side}
    (hstep : (stackMachine addr).step c action = some d) (hlink : d.1.link = c.1.link)
    (htrace : linkTrace d.2 = linkTrace c.2)
    (htyped : ∀ side, typedBy side (seenTrace d.2) = typedBy side (seenTrace c.2))
    (hqueue : d.1.packetRx = c.1.packetRx)
    (hkept : ∀ side, (d.1.peers side).stdin = (c.1.peers side).stdin ∧
      (d.1.peers side).punches = (c.1.peers side).punches)
    (hphase : ∀ side, (d.1.peers side).phase = (c.1.peers side).phase ∨
      (c.1.peers side).phase = .searching ∧ (d.1.peers side).phase = .detected)
    (houtput : ∀ side, (d.1.outputRx side).length ≤ (c.1.outputRx side).length)
    (hless : (d.1.outputRx actor).length < (c.1.outputRx actor).length) : Closer addr now c d := by
  have htoChat : ∀ side, (d.1.peers side).phase.toChat ≤ (c.1.peers side).phase.toChat := by
    intro side
    rcases hphase side with hsame | ⟨hbefore, hafter⟩
    · rw [hsame]
    · rw [hbefore, hafter]
      decide
  have htoConfirm : ∀ side,
      (d.1.peers side).phase.toConfirm = (c.1.peers side).phase.toConfirm := by
    intro side
    rcases hphase side with hsame | ⟨hbefore, hafter⟩
    · rw [hsame]
    · rw [hbefore, hafter]
      rfl
  have hhanded : ∀ side, handedAt side d = handedAt side c := fun side => by
    simp only [handedAt, hlink, htrace]
  have hle : ∀ side, Stack.load side d ≤ Stack.load side c := by
    intro side
    have := htoChat side
    have := houtput side.peer
    unfold Stack.load
    rw [hhanded, htrace, hqueue, (hkept side).1]
    omega
  have hstrict : Stack.load actor.peer d < Stack.load actor.peer c := by
    have := htoChat actor.peer
    unfold Stack.load
    rw [hhanded, htrace, hqueue, (hkept actor.peer).1, Side.peer_peer]
    omega
  have hclock : d.1.link.clock = now := hlink ▸ h.clock
  refine h.closer (h.reachable.step hstep) hclock ?_ htyped (fun side => ?_) (fun side => ?_) hle
    hstrict
  · rw [hlink, htrace]
    exact fun _ => h.kept
  · obtain ⟨hstdin, hpunches⟩ := hkept side
    refine ⟨fun hrunning => ?_, hpunches, hstdin ▸ List.Subset.refl _, fun hchatting => ?_⟩
    · rcases hphase side with hsame | ⟨-, hafter⟩
      · rwa [hsame]
      · rw [hafter]
        decide
    · rcases hphase side with hsame | ⟨hbefore, -⟩
      · rw [hsame, hchatting]
      · rw [hchatting] at hbefore
        cases hbefore
  · unfold Stack.budget
    rw [htrace, hqueue, (hkept side).1, htoConfirm]

/-- A peer that does not have to confirm reads what is in its channel. -/
theorem exists_receive (h : Supplied addr now c) {actor : Side}
    (hphase : (c.1.peers actor).phase ≠ .detected) {packet : Common.Packet}
    {rest : List Common.Packet} (houtput : c.1.outputRx actor = packet :: rest)
    (hstays : (c.1.peers actor).phase = .chatting →
      ∀ bytes, packet.payload = some bytes → reaction bytes ≠ .left) :
    ∃ d, (stackMachine addr).step c (.chat (.receive actor)) = some d ∧ Closer addr now c d := by
  have hrunning := h.running actor
  have hle : ∀ side,
      (Function.update c.1.outputRx actor rest side).length ≤ (c.1.outputRx side).length := by
    intro side
    by_cases hside : side = actor
    · subst hside
      simp [houtput]
    · simp [hside]
  have hless : (Function.update c.1.outputRx actor rest actor).length <
      (c.1.outputRx actor).length := by simp [houtput]
  cases hpayload : packet.payload with
  | none =>
      have hstep : (stackMachine addr).step c (.chat (.receive actor)) =
          some ({ c.1 with outputRx := Function.update c.1.outputRx actor rest }, c.2) := by
        refine Machine.traced_step.mpr ⟨_, [], ?_, by rw [List.append_nil]⟩
        simp only [Stack.step, Stack.receive, houtput, hpayload]
        cases hcurrent : (c.1.peers actor).phase with
        | searching | chatting => rfl
        | detected => exact absurd hcurrent hphase
        | failed => exact absurd hcurrent hrunning.1
        | closed => exact absurd hcurrent hrunning.2
      exact ⟨_, hstep, h.closer_of_read hstep rfl rfl (fun _ => rfl) rfl (fun _ => ⟨rfl, rfl⟩)
        (fun _ => .inl rfl) hle hless⟩
  | some bytes =>
      obtain ⟨phase, reading, hreceive, hafter⟩ : ∃ phase reading,
          c.1.receive actor = some (({ c.1 with
            outputRx := Function.update c.1.outputRx actor rest }).enter actor phase,
            [.seen (.read actor reading bytes)]) ∧
          (phase = (c.1.peers actor).phase ∨
            (c.1.peers actor).phase = .searching ∧ phase = .detected) := by
        cases hcurrent : (c.1.peers actor).phase with
        | searching =>
            refine ⟨if detects bytes then .detected else .searching, .passedOver, ?_, ?_⟩
            · simp only [Stack.receive, houtput, hpayload, hcurrent]
            · split
              · exact .inr ⟨rfl, rfl⟩
              · exact .inl rfl
        | chatting =>
            refine ⟨.chatting, reaction bytes, ?_, .inl rfl⟩
            simp only [Stack.receive, houtput, hpayload, hcurrent,
              if_neg (hstays hcurrent bytes hpayload)]
        | detected => exact absurd hcurrent hphase
        | failed => exact absurd hcurrent hrunning.1
        | closed => exact absurd hcurrent hrunning.2
      have hstep : (stackMachine addr).step c (.chat (.receive actor)) =
          some (({ c.1 with outputRx := Function.update c.1.outputRx actor rest }).enter actor
            phase, c.2 ++ [.seen (.read actor reading bytes)]) :=
        Machine.traced_step.mpr ⟨_, _, hreceive, rfl⟩
      refine ⟨_, hstep, h.closer_of_read hstep rfl ?_ (fun side => ?_) rfl (fun side => ?_)
        (fun side => ?_) hle hless⟩
      · simp
      · rw [seenTrace_append, typedBy_append]
        exact List.append_nil _
      · by_cases hside : side = actor <;> simp [Stack.enter, hside]
      · by_cases hside : side = actor
        · subst hside
          simpa [Stack.enter] using hafter
        · simp [Stack.enter, hside]

/-! ## All together -/

/-- A payload that waits for the transport is submitted once the transport is idle. -/
theorem canReach_submit (h : Supplied addr now c) {actor : Side}
    (hqueue : c.1.packetRx actor ≠ []) :
    (stackMachine addr).CanReach (ServesAt now) c (Closer addr now c) := by
  refine (h.canReach_idle actor).trans fun d hidle => ?_
  obtain ⟨hd, hforward, hidle, hload⟩ := hidle
  rw [← hforward.packetRx] at hqueue
  obtain ⟨payload, rest, hcons⟩ := List.exists_cons_of_ne_nil hqueue
  obtain ⟨e, hstep, he⟩ := hd.exists_submit hidle hcons
  have htotal : Stack.totalLoad d = Stack.totalLoad c := by
    unfold Stack.totalLoad
    rw [hload, hload]
  have haction : ServesAt now (.submit actor now) := rfl
  exact .one haction hstep ⟨he.supplied, hforward.onward.trans he.onward, htotal ▸ he.less⟩

/-- What the transport owes can come out, if the channels are empty. -/
theorem canReach_delivery (h : Supplied addr now c) (side : Side)
    (hempty : ∀ other, c.1.outputRx other = [])
    (howed : deliveredPayloads side.peer (linkTrace c.2) ≠ submittedPayloads side (linkTrace c.2)) :
    (stackMachine addr).CanReach (ServesAt now) c (Closer addr now c) := by
  have hlossless : Lossless addr (fun other => submittedPayloads other (linkTrace c.2))
      (c.1.link, linkTrace c.2) :=
    ⟨⟨(linkComponent addr).reachable_view h.reachable, fun _ => rfl⟩, h.withinLimits, h.kept⟩
  obtain ⟨hsome, hle⟩ := not_or.mp fun hall =>
    howed (hlossless.deliveredPayloads_eq h.withinLimits hall)
  obtain ⟨actions, e, hactions, hexec, hmore⟩ := hlossless.advances hsome (Nat.le_of_not_lt hle)
  refine h.canReach_handOver hactions hexec hmore fun other => ?_
  rw [hempty other]
  decide

/-- As long as something is in the channels of the peers, there is a way to go on. -/
theorem canReach_closer (h : Supplied addr now c)
    (hstays : ∀ actor packet rest bytes, (c.1.peers actor).phase = .chatting →
      c.1.outputRx actor = packet :: rest → packet.payload = some bytes → reaction bytes ≠ .left)
    (hbusy : ¬ ∀ actor, (c.1.peers actor).phase ≠ .detected ∧ c.1.outputRx actor = [] ∧
      c.1.packetRx actor = []) :
    (stackMachine addr).CanReach (ServesAt now) c (Closer addr now c) := by
  by_cases hread : ∃ actor, (c.1.peers actor).phase ≠ .detected ∧ c.1.outputRx actor ≠ []
  · obtain ⟨actor, hphase, hsome⟩ := hread
    obtain ⟨packet, rest, houtput⟩ := List.exists_cons_of_ne_nil hsome
    obtain ⟨d, hstep, hd⟩ := h.exists_receive hphase houtput fun hchatting bytes =>
      hstays actor packet rest bytes hchatting houtput
    exact .one (show ServesAt now (.chat (.receive actor)) from trivial) hstep hd
  by_cases hqueue : ∃ actor, c.1.packetRx actor ≠ []
  · obtain ⟨actor, hsome⟩ := hqueue
    exact h.canReach_submit hsome
  have hpacketRx : ∀ actor, c.1.packetRx actor = [] := by simpa using hqueue
  by_cases hdetected : ∃ actor, (c.1.peers actor).phase = .detected
  · obtain ⟨actor, hphase⟩ := hdetected
    have hroom : (c.1.packetRx actor).length < channelCapacity := by
      rw [hpacketRx actor]
      decide
    obtain ⟨d, hstep, hd⟩ := h.exists_confirm hphase hroom
    exact .one (show ServesAt now (.chat (.confirm actor)) from trivial) hstep hd
  refine absurd (fun actor => ?_) hbusy
  have hphase : (c.1.peers actor).phase ≠ .detected := fun hphase => hdetected ⟨actor, hphase⟩
  refine ⟨hphase, ?_, hpacketRx actor⟩
  by_contra hsome
  exact hread ⟨actor, hphase, hsome⟩

end Supplied

end P2PNetworking.Peer
