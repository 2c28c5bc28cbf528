/-
# The peers can find each other

As long as neither side has given up or left, and what is lost may be sent again before a search
comes to its limit, both can come to chat, whatever the network has lost.  Before the chat a side
sends nothing but punches, so the first thing that a search reads is a sign of the other side; and
a side of which a search has read nothing either has something on its way, which the transport
sends again, or has not begun to punch.
-/

import P2PNetworking.Peer.Progress

namespace P2PNetworking.Peer

open P2PNetworking.Lib
open P2PNetworking.Common (Side Addresses loopback submittedPayloads deliveredPayloads
  Untimed Resends)

/-! ## Before the chat -/

/-- A side that does not chat after a step of a task that does not read has not chatted before it,
and has sent nothing but punches. -/
theorem Chat.out_of_step {chat next : Chat} {action : ChatAction} {events : List ChatEvent}
    {side : Side} (hwrites : ∀ actor, action ≠ .receive actor)
    (hstep : chat.step action = some (next, events))
    (hout : ¬ (next.peers side).phase.InChat) :
    ¬ (chat.peers side).phase.InChat ∧
      (next.pipe side).length + (next.peers side).punches =
        (chat.pipe side).length + (chat.peers side).punches ∧
      (next.peers side).stdin = (chat.peers side).stdin ∧
      ((next.peers side).phase = .searching → (chat.peers side).phase = .searching) := by
  by_cases hside : side = action.actor
  swap
  · obtain ⟨hpeer, hpipe⟩ := Chat.other_of_step hwrites hstep hside
    rw [hpeer] at hout ⊢
    rw [hpipe]
    exact ⟨hout, rfl, rfl, id⟩
  cases action with
  | receive actor => exact absurd rfl (hwrites actor)
  | punch actor =>
      obtain rfl : side = actor := hside
      simp only [Chat.step] at hstep
      split at hstep
      · cases hstep
        simp [Chat.setPeer, Chat.push] at hout ⊢
        exact ⟨hout, by omega⟩
      · cases hstep
  | confirm actor =>
      obtain rfl : side = actor := hside
      simp only [Chat.step] at hstep
      split at hstep <;> cases hstep
      simp [Chat.enter, Chat.setPeer, Chat.push, Phase.InChat] at hout
  | timeout actor =>
      obtain rfl : side = actor := hside
      simp only [Chat.step] at hstep
      split at hstep
      · next hphase =>
        cases hstep
        simp [Chat.enter, Chat.setPeer, hphase, Phase.InChat]
      · cases hstep
  | keepAlive actor =>
      obtain rfl : side = actor := hside
      simp only [Chat.step] at hstep
      split at hstep
      · next hphase =>
        cases hstep
        exact absurd (.inl hphase) hout
      · cases hstep
  | type actor input =>
      obtain rfl : side = actor := hside
      simp only [Chat.step] at hstep
      split at hstep
      · next hphase =>
        cases hstep
        simp [Chat.setPeer, hphase, Phase.InChat] at hout
      · cases hstep
  | send actor =>
      obtain rfl : side = actor := hside
      simp only [Chat.step, Chat.send] at hstep
      split at hstep
      · next line rest hphase hstdin =>
        split at hstep
        · cases hstep
          simp [Chat.enter, Chat.setPeer, Chat.push, Phase.InChat] at hout
        · split at hstep <;> cases hstep <;>
            simp [Chat.setPeer, Chat.push, hphase, Phase.InChat] at hout
      · cases hstep

/-- A search that is over is not taken up again. -/
theorem Chat.searching_of_step {chat next : Chat} {action : ChatAction} {events : List ChatEvent}
    {side : Side} (hwrites : ∀ actor, action ≠ .receive actor)
    (hstep : chat.step action = some (next, events))
    (hsearching : (next.peers side).phase = .searching) :
    (chat.peers side).phase = .searching := by
  refine (Chat.out_of_step hwrites hstep fun hin => ?_).2.2.2 hsearching
  rw [hsearching] at hin
  exact hin.elim nofun nofun

/-! ## What a search reads -/

/-- Reading neither starts nor ends the chat. -/
theorem Phase.Reads.inChat_iff {phase next : Phase} {payload : Payload} {reading : Reading}
    (h : phase.Reads payload next reading) : next.InChat ↔ phase.InChat := by
  cases h with
  | search => split <;> simp [Phase.InChat]
  | chat => split <;> simp [Phase.InChat]

/-- What a side sends to one that searches for it. -/
structure Chat.Sought (chat : Chat) (side : Side) : Prop where
  /-- Before the chat only the task that punches sends. -/
  punched : ¬ (chat.peers side).phase.InChat →
    ∀ payload ∈ chat.pipe side, payload = .control .holePunch
  /-- A search has read nothing, and what it will read first is a sign. -/
  sign : (chat.peers side.peer).phase = .searching →
    chat.pipe side = [] ∧ (chat.peers side).punches = 6 ∧ ¬ (chat.peers side).phase.InChat ∨
      ∃ payload rest, chat.pipe side = payload :: rest ∧ detects payload.bytes = true

namespace Chat.Sought

variable {chat next : Chat} {side : Side} {events : List ChatEvent}

theorem new : Chat.new.Sought side :=
  ⟨fun _ _ hmem => absurd hmem List.not_mem_nil,
    fun _ => .inl ⟨rfl, rfl, by simp [Chat.new, Phase.InChat]⟩⟩

/-- The side sends something: before the chat a punch, and first a sign. -/
theorem say (h : chat.Sought side) (payload : Payload)
    (hpipe : next.pipe side = chat.pipe side ++ [payload])
    (hpeer : next.peers side.peer = chat.peers side.peer)
    (hphase : ¬ (next.peers side).phase.InChat →
      payload = .control .holePunch ∧ ¬ (chat.peers side).phase.InChat)
    (hsign : ¬ (chat.peers side).phase.InChat → detects payload.bytes = true) :
    next.Sought side where
  punched hout other hmem := by
    obtain ⟨hpayload, hbefore⟩ := hphase hout
    rw [hpipe] at hmem
    rcases List.mem_append.mp hmem with hold | hlast
    · exact h.punched hbefore other hold
    · exact (List.mem_singleton.mp hlast).trans hpayload
  sign hsearching := by
    rw [hpeer] at hsearching
    rw [hpipe]
    rcases h.sign hsearching with ⟨hnone, -, hout⟩ | ⟨first, rest, hfirst, hdetects⟩
    · exact .inr ⟨payload, [], by rw [hnone, List.nil_append], hsign hout⟩
    · exact .inr ⟨first, rest ++ [payload], by rw [hfirst, List.cons_append], hdetects⟩

/-- Nothing is sent by the side or read from it. -/
theorem stay (h : chat.Sought side) (hpipe : next.pipe side = chat.pipe side)
    (hpunches : (next.peers side).punches = (chat.peers side).punches)
    (hphase : (next.peers side).phase.InChat ↔ (chat.peers side).phase.InChat)
    (hpeer : (next.peers side.peer).phase = .searching →
      (chat.peers side.peer).phase = .searching) : next.Sought side where
  punched hout := by
    rw [hphase] at hout
    rw [hpipe]
    exact h.punched hout
  sign hsearching := by
    rw [hpipe, hpunches, hphase]
    exact h.sign (hpeer hsearching)

/-- The other side reads: if it searched, it has come upon a sign. -/
theorem read (h : chat.Sought side) {payload : Payload} {rest : List Payload} (reading : Reading)
    (hpipe : chat.pipe side = payload :: rest) (hrest : next.pipe side = rest)
    (hside : next.peers side = chat.peers side)
    (hreads : (chat.peers side.peer).phase.Reads payload (next.peers side.peer).phase reading) :
    next.Sought side where
  punched hout other hmem := by
    rw [hside] at hout
    rw [hrest] at hmem
    exact h.punched hout other (hpipe ▸ List.mem_cons_of_mem _ hmem)
  sign hsearching := by
    rw [hsearching] at hreads
    generalize hphase : (chat.peers side.peer).phase = phase at hreads
    generalize hnext : Phase.searching = after at hreads
    cases hreads with
    | search =>
        rcases h.sign hphase with ⟨hnone, -⟩ | ⟨first, later, hfirst, hdetects⟩
        · rw [hnone] at hpipe
          cases hpipe
        · obtain ⟨rfl, rfl⟩ := List.cons.inj (hfirst.symm.trans hpipe)
          rw [if_pos hdetects] at hnext
          cases hnext
    | chat =>
        split at hnext <;> cases hnext

theorem receive (h : chat.Sought side) {actor : Side}
    (hstep : chat.receive actor = some (next, events)) : next.Sought side := by
  obtain ⟨payload, rest, phase, reading, hpipe, hreads, rfl, -⟩ := Chat.receive_cases hstep
  have hne : side ≠ side.peer := (Side.peer_ne side).symm
  rcases Side.eq_or_eq_peer side actor with rfl | rfl
  · apply h.stay
    · simp [Chat.enter, Chat.setPeer, Chat.pop, hne]
    · simp [Chat.enter, Chat.setPeer, Chat.pop]
    · simpa [Chat.enter, Chat.setPeer, Chat.pop] using hreads.inChat_iff
    · simp [Chat.enter, Chat.setPeer, Chat.pop, hne.symm]
  · rw [Side.peer_peer] at hpipe
    apply h.read reading hpipe
    · simp [Chat.enter, Chat.setPeer, Chat.pop]
    · simp [Chat.enter, Chat.setPeer, Chat.pop, hne]
    · simpa [Chat.enter, Chat.setPeer, Chat.pop] using hreads

theorem step (h : chat.Sought side) {action : ChatAction}
    (hstep : chat.step action = some (next, events)) : next.Sought side := by
  by_cases hreads : ∃ actor, action = .receive actor
  · obtain ⟨actor, rfl⟩ := hreads
    exact h.receive hstep
  have hwrites : ∀ actor, action ≠ .receive actor := not_exists.mp hreads
  by_cases hside : side = action.actor
  swap
  · obtain ⟨hpeer, hpipe⟩ := Chat.other_of_step hwrites hstep hside
    apply h.stay hpipe
    · rw [hpeer]
    · rw [hpeer]
    · exact Chat.searching_of_step hwrites hstep
  have hne : side.peer ≠ action.actor := hside ▸ Side.peer_ne side
  have hpeer := (Chat.other_of_step hwrites hstep hne).1
  cases action with
  | receive actor => exact absurd rfl (hwrites actor)
  | punch actor =>
      obtain rfl : side = actor := hside
      simp only [Chat.step] at hstep
      split at hstep
      · cases hstep
        apply h.say (.control .holePunch) _ hpeer
        · simp [Chat.setPeer, Chat.push]
        · exact fun _ => by decide
        · simp [Chat.setPeer, Chat.push]
      · cases hstep
  | confirm actor =>
      obtain rfl : side = actor := hside
      simp only [Chat.step] at hstep
      split at hstep
      · cases hstep
        apply h.say (.control .connected) _ hpeer
        · simp [Chat.enter, Chat.setPeer, Chat.push, Phase.InChat]
        · exact fun _ => by decide
        · simp [Chat.enter, Chat.setPeer, Chat.push]
      · cases hstep
  | timeout actor =>
      obtain rfl : side = actor := hside
      simp only [Chat.step] at hstep
      split at hstep
      · next hphase =>
        cases hstep
        apply h.stay <;> simp [Chat.enter, Chat.setPeer, Phase.InChat, hphase, Side.peer_ne]
      · cases hstep
  | keepAlive actor =>
      obtain rfl : side = actor := hside
      simp only [Chat.step] at hstep
      split at hstep
      · next hphase =>
        cases hstep
        have hchat : (chat.peers side).phase.InChat := .inl hphase
        apply h.say (.control .keepAlive) _ hpeer
        · exact fun hout => absurd hchat hout
        · exact fun hout => absurd hchat hout
        · simp [Chat.push]
      · cases hstep
  | type actor input =>
      obtain rfl : side = actor := hside
      simp only [Chat.step] at hstep
      split at hstep
      · cases hstep
        apply h.stay <;> simp [Chat.setPeer, Side.peer_ne]
      · cases hstep
  | send actor =>
      obtain rfl : side = actor := hside
      simp only [Chat.step, Chat.send] at hstep
      split at hstep
      · next line rest hphase hstdin =>
        have hchat : (chat.peers side).phase.InChat := .inl hphase
        split at hstep
        · cases hstep
          apply h.say (.control .goodbye) _ hpeer
          · simp [Chat.enter, Chat.setPeer, Chat.push, Phase.InChat]
          · exact fun hout => absurd hchat hout
          · simp [Chat.enter, Chat.setPeer, Chat.push]
        · split at hstep
          · cases hstep
            apply h.say (.line line) _ hpeer
            · simp [Chat.setPeer, Chat.push, hchat]
            · exact fun hout => absurd hchat hout
            · simp [Chat.setPeer, Chat.push]
          · cases hstep
            apply h.stay <;> simp [Chat.setPeer, Side.peer_ne]
      · cases hstep

end Chat.Sought

theorem sought_of_reachable {d : Chat × List ChatEvent} (hd : chatMachine.Reachable d)
    (side : Side) : d.1.Sought side := by
  refine Machine.Reachable.induct (P := fun d : Chat × List ChatEvent => d.1.Sought side)
    .new ?_ hd
  rintro ⟨chat, trace⟩ action d - h hstep
  obtain ⟨next, events, hnext, rfl⟩ := Machine.traced_step.mp hstep
  exact h.step hnext

/-! ## The system before the chat -/

/-- A search that reads does not come to chat by that, and one that is still on was on before. -/
theorem Stack.peers_of_receive {stack next : Stack} {actor : Side} {events : List StackEvent}
    (hstep : stack.receive actor = some (next, events)) (side : Side) :
    ((next.peers side).phase.InChat ↔ (stack.peers side).phase.InChat) ∧
      ((next.peers side).phase = .searching → (stack.peers side).phase = .searching) ∧
      (next.peers side).punches = (stack.peers side).punches ∧
      (next.peers side).stdin = (stack.peers side).stdin := by
  unfold Stack.receive at hstep
  split at hstep
  · cases hstep
  · dsimp only at hstep
    by_cases hside : side = actor
    · subst hside
      split at hstep
      · cases hstep
        simp
      · cases hstep
        simp
      · next bytes hphase _ =>
        cases hstep
        cases detects bytes <;> simp [Stack.enter, hphase, Phase.InChat]
      · next bytes hphase _ =>
        cases hstep
        by_cases hleft : reaction bytes = .left <;>
          simp [Stack.enter, hphase, hleft, Phase.InChat]
      · cases hstep
      · cases hstep
      · cases hstep
    · split at hstep <;> cases hstep <;> simp [Stack.enter, hside]

/-- A search that is over is not taken up again. -/
theorem Stack.searching_of_step {addr : Addresses} {stack next : Stack} {action : StackAction}
    {events : List StackEvent} (hstep : stack.step addr action = some (next, events)) {side : Side}
    (hsearching : (next.peers side).phase = .searching) :
    (stack.peers side).phase = .searching := by
  cases Stack.transition_of_step hstep with
  | chat hwrites hchat => exact Chat.searching_of_step hwrites hchat hsearching
  | skip | submit | link => exact hsearching
  | @read actor =>
      have hreceive : stack.receive actor = _ := hstep
      exact (Stack.peers_of_receive hreceive side).2.1 hsearching

/-- A side that has nothing to do with the chat yet has sent nothing but some of its punches. -/
structure BeforeChat (side : Side) (c : Stack × List StackEvent) : Prop where
  sent : (submittedPayloads side (linkTrace c.2)).length + (c.1.packetRx side).length +
    (c.1.peers side).punches = 6
  stdin : (c.1.peers side).stdin = []

theorem beforeChat_of_reachable {addr : Addresses} {c : Stack × List StackEvent}
    (hc : (stackMachine addr).Reachable c) {side : Side}
    (hout : ¬ (c.1.peers side).phase.InChat) : BeforeChat side c := by
  refine Machine.Reachable.induct (P := fun c : Stack × List StackEvent =>
    ¬ (c.1.peers side).phase.InChat → BeforeChat side c) (fun _ => ⟨rfl, rfl⟩) ?_ hc hout
  rintro ⟨stack, trace⟩ action d - h hstep hout
  obtain ⟨next, events, hnext, rfl⟩ := Machine.traced_step.mp hstep
  cases Stack.transition_of_step hnext with
  | chat hwrites hchat =>
      obtain ⟨hbefore, hsent, hstdin, -⟩ := Chat.out_of_step hwrites hchat hout
      obtain ⟨hsix, hnone⟩ := h hbefore
      refine ⟨?_, hstdin.trans hnone⟩
      rw [linkTrace_append, linkTrace_map_seen, List.append_nil]
      dsimp only [Stack.outgoing] at hsent hsix ⊢
      omega
  | skip =>
      rw [List.append_nil]
      exact ⟨(h hout).sent, (h hout).stdin⟩
  | @read actor =>
      have hreceive : stack.receive actor = _ := hnext
      obtain ⟨hchat, -, hpunches, hstdin⟩ := Stack.peers_of_receive hreceive side
      obtain ⟨hsix, hnone⟩ := h (hchat.not.mp hout)
      refine ⟨?_, hstdin.trans hnone⟩
      rw [linkTrace_append, linkTrace_seen, List.append_nil, hpunches]
      exact hsix
  | @submit actor _ payload rest _ _ hqueue hlink =>
      obtain ⟨hsix, hnone⟩ := h hout
      refine ⟨?_, hnone⟩
      dsimp only at hsix ⊢
      rw [linkTrace_append, linkTrace_map_link, submittedPayloads_append,
        submittedPayloads_submit hlink]
      by_cases hside : actor = side
      · subst hside
        rw [hqueue, List.length_cons] at hsix
        simp
        omega
      · simpa [hside, Ne.symm hside] using hsix
  | link hsubmit hlink =>
      obtain ⟨hsix, hnone⟩ := h hout
      refine ⟨?_, hnone⟩
      rw [linkTrace_append, linkTrace_map_link, submittedPayloads_append,
        submittedPayloads_quiet hsubmit hlink, List.append_nil]
      exact hsix

/-- The side has begun to punch, or is past that. -/
def Begun (side : Side) (c : Stack × List StackEvent) : Prop :=
  (c.1.peers side).punches < 6 ∨ (c.1.peers side).phase.InChat

theorem Onward.begun {c d : Stack × List StackEvent} (h : Onward c d)
    (hrunning : ∀ side, Chat.Running (c.1.peers side).phase) {side : Side}
    (hbegun : Begun side c) : Begun side d := by
  rcases hbegun with hpunches | hchat
  · exact .inl (by rwa [h.punches side])
  · exact .inr (.inl (h.chatting side (hchat.resolve_right (hrunning side).2)))

/-! ## They meet -/

/-- What a peer does for the two to meet. -/
def MeetsAt (now : ℕ) (action : StackAction) : Prop :=
  ServesAt now action ∨ ∃ side, action = .chat (.punch side)

namespace Active

variable {addr : Addresses} {now : ℕ} {c : Stack × List StackEvent}

/-- A side that has not begun to punch can do so. -/
theorem canReach_begun (h : Active addr c) (side : Side) :
    (stackMachine addr).CanReach (MeetsAt now) c fun d =>
      Active addr d ∧ d.1.link = c.1.link ∧ Begun side d ∧
        ∀ other, Begun other c → Begun other d := by
  by_cases hbegun : Begun side c
  · exact .here ⟨h, rfl, hbegun, fun _ => id⟩
  obtain ⟨hsix, hout⟩ := not_or.mp hbegun
  obtain ⟨hsent, hstdin⟩ := beforeChat_of_reachable h.reachable hout
  let next : Chat := (c.1.outgoing.setPeer side { c.1.peers side with
    punches := (c.1.peers side).punches - 1 }).push side (.control .holePunch)
  have hchat : c.1.outgoing.step (.punch side) = some (next, []) := by
    simp only [Chat.step]
    exact if_pos ⟨h.running side, by dsimp only [Stack.outgoing]; omega⟩
  let d : Stack × List StackEvent :=
    ({ c.1 with peers := next.peers, packetRx := next.pipe }, c.2)
  have hfull : ∀ other ∈ [Side.left, Side.right], (next.pipe other).length ≤ channelCapacity := by
    intro other _
    by_cases hother : other = side
    · subst hother
      simp [next, Chat.push, Chat.setPeer, Stack.outgoing, channelCapacity]
      omega
    · simpa [next, Chat.push, Chat.setPeer, Stack.outgoing, hother] using
        packetRx_length_le h.reachable other
  have hstep : (stackMachine addr).step c (.chat (.punch side)) = some d := by
    refine Machine.traced_step.mpr ⟨_, [], ?_, by rw [List.append_nil]⟩
    simp only [Stack.step, Stack.chat, hchat]
    exact if_pos hfull
  have hd := h.reachable.step hstep
  have hphase : ∀ other, (d.1.peers other).phase = (c.1.peers other).phase := by
    intro other
    by_cases hother : other = side <;>
      simp [d, next, Chat.push, Chat.setPeer, Stack.outgoing, hother]
  have hactive : Active addr d := by
    refine ⟨hd, fun other => ?_, h.sizes, fun other => ?_⟩
    · rw [hphase]
      exact h.running other
    · by_cases hother : other = side
      · subst hother
        obtain ⟨hsent', hstdin'⟩ := beforeChat_of_reachable hd (by rwa [hphase])
        unfold Stack.budget Phase.toConfirm
        rw [hstdin', List.length_nil]
        split <;> omega
      · have hold := h.budget other
        unfold Stack.budget at hold ⊢
        simpa [d, next, Chat.push, Chat.setPeer, Stack.outgoing, hother] using hold
  refine .one (.inr ⟨side, rfl⟩) hstep ⟨hactive, rfl, ?_, fun other hbefore => ?_⟩
  · refine .inl ?_
    simp [d, next, Chat.push, Chat.setPeer]
    omega
  · have hother : other ≠ side := fun heq => hbegun (heq ▸ hbefore)
    simpa [Begun, d, next, Chat.push, Chat.setPeer, Stack.outgoing, hother] using hbefore

/-- A side that has not started the chat does not make the other leave. -/
theorem stays (h : Active addr c) {actor : Side} {packet : Common.Packet}
    {rest : List Common.Packet} {bytes : List UInt8}
    (hout : ¬ (c.1.peers actor.peer).phase.InChat)
    (houtput : c.1.outputRx actor = packet :: rest) (hpayload : packet.payload = some bytes) :
    reaction bytes ≠ .left := by
  obtain ⟨d, payload, later, hd, -, hpeers, hpipe, rfl⟩ := h.exists_head houtput hpayload
  rw [← hpeers] at hout
  have hpunch : payload = .control .holePunch :=
    (sought_of_reachable hd actor.peer).punched hout payload (hpipe ▸ List.mem_cons_self)
  rw [hpunch, reaction_control]
  decide

/-- When the other side has begun to punch and has nothing left to say, a search has still to be
handed some of it. -/
theorem owed (h : Active addr c) {side : Side}
    (hsearching : (c.1.peers side.peer).phase = .searching) (hbegun : Begun side c)
    (hqueue : c.1.packetRx side = []) (houtput : c.1.outputRx side.peer = []) :
    deliveredPayloads side.peer (linkTrace c.2) ≠ submittedPayloads side (linkTrace c.2) := by
  intro hdelivered
  obtain ⟨d, hd, -, ahead, hchat, hsubmitted⟩ := h.exists_mirror
  have hahead : ahead side = [] := by
    have hread := delivered_eq_of_reachable h.reachable side.peer
    rw [hdelivered, hsubmitted, houtput, List.append_cancel_left_eq] at hread
    simpa using hread
  have hsign := (sought_of_reachable hd side).sign
  rw [hchat] at hsign
  rcases hsign hsearching with ⟨-, hsix, hout⟩ | ⟨payload, rest, hpipe, -⟩
  · exact hbegun.elim (Nat.ne_of_lt · hsix) hout
  · simp [Chat.behind, Stack.outgoing, hahead, hqueue] at hpipe

end Active

/-- As long as one side does not chat yet, there is a way to go on. -/
theorem Supplied.canReach_closer_of_apart {addr : Addresses} {now : ℕ}
    {c : Stack × List StackEvent} (h : Supplied addr now c) (hbegun : ∀ side, Begun side c)
    {side : Side} (hapart : (c.1.peers side).phase ≠ .chatting) :
    (stackMachine addr).CanReach (ServesAt now) c (Closer addr now c) := by
  have hout : ¬ (c.1.peers side).phase.InChat := fun hin =>
    hin.elim hapart (h.running side).2
  by_cases hidle : ∀ actor, (c.1.peers actor).phase ≠ .detected ∧ c.1.outputRx actor = [] ∧
      c.1.packetRx actor = []
  · have hsearching : (c.1.peers side).phase = .searching := by
      cases hphase : (c.1.peers side).phase with
      | searching => rfl
      | detected => exact absurd hphase (hidle side).1
      | chatting => exact absurd hphase hapart
      | failed => exact absurd hphase (h.running side).1
      | closed => exact absurd hphase (h.running side).2
    apply h.canReach_delivery side.peer fun other => (hidle other).2.1
    apply h.owed _ (hbegun _) (hidle _).2.2 (hidle _).2.1
    rw [Side.peer_peer, hsearching]
  · refine h.canReach_closer (fun actor packet rest bytes hchatting => ?_) hidle
    apply h.stays
    rcases Side.eq_or_eq_peer side actor with rfl | rfl
    · exact absurd hchatting hapart
    · rwa [Side.peer_peer]

/-- `Duration::from_secs(5)`: how long a search may take. -/
def searchLimit : ℕ := 5 * 10 ^ 9

/-- The time that a step reads, if it reads one. -/
def StackAction.time : StackAction → Option ℕ
  | .submit _ now => some now
  | .link (.atEnd _ action) => action.time
  | _ => none

/-- No step reads a time at which a search that is still on, and began then, would be given up. -/
def InTime (start : Side → ℕ) (c : Stack × List StackEvent) (action : StackAction) : Prop :=
  ∀ side, (c.1.peers side).phase = .searching → ∀ now ∈ action.time, now < start side + searchLimit

instance (start : Side → ℕ) (c : Stack × List StackEvent) (action : StackAction) :
    Decidable (InTime start c action) :=
  decidable_of_iff (∀ side ∈ [Side.left, .right], (c.1.peers side).phase = .searching →
    ∀ now ∈ action.time, now < start side + searchLimit)
    ⟨fun h side => h side (by cases side <;> simp), fun h side _ => h side⟩

/-- Whatever the transport does reads that time, if any. -/
theorem time_eq_of_serves {now time : ℕ} {side : Side} {action : Common.Action}
    (h : Untimed (.atEnd side action) ∨ Resends now (.atEnd side action))
    (htime : time ∈ action.time) : time = now := by
  cases action with
  | tick stamp =>
      cases htime
      exact h.resolve_left id
  | submit => exact (h.elim id id).elim
  | transmit | ack | arrive | recv => cases htime

theorem MeetsAt.time_eq {now time : ℕ} {action : StackAction} (h : MeetsAt now action)
    (htime : time ∈ action.time) : time = now := by
  rcases h with h | ⟨side, rfl⟩
  · cases action with
    | chat => cases htime
    | submit side stamp =>
        cases htime
        exact h
    | link action =>
        cases action with
        | atEnd side action => exact time_eq_of_serves h htime
        | _ => cases htime
  · cases htime

/-- As long as both peers are running, and what is lost may be sent again before either search is
given up, they can come to chat with each other in time, whatever is in the channels. -/
theorem canReach_met {addr : Addresses} {c : Stack × List StackEvent} (h : Active addr c)
    {now : ℕ} (hnow : c.1.link.clock + Common.Endpoint.retransmitTimeout < now) {start : Side → ℕ}
    (htime : ∀ side, (c.1.peers side).phase = .searching → now < start side + searchLimit) :
    ((stackMachine addr).guarded (InTime start)).CanReach (MeetsAt now) c fun d =>
      ∀ side, (d.1.peers side).phase = .chatting := by
  have hmet : (stackMachine addr).CanReach (MeetsAt now) c fun d =>
      ∀ side, (d.1.peers side).phase = .chatting := by
    refine (h.canReach_begun .left).trans fun left hleft => ?_
    refine (hleft.1.canReach_begun .right).trans fun right hright => ?_
    obtain ⟨hactive, hlink, hbegunRight, hkept⟩ := hright
    have hbegun : ∀ side, Begun side right := fun side => by
      cases side with
      | left => exact hkept .left hleft.2.2.1
      | right => exact hbegunRight
    rw [← hleft.2.1, ← hlink] at hnow
    refine Machine.CanReach.weaken ?_ fun action (haction : ServesAt now action) => .inl haction
    refine (hactive.canReach_supplied hnow).trans fun d hd => ?_
    refine Machine.CanReach.of_measure Stack.totalLoad
      (fun d (hd : Supplied addr now d ∧ ∀ side, Begun side d) happart => ?_)
      ⟨hd.1, fun side => hd.2.begun hactive.running (hbegun side)⟩
    obtain ⟨side, hapart⟩ := not_forall.mp happart
    refine (hd.1.canReach_closer_of_apart hd.2 hapart).mono fun e he => ⟨⟨he.supplied, ?_⟩, he.less⟩
    exact fun side => he.onward.begun hd.1.running (hd.2 side)
  have hkeep : ∀ d action e, (∀ side, (d.1.peers side).phase = .searching →
        now < start side + searchLimit) → MeetsAt now action →
      (stackMachine addr).step d action = some e → ∀ side, (e.1.peers side).phase = .searching →
        now < start side + searchLimit := by
    intro d action e hd _ hstep side hsearching
    obtain ⟨next, events, hnext, rfl⟩ := Machine.traced_step.mp hstep
    exact hd side (Stack.searching_of_step hnext hsearching)
  refine hmet.guarded htime hkeep fun d action hd haction side hsearching time hread => ?_
  rw [haction.time_eq hread]
  exact hd side hsearching

/-- The first punch of the left side is lost. -/
def lostPunch : List StackAction :=
  [.chat (.punch .left)] ++ putOut .left ++
    [.link (.lose (loopback.datagram .left ⟨⟨1, 0⟩, some (utf8 ControlWord.holePunch.text)⟩))]

theorem canReach_met_lostPunch : ∃ c,
    (stackMachine loopback).exec (stackMachine loopback).init lostPunch = some c ∧
      c.1.link.inFlight = [] ∧ c.1.link.clock = 0 ∧
      (∀ side, (c.1.peers side).phase = .searching) ∧
      ((stackMachine loopback).guarded (InTime fun _ => 0)).CanReach (MeetsAt 2000000001) c fun d =>
        ∀ side, (d.1.peers side).phase = .chatting := by
  obtain ⟨c, hexec, hflight, hclock, hleft, hright, hleftPeer, hrightPeer, hbudget⟩ :
      ∃ c ∈ (stackMachine loopback).exec (stackMachine loopback).init lostPunch,
        c.1.link.inFlight = [] ∧ c.1.link.clock = 0 ∧ typedBy .left (seenTrace c.2) = [] ∧
          typedBy .right (seenTrace c.2) = [] ∧ (c.1.peers .left).phase = .searching ∧
          (c.1.peers .right).phase = .searching ∧ Stack.budget .left c ≤ 9 ∧
          Stack.budget .right c ≤ 9 := by decide +kernel
  have hsearching : ∀ side, (c.1.peers side).phase = .searching := fun side => by
    cases side with
    | left => exact hleftPeer
    | right => exact hrightPeer
  have hactive : Active loopback c := by
    refine ⟨⟨lostPunch, hexec⟩, fun side => ?_, fun side => ?_, fun side => ?_⟩
    · rw [hsearching side]
      decide
    · cases side with
      | left => exact hleft ▸ (by decide)
      | right => exact hright ▸ (by decide)
    · cases side with
      | left => exact Nat.lt_of_le_of_lt hbudget.1 (by decide)
      | right => exact Nat.lt_of_le_of_lt hbudget.2 (by decide)
  have hnow : c.1.link.clock + Common.Endpoint.retransmitTimeout < 2000000001 := by
    rw [hclock]
    decide
  exact ⟨c, hexec, hflight, hclock, hsearching,
    canReach_met hactive hnow fun _ _ => (by decide : 2000000001 < 0 + searchLimit)⟩

end P2PNetworking.Peer
