/-
# The chat is carried by its transport

Every run of the two peers over their transport is, for the users, a run of the chat in which
every payload arrives, in order and once: what a peer has given to the transport and the other
one has not read counts as on its way, wherever it is.  What is true of all runs of the chat is
true end to end.

The transport has its limits: how many packets there are, and how long and never empty a
payload is.  The payloads are control words and lines, so the limits are limits on what is
typed.
-/

import P2PNetworking.Peer.Stack
import P2PNetworking.Common.Progress

namespace P2PNetworking.Peer

open P2PNetworking.Lib
open P2PNetworking.Common (Side Link LinkAction Addresses linkMachine loopback sideTrace
  sideTrace_append WithinLimits submitted handedOver submittedPayloads deliveredPayloads
  LinkInv linkInv_of_reachable)

/-! ## What the users see -/

/-- The lines typed at a side. -/
def typedBy (side : Side) (seen : List Seen) : List (List Char) :=
  seen.filterMap fun
    | .typed other line => if other = side then some line else none
    | .read _ _ _ => none

/-- What has been read at a side. -/
def readBy (side : Side) (seen : List Seen) : List (Reading × List UInt8) :=
  seen.filterMap fun
    | .read other reading bytes => if other = side then some (reading, bytes) else none
    | .typed _ _ => none

/-- What has been displayed at a side. -/
def displayedBy (side : Side) (seen : List Seen) : List (List UInt8) :=
  (readBy side seen).filterMap fun entry =>
    if entry.1 = .displayed then some entry.2 else none

@[simp]
theorem typedBy_nil (side : Side) : typedBy side [] = [] := rfl

@[simp]
theorem typedBy_append (side : Side) (first second : List Seen) :
    typedBy side (first ++ second) = typedBy side first ++ typedBy side second :=
  List.filterMap_append

@[simp]
theorem readBy_append (side : Side) (first second : List Seen) :
    readBy side (first ++ second) = readBy side first ++ readBy side second :=
  List.filterMap_append

theorem typedBy_map_seen (side : Side) (events : List ChatEvent) :
    typedBy side (events.map ChatEvent.seen) = typedAt side events := by
  rw [typedBy, List.filterMap_map, typedAt]
  congr 1
  funext event
  cases event <;> rfl

theorem readBy_map_seen (side : Side) (events : List ChatEvent) :
    readBy side (events.map ChatEvent.seen) =
      (readAt side events).map fun entry => (entry.1, entry.2.bytes) := by
  rw [readBy, List.filterMap_map, readAt, List.map_filterMap]
  congr 1
  funext event
  cases event with
  | typed other line => rfl
  | read other reading payload =>
      simp only [Function.comp_apply, ChatEvent.seen]
      split <;> rfl

theorem displayedBy_map_seen (side : Side) (events : List ChatEvent) :
    displayedBy side (events.map ChatEvent.seen) = displayed (readAt side events) := by
  rw [displayedBy, readBy_map_seen, List.filterMap_map]
  rfl

/-- The bytes of all that has been read at a side. -/
def bytesRead (side : Side) (seen : List Seen) : List (List UInt8) :=
  (readBy side seen).map Prod.snd

@[simp]
theorem bytesRead_nil (side : Side) : bytesRead side [] = [] := rfl

@[simp]
theorem bytesRead_append (side : Side) (first second : List Seen) :
    bytesRead side (first ++ second) = bytesRead side first ++ bytesRead side second := by
  simp [bytesRead]

theorem bytesRead_read (side other : Side) (reading : Reading) (bytes : List UInt8) :
    bytesRead other [.read side reading bytes] = if side = other then [bytes] else [] := by
  by_cases hside : side = other <;> simp [bytesRead, readBy, hside]

namespace Chat

variable {chat next : Chat} {events : List ChatEvent} {side : Side}

/-- A task that does not read. -/
theorem readAt_of_writes {action : ChatAction} (hwrites : ∀ side, action ≠ .receive side)
    (hstep : chat.step action = some (next, events)) (side : Side) : readAt side events = [] := by
  cases action with
  | receive actor => exact absurd rfl (hwrites actor)
  | send actor =>
      rw [send_silent hstep]
      rfl
  | _ =>
      simp only [step] at hstep
      split at hstep
      · cases hstep
        rfl
      · cases hstep

/-- A side that reads can read what is first for it. -/
theorem receive_of_reads {payload : Payload} {rest : List Payload} {phase : Phase}
    {reading : Reading} (hpipe : chat.pipe side.peer = payload :: rest)
    (hreads : (chat.peers side).phase.Reads payload phase reading) :
    chat.receive side =
      some ((chat.pop side rest).enter side phase, [.read side reading payload]) := by
  generalize hphase : (chat.peers side).phase = current at hreads
  cases hreads with
  | search => simp only [receive, hphase, hpipe]
  | chat => simp only [receive, hphase, hpipe]

end Chat

/-! ## What is submitted and handed over -/

@[simp]
theorem submittedPayloads_nil (side : Side) : submittedPayloads side [] = [] := rfl

@[simp]
theorem deliveredPayloads_nil (side : Side) : deliveredPayloads side [] = [] := rfl

@[simp]
theorem submittedPayloads_append (side : Side) (first second : List (Side × Common.Event)) :
    submittedPayloads side (first ++ second) =
      submittedPayloads side first ++ submittedPayloads side second := by
  simp [submittedPayloads]

@[simp]
theorem deliveredPayloads_append (side : Side) (first second : List (Side × Common.Event)) :
    deliveredPayloads side (first ++ second) =
      deliveredPayloads side first ++ deliveredPayloads side second := by
  simp [deliveredPayloads]

section Submitted

variable {addr : Addresses} {link next : Link} {new : List (Side × Common.Event)}

theorem submittedPayloads_submit {side : Side} {now : ℕ} {payload : List UInt8}
    (hstep : link.step addr (.atEnd side (.submit now (.data payload))) = some (next, new))
    (other : Side) :
    submittedPayloads other new = if side = other then [payload] else [] := by
  have hside := Link.step_atSide hstep other
  by_cases hother : side = other
  · simp only [LinkAction.atSide, hother, if_true] at hside ⊢
    have htransition := Common.Endpoint.transition_of_step hside
    unfold submittedPayloads
    generalize next.ends other = ep, sideTrace other new = events at htransition
    cases htransition with
    | submitData => rfl
  · simp only [LinkAction.atSide, hother, if_false] at hside ⊢
    rw [submittedPayloads, hside.2]
    rfl

theorem submittedPayloads_quiet {action : LinkAction} (hsubmit : isSubmit action = false)
    (hstep : link.step addr action = some (next, new)) (side : Side) :
    submittedPayloads side new = [] := by
  have hside := Link.step_atSide hstep side
  cases hshare : action.atSide side with
  | none =>
      rw [hshare] at hside
      rw [submittedPayloads, hside.2]
      rfl
  | some act =>
      rw [hshare] at hside
      refine (Common.Endpoint.transition_of_step hside).submitted_eq_nil ?_
      rintro now packetType rfl
      cases action with
      | atEnd actor act =>
          simp only [LinkAction.atSide] at hshare
          split at hshare
          · cases hshare
            cases hsubmit
          · cases hshare
      | deliver actor datagram =>
          simp only [LinkAction.atSide] at hshare
          split at hshare <;> cases hshare
      | duplicate datagram => cases hshare
      | lose datagram => cases hshare

end Submitted

/-- What has been read at a side and what is in its channel is what it has been handed. -/
theorem delivered_eq_of_reachable {addr : Addresses} {c : Stack × List StackEvent}
    (hc : (stackMachine addr).Reachable c) (side : Side) :
    deliveredPayloads side (linkTrace c.2) =
      bytesRead side (seenTrace c.2) ++ (c.1.outputRx side).filterMap Common.Packet.payload := by
  refine Machine.Reachable.induct (P := fun c =>
    deliveredPayloads side (linkTrace c.2) =
      bytesRead side (seenTrace c.2) ++ (c.1.outputRx side).filterMap Common.Packet.payload)
    rfl ?_ hc
  rintro ⟨stack, trace⟩ action d - h hstep
  obtain ⟨next, events, hnext, rfl⟩ := Machine.traced_step.mp hstep
  dsimp only at h hnext ⊢
  simp only [linkTrace_append, seenTrace_append, deliveredPayloads_append, bytesRead_append, h]
  cases Stack.transition_of_step hnext with
  | @chat action chat new hwrites hchat =>
      have hnone : bytesRead side (new.map ChatEvent.seen) = [] := by
        rw [bytesRead, readBy_map_seen, Chat.readAt_of_writes hwrites hchat side]
        rfl
      rw [linkTrace_map_seen, seenTrace_map_seen, hnone]
      simp
  | @skip actor packet rest houtput hpayload =>
      by_cases hactor : side = actor
      · subst hactor
        simp [houtput, hpayload]
      · simp [hactor]
  | @read actor packet rest bytes phase reading houtput hpayload =>
      rw [seenTrace_seen, bytesRead_read]
      by_cases hactor : actor = side
      · subst hactor
        simp [houtput, hpayload, Stack.enter]
      · have hother : side ≠ actor := fun h => hactor h.symm
        simp [hactor, hother, Stack.enter]
  | submit | link => simp [deliveredPayloads]

/-! ## Where payloads come from -/

/-- A line that has been typed, or a control word. -/
def Payload.Sourced (typed : List (List Char)) : Payload → Prop
  | .control _ => True
  | .line text => text ∈ typed ∧ text ≠ []

theorem Payload.Sourced.append {typed : List (List Char)} {payload : Payload}
    (h : payload.Sourced typed) (more : List (List Char)) : payload.Sourced (typed ++ more) := by
  cases payload with
  | control word => trivial
  | line text => exact ⟨List.mem_append_left _ h.1, h.2⟩

theorem utf8_length_pos {text : List Char} (htext : text ≠ []) : 1 ≤ (utf8 text).length := by
  obtain ⟨first, rest, rfl⟩ := List.exists_cons_of_ne_nil htext
  have hfirst := Char.utf8Size_pos first
  simp only [utf8, List.flatMap_cons, List.length_append, String.length_utf8EncodeChar]
  omega

/-- It is not empty, and as short as the lines. -/
theorem Payload.Sourced.length {typed : List (List Char)} {payload : Payload}
    (h : payload.Sourced typed) (hsizes : ∀ line ∈ typed, (utf8 line).length ≤ 6592) :
    1 ≤ payload.bytes.length ∧ payload.bytes.length ≤ 6592 := by
  cases payload with
  | control word => cases word <;> decide
  | line text => exact ⟨utf8_length_pos h.2, hsizes text h.1⟩

/-- What a sender has is sourced. -/
structure Direction.Sourced (d : Direction) (typed : List (List Char)) : Prop where
  queued : ∀ line ∈ d.stdin, line ∈ typed
  piped : ∀ payload ∈ d.pipe, payload.Sourced typed

theorem Direction.Sourced.mono {d next : Direction} {typed : List (List Char)}
    (h : d.Sourced typed) (hstdin : next.stdin ⊆ d.stdin) (hpipe : next.pipe ⊆ d.pipe) :
    next.Sourced typed :=
  ⟨fun line hmem => h.queued line (hstdin hmem), fun payload hmem => h.piped payload (hpipe hmem)⟩

theorem Direction.Sourced.step {d next : Direction} {typed lines : List (List Char)}
    {readings : List (Reading × Payload)} (h : d.Sourced typed)
    (hstep : d.Step next lines readings) : next.Sourced (typed ++ lines) := by
  have hqueued : ∀ line ∈ d.stdin, line ∈ typed ++ lines :=
    fun line hmem => List.mem_append_left _ (h.queued line hmem)
  have hpiped : ∀ payload ∈ d.pipe, payload.Sourced (typed ++ lines) :=
    fun payload hmem => (h.piped payload hmem).append lines
  cases hstep with
  | rest | enter | meet => exact ⟨hqueued, hpiped⟩
  | control =>
      refine ⟨hqueued, fun payload hmem => ?_⟩
      rcases List.mem_append.mp hmem with hold | hlast
      · exact hpiped payload hold
      · rw [List.mem_singleton.mp hlast]
        trivial
  | type =>
      refine ⟨fun line hmem => ?_, hpiped⟩
      rcases List.mem_append.mp hmem with hold | hlast
      · exact hqueued line hold
      · exact List.mem_append_right _ hlast
  | skip hstdin =>
      exact ⟨fun line hmem => hqueued line (hstdin ▸ List.mem_cons_of_mem _ hmem), hpiped⟩
  | send _ hstdin hmessage =>
      refine ⟨fun line hmem => hqueued line (hstdin ▸ List.mem_cons_of_mem _ hmem),
        fun payload hmem => ?_⟩
      rcases List.mem_append.mp hmem with hold | hlast
      · exact hpiped payload hold
      · rw [List.mem_singleton.mp hlast]
        exact ⟨hqueued _ (hstdin ▸ List.mem_cons_self), hmessage.1⟩
  | exit _ hstdin =>
      refine ⟨fun line hmem => hqueued line (hstdin ▸ List.mem_cons_of_mem _ hmem),
        fun payload hmem => ?_⟩
      rcases List.mem_append.mp hmem with hold | hlast
      · exact hpiped payload hold
      · rw [List.mem_singleton.mp hlast]
        trivial
  | receive hpipe =>
      exact ⟨hqueued, fun payload hmem => hpiped payload (hpipe ▸ List.mem_cons_of_mem _ hmem)⟩

/-- What a peer has and what it has submitted is sourced. -/
structure Originates (side : Side) (c : Stack × List StackEvent) : Prop where
  direction : (c.1.outgoing.direction side).Sourced (typedBy side (seenTrace c.2))
  submitted : ∀ bytes ∈ submittedPayloads side (linkTrace c.2),
    ∃ payload : Payload, payload.Sourced (typedBy side (seenTrace c.2)) ∧ payload.bytes = bytes

theorem originates_of_reachable {addr : Addresses} {c : Stack × List StackEvent}
    (hc : (stackMachine addr).Reachable c) (side : Side) : Originates side c := by
  refine Machine.Reachable.induct (P := Originates side) ?_ ?_ hc
  · refine ⟨⟨fun line hmem => ?_, fun payload hmem => ?_⟩, fun bytes hmem => ?_⟩ <;> cases hmem
  rintro ⟨stack, trace⟩ action d - ⟨hdirection, hsubmitted⟩ hstep
  obtain ⟨next, events, hnext, rfl⟩ := Machine.traced_step.mp hstep
  dsimp only at hdirection hsubmitted hnext
  cases Stack.transition_of_step hnext with
  | @chat action chat new hwrites hchat =>
      constructor
      · rw [seenTrace_append, typedBy_append, seenTrace_map_seen, typedBy_map_seen]
        exact hdirection.step (Chat.direction_step hchat side)
      · rw [linkTrace_append, linkTrace_map_seen, List.append_nil, seenTrace_append,
          typedBy_append]
        intro bytes hmem
        obtain ⟨payload, hsourced, rfl⟩ := hsubmitted bytes hmem
        exact ⟨payload, hsourced.append _, rfl⟩
  | skip =>
      rw [List.append_nil]
      exact ⟨hdirection.mono (.refl _) (.refl _), hsubmitted⟩
  | @read actor packet rest bytes phase reading houtput hpayload =>
      have htyped : typedBy side [.read actor reading bytes] = [] := rfl
      constructor
      · rw [seenTrace_append, seenTrace_seen, typedBy_append, htyped, List.append_nil]
        refine hdirection.mono (fun line hmem => ?_) (.refl _)
        by_cases hactor : side = actor
        · subst hactor
          simpa [Stack.enter, Stack.outgoing, Chat.direction] using hmem
        · simpa [Stack.enter, Stack.outgoing, Chat.direction, hactor] using hmem
      · simpa [htyped] using hsubmitted
  | @submit actor now payload rest link new hqueue hlink =>
      constructor
      · rw [seenTrace_append, seenTrace_map_link, List.append_nil]
        refine hdirection.mono (.refl _) fun other hmem => ?_
        by_cases hactor : side = actor
        · subst hactor
          simp only [Stack.outgoing, Chat.direction, Function.update_self] at hmem
          simpa [Stack.outgoing, Chat.direction, hqueue] using .inr hmem
        · simpa [Stack.outgoing, Chat.direction, hactor] using hmem
      · rw [linkTrace_append, linkTrace_map_link, submittedPayloads_append,
          submittedPayloads_submit hlink, seenTrace_append, seenTrace_map_link, List.append_nil]
        intro bytes hmem
        rcases List.mem_append.mp hmem with hold | hlast
        · exact hsubmitted bytes hold
        · split at hlast
          · next hactor =>
            subst hactor
            rw [List.mem_singleton.mp hlast]
            have hqueued : payload ∈ stack.packetRx actor := hqueue ▸ List.mem_cons_self
            exact ⟨payload, hdirection.piped payload hqueued, rfl⟩
          · cases hlast
  | @link action link new hsubmit hlink =>
      constructor
      · rw [seenTrace_append, seenTrace_map_link, List.append_nil]
        exact hdirection.mono (.refl _) (.refl _)
      · rw [linkTrace_append, linkTrace_map_link, submittedPayloads_append,
          submittedPayloads_quiet hsubmit hlink, List.append_nil, seenTrace_append,
          seenTrace_map_link, List.append_nil]
        exact hsubmitted

/-! ## The limits of the transport -/

/-- No line is longer than a datagram carries, and there are not too many payloads. -/
structure Fits (trace : List StackEvent) : Prop where
  sizes : ∀ side, ∀ line ∈ typedBy side (seenTrace trace), (utf8 line).length ≤ 6592
  few : ∀ side, (submittedPayloads side (linkTrace trace)).length < 2 ^ 32 - 1

theorem Fits.of_append {first second : List StackEvent} (h : Fits (first ++ second)) :
    Fits first where
  sizes side line hmem := h.sizes side line (by simp [hmem])
  few side := by
    have hfew := h.few side
    rw [linkTrace_append, submittedPayloads_append, List.length_append] at hfew
    omega

theorem Fits.withinLimits {addr : Addresses} {c : Stack × List StackEvent} (h : Fits c.2)
    (hc : (stackMachine addr).Reachable c) : WithinLimits (linkTrace c.2) := by
  refine fun side => ⟨h.few side, fun bytes hmem => ?_⟩
  obtain ⟨payload, hsourced, rfl⟩ := (originates_of_reachable hc side).submitted bytes hmem
  exact hsourced.length (h.sizes side)

/-! ## The chat that the users see -/

namespace Chat

variable {chat next : Chat} {events : List ChatEvent} {side : Side}

/-- Payloads that are ahead of those in the channels. -/
def behind (chat : Chat) (ahead : Side → List Payload) : Chat :=
  { chat with pipe := fun side => ahead side ++ chat.pipe side }

theorem push_behind (chat : Chat) (ahead : Side → List Payload) (side : Side)
    (payload : Payload) :
    (chat.behind ahead).push side payload = (chat.push side payload).behind ahead := by
  unfold push behind
  congr 1
  funext other
  by_cases hother : other = side
  · subst hother
    simp
  · simp [hother]

theorem setPeer_behind (chat : Chat) (ahead : Side → List Payload) (side : Side)
    (peer : ChatPeer) :
    (chat.behind ahead).setPeer side peer = (chat.setPeer side peer).behind ahead := rfl

theorem enter_behind (chat : Chat) (ahead : Side → List Payload) (side : Side)
    (phase : Phase) :
    (chat.behind ahead).enter side phase = (chat.enter side phase).behind ahead := rfl

/-- The first payload that is ahead is read. -/
theorem pop_behind {ahead : Side → List Payload} {later : List Payload} :
    (chat.behind ahead).pop side (later ++ chat.pipe side.peer) =
      chat.behind (Function.update ahead side.peer later) := by
  unfold pop behind
  congr 1
  funext other
  by_cases hother : other = side.peer
  · subst hother
    simp
  · simp [hother]

/-- The first payload of a channel goes ahead. -/
theorem behind_advance {ahead : Side → List Payload} {payload : Payload} {rest : List Payload}
    (hpipe : chat.pipe side = payload :: rest) :
    chat.behind ahead = { chat with pipe := Function.update chat.pipe side rest }.behind
      (Function.update ahead side (ahead side ++ [payload])) := by
  unfold behind
  congr 1
  funext other
  by_cases hother : other = side
  · subst hother
    simp [hpipe]
  · simp [hother]

theorem send_behind (hstep : chat.send side = some (next, events))
    (ahead : Side → List Payload) :
    (chat.behind ahead).send side = some (next.behind ahead, events) := by
  have hpeers : (chat.behind ahead).peers = chat.peers := rfl
  simp only [send, hpeers, setPeer_behind, push_behind, enter_behind] at hstep ⊢
  split at hstep
  · split at hstep
    · next hexit =>
      cases hstep
      exact if_pos hexit
    · next hexit =>
      rw [if_neg hexit]
      split at hstep
      · next hempty =>
        cases hstep
        exact if_pos hempty
      · next hempty =>
        cases hstep
        exact if_neg hempty
  · cases hstep

/-- A task that does not read takes no notice of what is ahead. -/
theorem step_behind {action : ChatAction} (hwrites : ∀ side, action ≠ .receive side)
    (hstep : chat.step action = some (next, events)) (ahead : Side → List Payload) :
    (chat.behind ahead).step action = some (next.behind ahead, events) := by
  cases action with
  | receive side => exact absurd rfl (hwrites side)
  | send side => exact send_behind hstep ahead
  | _ =>
      simp only [step] at hstep ⊢
      split at hstep
      · next hguard =>
        cases hstep
        simp only [setPeer_behind, push_behind, enter_behind]
        exact if_pos hguard
      · cases hstep

end Chat

/-- The chat has the same history for the users, and what one has given to the transport and
the other has not read is ahead in its pipe. -/
structure Mirrors (c : Stack × List StackEvent) (d : Chat × List ChatEvent) : Prop where
  seen : d.2.map ChatEvent.seen = seenTrace c.2
  chat : ∃ ahead, d.1 = c.1.outgoing.behind ahead ∧ ∀ side,
    submittedPayloads side (linkTrace c.2) =
      bytesRead side.peer (seenTrace c.2) ++ (ahead side).map Payload.bytes

/-- What a side can read next is what is ahead of all. -/
theorem ahead_of_outputRx {addr : Addresses} {c : Stack × List StackEvent}
    (hc : (stackMachine addr).Reachable c) (hlimits : WithinLimits (linkTrace c.2)) {side : Side}
    {packet : Common.Packet} {rest : List Common.Packet} {bytes : List UInt8}
    (houtput : c.1.outputRx side = packet :: rest) (hpayload : packet.payload = some bytes)
    {ahead : List Payload}
    (hsubmitted : submittedPayloads side.peer (linkTrace c.2) =
      bytesRead side (seenTrace c.2) ++ ahead.map Payload.bytes) :
    ∃ payload later, ahead = payload :: later ∧ payload.bytes = bytes := by
  have hinv : LinkInv addr c.1.link (linkTrace c.2) :=
    linkInv_of_reachable ((linkComponent addr).reachable_view hc) hlimits
  have hprefix : deliveredPayloads side (linkTrace c.2) <+:
      submittedPayloads side.peer (linkTrace c.2) := by
    rw [deliveredPayloads, (hinv.numbered side).payloads_eq]
    exact List.take_prefix _ _
  rw [delivered_eq_of_reachable hc side, hsubmitted, List.prefix_append_right_inj, houtput,
    List.filterMap_cons_some hpayload] at hprefix
  cases ahead with
  | nil => simp at hprefix
  | cons payload later =>
      rw [List.map_cons, List.cons_prefix_cons] at hprefix
      exact ⟨payload, later, rfl, hprefix.1.symm⟩

section Mirrors

variable {addr : Addresses} {stack : Stack} {trace : List StackEvent} {d : Chat × List ChatEvent}

theorem Mirrors.write (h : Mirrors (stack, trace) d) {action : ChatAction} {chat : Chat}
    {new : List ChatEvent} (hwrites : ∀ side, action ≠ .receive side)
    (hstep : stack.outgoing.step action = some (chat, new)) :
    ∃ d', chatMachine.step d action = some d' ∧
      Mirrors ({ stack with peers := chat.peers, packetRx := chat.pipe },
        trace ++ (new.map ChatEvent.seen).map .seen) d' := by
  obtain ⟨hseen, ahead, hchat, hsubmitted⟩ := h
  have hnext := Chat.step_behind hwrites hstep ahead
  rw [← hchat] at hnext
  refine ⟨_, Machine.traced_step.mpr ⟨_, new, hnext, rfl⟩, ?_, ahead, rfl, fun side => ?_⟩
  · rw [List.map_append, hseen, seenTrace_append, seenTrace_map_seen]
  · have hnone : bytesRead side.peer (new.map ChatEvent.seen) = [] := by
      rw [bytesRead, readBy_map_seen, Chat.readAt_of_writes hwrites hstep side.peer]
      rfl
    rw [linkTrace_append, linkTrace_map_seen, List.append_nil, seenTrace_append,
      seenTrace_map_seen, bytesRead_append, hnone, List.append_nil]
    exact hsubmitted side

theorem Mirrors.read (h : Mirrors (stack, trace) d)
    (hc : (stackMachine addr).Reachable (stack, trace))
    (hlimits : WithinLimits (linkTrace trace)) {side : Side} {packet : Common.Packet}
    {rest : List Common.Packet} {bytes : List UInt8} {phase : Phase} {reading : Reading}
    (houtput : stack.outputRx side = packet :: rest) (hpayload : packet.payload = some bytes)
    (hreads : ∀ payload : Payload, payload.bytes = bytes →
      (stack.peers side).phase.Reads payload phase reading) :
    ∃ d', chatMachine.step d (.receive side) = some d' ∧
      Mirrors (({ stack with outputRx := Function.update stack.outputRx side rest }).enter side
        phase, trace ++ [.seen (.read side reading bytes)]) d' := by
  obtain ⟨hseen, ahead, hchat, hsubmitted⟩ := h
  have hside := hsubmitted side.peer
  rw [Side.peer_peer] at hside
  obtain ⟨payload, later, hahead, rfl⟩ := ahead_of_outputRx hc hlimits houtput hpayload hside
  have hpipe : d.1.pipe side.peer = payload :: (later ++ stack.packetRx side.peer) := by
    rw [hchat]
    simp [Chat.behind, hahead, Stack.outgoing]
  have hphase : (d.1.peers side).phase.Reads payload phase reading := by
    rw [hchat]
    exact hreads payload rfl
  refine ⟨_, Machine.traced_step.mpr ⟨_, _, Chat.receive_of_reads hpipe hphase, rfl⟩, ?_,
    Function.update ahead side.peer later, ?_, fun other => ?_⟩
  · rw [List.map_append, hseen, seenTrace_append, seenTrace_seen]
    rfl
  · rw [hchat]
    exact congrArg (Chat.enter · side phase) Chat.pop_behind
  · have hold := hsubmitted other
    dsimp only at hold ⊢
    rw [linkTrace_append, linkTrace_seen, List.append_nil, hold, seenTrace_append, seenTrace_seen,
      bytesRead_append, bytesRead_read]
    rcases Side.eq_or_eq_peer side other with rfl | rfl
    · simp [(Side.peer_ne other).symm]
    · simp [hahead]

/-- `send` takes a payload, which is ahead from now on. -/
theorem Mirrors.submit (h : Mirrors (stack, trace) d) {side : Side} {now : ℕ} {payload : Payload}
    {rest : List Payload} {link : Link} {new : List (Side × Common.Event)}
    {outputRx : Side → List Common.Packet} (hqueue : stack.packetRx side = payload :: rest)
    (hstep : stack.link.step addr (.atEnd side (.submit now (.data payload.bytes))) =
      some (link, new)) :
    Mirrors (⟨link, stack.peers, Function.update stack.packetRx side rest, outputRx⟩,
      trace ++ new.map fun event => .link event.1 event.2) d := by
  obtain ⟨hseen, ahead, hchat, hsubmitted⟩ := h
  refine ⟨by simpa using hseen, Function.update ahead side (ahead side ++ [payload]), ?_,
    fun other => ?_⟩
  · rw [hchat]
    exact Chat.behind_advance hqueue
  · have hold := hsubmitted other
    dsimp only at hold ⊢
    rw [linkTrace_append, linkTrace_map_link, submittedPayloads_append,
      submittedPayloads_submit hstep, hold, seenTrace_append, seenTrace_map_link, List.append_nil]
    by_cases hother : side = other
    · subst hother
      simp
    · simp [hother, Function.update_of_ne (Ne.symm hother)]

theorem Mirrors.rest (h : Mirrors (stack, trace) d) {link : Link}
    {outputRx : Side → List Common.Packet} {new : List (Side × Common.Event)}
    (hquiet : ∀ side, submittedPayloads side new = []) :
    Mirrors (⟨link, stack.peers, stack.packetRx, outputRx⟩,
      trace ++ new.map fun event => .link event.1 event.2) d := by
  obtain ⟨hseen, ahead, hchat, hsubmitted⟩ := h
  refine ⟨by simpa using hseen, ahead, hchat, fun side => ?_⟩
  simpa [hquiet] using hsubmitted side

/-- Every step of the system is a step of the chat or none. -/
theorem mirrors_step {c c' : Stack × List StackEvent} {action : StackAction}
    (hc : (stackMachine addr).Reachable c) (hlimits : WithinLimits (linkTrace c'.2))
    (hstep : (stackMachine addr).step c action = some c') (h : Mirrors c d) :
    ∃ actions d', chatMachine.exec d actions = some d' ∧ Mirrors c' d' := by
  obtain ⟨stack, trace⟩ := c
  obtain ⟨next, events, hnext, rfl⟩ := Machine.traced_step.mp hstep
  have hbefore : WithinLimits (linkTrace trace) :=
    hlimits.of_prefix (linkTrace_append trace events ▸ List.prefix_append _ _)
  dsimp only at hnext ⊢
  cases Stack.transition_of_step hnext with
  | chat hwrites hchat =>
      obtain ⟨d', hd, hmirrors⟩ := h.write hwrites hchat
      exact ⟨[_], d', Machine.exec_singleton _ hd, hmirrors⟩
  | skip =>
      rw [List.append_nil]
      exact ⟨[], d, rfl, h.seen, h.chat⟩
  | read houtput hpayload hreads =>
      obtain ⟨d', hd, hmirrors⟩ := h.read hc hbefore houtput hpayload hreads
      exact ⟨[_], d', Machine.exec_singleton _ hd, hmirrors⟩
  | submit hqueue hlink => exact ⟨[], d, rfl, h.submit hqueue hlink⟩
  | link hsubmit hlink => exact ⟨[], d, rfl, h.rest (submittedPayloads_quiet hsubmit hlink)⟩

/-- Within the limits, the system is the chat for the users. -/
theorem mirrors_of_reachable {c : Stack × List StackEvent}
    (hc : (stackMachine addr).Reachable c) :
    ∃ d, chatMachine.Reachable d ∧ (WithinLimits (linkTrace c.2) → Mirrors c d) := by
  let rel (c : Stack × List StackEvent) (d : Chat × List ChatEvent) : Prop :=
    WithinLimits (linkTrace c.2) → Mirrors c d
  have hinit : rel (stackMachine addr).init chatMachine.init :=
    fun _ => ⟨rfl, fun _ => [], rfl, fun _ => rfl⟩
  refine Machine.Reachable.simulate hinit ?_ hc
  intro c d action c' hc _ hrel hstep
  by_cases hlimits : WithinLimits (linkTrace c'.2)
  · obtain ⟨later, hlater⟩ := Machine.traced_step_prefix hstep
    have hbefore : WithinLimits (linkTrace c.2) := by
      rw [← hlater, linkTrace_append] at hlimits
      exact hlimits.of_prefix (List.prefix_append _ _)
    obtain ⟨actions, d', hexec, hmirrors⟩ := mirrors_step hc hlimits hstep (hrel hbefore)
    exact ⟨actions, d', hexec, fun _ => hmirrors⟩
  · exact ⟨[], d, rfl, fun h => absurd h hlimits⟩

end Mirrors

/-! ## A run -/

/-- A payload goes from its channel to the network. -/
def putOut (side : Side) : List StackAction := [.submit side 0, .link (.atEnd side (.transmit 0))]

/-- A datagram is delivered, and `recv` goes on until it has handled it. -/
def takeIn (side : Side) (packet : Common.Packet) (pieces : ℕ) : List StackAction :=
  .link (.deliver side (loopback.datagram side.peer packet)) ::
    List.replicate pieces (.link (.atEnd side .recv))

/-- The two sides find each other over the network. -/
def acquaintance : List StackAction :=
  [.chat (.punch .left)] ++ putOut .left ++
    takeIn .right ⟨⟨1, 0⟩, some (utf8 ControlWord.holePunch.text)⟩ 0 ++
    takeIn .left (Common.ackPacket 0) 4 ++ [.link (.atEnd .left .ack)] ++
    takeIn .right (Common.ackPacket 0) 6 ++
    [.chat (.receive .right), .chat (.receive .right), .chat (.confirm .right)] ++
    putOut .right ++ takeIn .left ⟨⟨1, 1⟩, some (utf8 ControlWord.connected.text)⟩ 4 ++
    [.chat (.receive .left), .chat (.receive .left), .chat (.confirm .left)]

/-- The left side says "hi", which overtakes its confirmation. -/
def introduction : List StackAction :=
  acquaintance ++ [.chat (.type .left ['h', 'i', '\n']), .chat (.send .left)] ++
    putOut .left ++ putOut .left ++ takeIn .right ⟨⟨3, 1⟩, some (utf8 ['h', 'i'])⟩ 0 ++
    takeIn .right ⟨⟨2, 1⟩, some (utf8 ControlWord.connected.text)⟩ 6 ++
    [.chat (.receive .right), .chat (.receive .right)]

theorem exec_introduction :
    ∃ c, (stackMachine loopback).exec (stackMachine loopback).init introduction = some c ∧
      Fits c.2 ∧ typedBy .left (seenTrace c.2) = [['h', 'i']] := by
  obtain ⟨c, hexec, hleft, hright, hfew⟩ :
      ∃ c ∈ (stackMachine loopback).exec (stackMachine loopback).init introduction,
        typedBy .left (seenTrace c.2) = [['h', 'i']] ∧ typedBy .right (seenTrace c.2) = [] ∧
          (submittedPayloads .left (linkTrace c.2)).length ≤ 3 ∧
          (submittedPayloads .right (linkTrace c.2)).length ≤ 3 := by decide +kernel
  refine ⟨c, hexec, ⟨fun side => ?_, fun side => ?_⟩, hleft⟩
  · cases side with
    | left =>
        rw [hleft]
        decide
    | right =>
        rw [hright]
        decide
  · cases side with
    | left => exact Nat.lt_of_le_of_lt hfew.1 (by decide)
    | right => exact Nat.lt_of_le_of_lt hfew.2 (by decide)

/-! ## End to end -/

/-- Whatever happens in the system, the users see a run of the chat. -/
theorem refines_chat {addr : Addresses} {c : Stack × List StackEvent}
    (hc : (stackMachine addr).Reachable c) (hfits : Fits c.2) :
    ∃ d, chatMachine.Reachable d ∧ d.2.map ChatEvent.seen = seenTrace c.2 ∧
      d.1.peers = c.1.peers := by
  obtain ⟨d, hd, hmirrors⟩ := mirrors_of_reachable hc
  obtain ⟨hseen, ahead, hchat, -⟩ := hmirrors (hfits.withinLimits hc)
  exact ⟨d, hd, hseen, hchat ▸ rfl⟩

theorem refines_chat_introduction : ∃ c d,
    (stackMachine loopback).exec (stackMachine loopback).init introduction = some c ∧
      chatMachine.Reachable d ∧ d.2.map ChatEvent.seen = seenTrace c.2 ∧
      d.1.peers = c.1.peers := by
  obtain ⟨c, hexec, hfits, -⟩ := exec_introduction
  obtain ⟨d, hrefined⟩ := refines_chat ⟨introduction, hexec⟩ hfits
  exact ⟨c, d, hexec, hrefined⟩

/-- While no control word is typed at a side, its direction keeps the invariant. -/
theorem inv_of_typed {d : Chat × List ChatEvent} (hd : chatMachine.Reachable d) {side : Side}
    (hwords : ∀ line ∈ typedAt side d.2, ¬ IsControlWord line) :
    (d.1.direction side).Inv (typedAt side d.2) (readAt side.peer d.2) := by
  revert hwords
  refine Machine.Reachable.induct (P := fun d : Chat × List ChatEvent =>
    (∀ line ∈ typedAt side d.2, ¬ IsControlWord line) →
      (d.1.direction side).Inv (typedAt side d.2) (readAt side.peer d.2)) ?_ ?_ hd
  · exact fun _ => .start
  rintro ⟨chat, trace⟩ action d - h hstep hwords
  obtain ⟨next, events, hnext, rfl⟩ := Machine.traced_step.mp hstep
  rw [typedAt_append] at hwords ⊢
  rw [readAt_append]
  exact (h fun line hmem => hwords line (List.mem_append_left _ hmem)).step
    (Chat.direction_step hnext side) fun line hmem => hwords line (List.mem_append_right _ hmem)

/-- Nothing is left of what a side has to send. -/
structure Settled (side : Side) (c : Stack × List StackEvent) : Prop where
  stdin : (c.1.peers side).stdin = []
  packetRx : c.1.packetRx side = []
  outputRx : c.1.outputRx side.peer = []
  delivered : deliveredPayloads side.peer (linkTrace c.2) = submittedPayloads side (linkTrace c.2)

/-- The chat that the users see keeps the invariant of the direction from a side, if no control
word is typed there. -/
theorem exists_inv {addr : Addresses} {c : Stack × List StackEvent}
    (hc : (stackMachine addr).Reachable c) (hfits : Fits c.2) {side : Side}
    (hwords : ∀ line ∈ typedBy side (seenTrace c.2), ¬ IsControlWord line) :
    ∃ d : Chat × List ChatEvent, Mirrors c d ∧
      (d.1.direction side).Inv (typedBy side (seenTrace c.2)) (readAt side.peer d.2) ∧
      displayedBy side.peer (seenTrace c.2) = displayed (readAt side.peer d.2) := by
  obtain ⟨d, hd, hmirrors⟩ := mirrors_of_reachable hc
  have hlimited := hmirrors (hfits.withinLimits hc)
  rw [← hlimited.seen, typedBy_map_seen] at hwords ⊢
  exact ⟨d, hlimited, inv_of_typed hd hwords, displayedBy_map_seen side.peer d.2⟩

/-- Once nothing is left, all messages have been displayed. -/
theorem Settled.displayedBy_eq {addr : Addresses} {side : Side} {c : Stack × List StackEvent}
    (h : Settled side c) (hc : (stackMachine addr).Reachable c) (hfits : Fits c.2)
    (hwords : ∀ line ∈ typedBy side (seenTrace c.2), ¬ IsControlWord line) :
    displayedBy side.peer (seenTrace c.2) =
      (messages (typedBy side (seenTrace c.2))).map utf8 := by
  obtain ⟨d, hmirrors, hinv, hdisplayed⟩ := exists_inv hc hfits hwords
  obtain ⟨-, ahead, hchat, hsubmitted⟩ := hmirrors
  have hahead : ahead side = [] := by
    have hdelivered := delivered_eq_of_reachable hc side.peer
    rw [h.delivered, hsubmitted, h.outputRx, List.append_cancel_left_eq] at hdelivered
    simpa using hdelivered
  have hempty : (d.1.direction side).underWay = [] := by
    rw [hchat]
    simp [Direction.underWay, Chat.direction, Chat.behind, Stack.outgoing, hahead, h.stdin,
      h.packetRx, messages]
  rw [hdisplayed, hinv.conserved, hempty, List.map_nil, List.append_nil]

/-- What the other side sees of what is typed at a side. -/
structure Carried (side : Side) (c : Stack × List StackEvent) : Prop where
  /-- The messages are displayed in order, each once and unchanged. -/
  ordered : displayedBy side.peer (seenTrace c.2) <+:
    (messages (typedBy side (seenTrace c.2))).map utf8
  /-- What is read and not displayed is a control word. -/
  control : ∀ reading bytes, (reading, bytes) ∈ readBy side.peer (seenTrace c.2) →
    reading ≠ .displayed → ∃ word : ControlWord, bytes = utf8 word.text
  /-- Once nothing is left, all of them have been displayed. -/
  complete : Settled side c → displayedBy side.peer (seenTrace c.2) =
    (messages (typedBy side (seenTrace c.2))).map utf8

/-- Whatever the network loses, copies or reorders and however the tasks are scheduled, the
messages of a side that types no control word reach the screen of the other. -/
theorem carried_of_reachable {addr : Addresses} {c : Stack × List StackEvent}
    (hc : (stackMachine addr).Reachable c) (hfits : Fits c.2) {side : Side}
    (hwords : ∀ line ∈ typedBy side (seenTrace c.2), ¬ IsControlWord line) : Carried side c := by
  obtain ⟨d, hmirrors, hinv, hdisplayed⟩ := exists_inv hc hfits hwords
  refine ⟨?_, fun reading bytes hmem hother => ?_,
    fun hsettled => hsettled.displayedBy_eq hc hfits hwords⟩
  · rw [hdisplayed, hinv.conserved]
    exact List.prefix_append _ _
  · rw [← hmirrors.seen, readBy_map_seen, List.mem_map] at hmem
    obtain ⟨⟨reading, payload⟩, hread, heq⟩ := hmem
    cases heq
    have hmessage := hinv.control reading payload hread hother
    cases payload with
    | control word => exact ⟨word, rfl⟩
    | line text => cases hmessage

theorem carried_of_reachable_introduction : ∃ c,
    (stackMachine loopback).exec (stackMachine loopback).init introduction = some c ∧
      Carried .left c := by
  obtain ⟨c, hexec, hfits, htyped⟩ := exec_introduction
  refine ⟨c, hexec, carried_of_reachable ⟨introduction, hexec⟩ hfits ?_⟩
  rw [htyped]
  decide

end P2PNetworking.Peer
