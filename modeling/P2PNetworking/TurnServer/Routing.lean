/-
# Sharded routing refines the single table

The answer to a packet is spread out: the router picks the shard by its own
table, the shard's queue may still hold sessions that its tables lack, and other
shards keep stale entries.  What makes it right is that a shard, once it has
worked off its queue, will know of every endpoint routed to it exactly what the
loop knows now.  A packet appended to that queue will therefore be answered as
the single table of `first_impl` answers it at the time of routing.
-/

import P2PNetworking.TurnServer.EventLoop
import P2PNetworking.TurnServer.Knowledge

namespace P2PNetworking.TurnServer

open P2PNetworking.Net P2PNetworking.Lib

variable {cfg : Config}

/-! ## Histories -/

/-- The packets that a shard has dealt with, each with what it sent. -/
def handledBy (shard : Fin cfg.shardNum) (trace : List (RelayEvent cfg)) :
    List (Packet × Option SqeType) :=
  trace.filterMap fun
    | .handled actor packet sent => if actor = shard then some (packet, sent) else none
    | _ => none

/-- The packets routed to a shard, each with the answer of the first
implementation, which is given the same sessions and packets in the same order. -/
def answersFrom (shard : Fin cfg.shardNum) :
    FirstImpl.Shard → List (RelayEvent cfg) → List (Packet × Option SqeType)
  | _, [] => []
  | table, .added session :: rest => answersFrom shard (table.addSession session) rest
  | table, .routed packet target :: rest =>
      if target = some shard then
        (packet, table.handlePacket packet) :: answersFrom shard table rest
      else answersFrom shard table rest
  | table, .handled _ _ _ :: rest => answersFrom shard table rest

def answersTo (shard : Fin cfg.shardNum) (trace : List (RelayEvent cfg)) :
    List (Packet × Option SqeType) :=
  answersFrom shard .new trace

@[simp]
theorem handledBy_append (shard : Fin cfg.shardNum) (first second : List (RelayEvent cfg)) :
    handledBy shard (first ++ second) = handledBy shard first ++ handledBy shard second :=
  List.filterMap_append

theorem answersFrom_append (shard : Fin cfg.shardNum) (table : FirstImpl.Shard)
    (first second : List (RelayEvent cfg)) :
    answersFrom shard table (first ++ second) = answersFrom shard table first ++
      answersFrom shard ((added first).foldl FirstImpl.Shard.addSession table) second := by
  induction first generalizing table with
  | nil => rfl
  | cons event first ih =>
      cases event with
      | added session => exact ih (table.addSession session)
      | routed packet target =>
          simp only [List.cons_append, answersFrom, ih]
          split
          · rfl
          · rfl
      | handled actor packet sent => exact ih table

/-- The single table knows what the sessions so far say. -/
theorem known_afterSessions (trace : List (RelayEvent cfg)) :
    ((added trace).foldl FirstImpl.Shard.addSession .new).known =
      Known.ofSessions (added trace) := by
  rw [FirstImpl.Shard.known_foldl, FirstImpl.Shard.known_new]
  rfl

@[simp]
theorem answersTo_added (shard : Fin cfg.shardNum) (trace : List (RelayEvent cfg))
    (session : Session) :
    answersTo shard (trace ++ [.added session]) = answersTo shard trace := by
  simp [answersTo, answersFrom_append, answersFrom]

@[simp]
theorem answersTo_handled (shard actor : Fin cfg.shardNum) (trace : List (RelayEvent cfg))
    (packet : Packet) (sent : Option SqeType) :
    answersTo shard (trace ++ [.handled actor packet sent]) = answersTo shard trace := by
  simp [answersTo, answersFrom_append, answersFrom]

@[simp]
theorem answersTo_routed (shard : Fin cfg.shardNum) (trace : List (RelayEvent cfg))
    (packet : Packet) (target : Option (Fin cfg.shardNum)) :
    answersTo shard (trace ++ [.routed packet target]) = answersTo shard trace ++
      if target = some shard then
        [(packet, (Known.ofSessions (added trace)).answer packet)]
      else [] := by
  rw [answersTo, answersFrom_append]
  simp only [answersFrom, FirstImpl.Shard.handlePacket_eq_answer, known_afterSessions]
  split
  · rfl
  · rfl

/-! ## Queues -/

/-- The answers to the packets in a queue, given what is known before it. -/
def answers : Known → List MessageType → List (Packet × Option SqeType)
  | _, [] => []
  | known, .addSession session :: rest => answers (known.learn session) rest
  | known, .transmit packet :: rest => (packet, known.answer packet) :: answers known rest

theorem answers_append (known : Known) (first second : List MessageType) :
    answers known (first ++ second) =
      answers known first ++ answers (knownAfter known first) second := by
  induction first generalizing known with
  | nil => rfl
  | cons message first ih =>
      cases message with
      | addSession session => exact ih (known.learn session)
      | transmit packet => exact congrArg _ (ih known)

namespace Shard

/-- The answers that a shard still owes: to the packet in hand, then to its queue. -/
def pending (shard : Shard) : List (Packet × Option SqeType) :=
  shard.handling.toList.map (fun packet => (packet, shard.known.answer packet)) ++
    answers shard.known shard.recv

theorem pending_push (shard : Shard) (msg : MessageType) :
    (shard.push msg).pending = shard.pending ++ answers shard.willKnow [msg] := by
  simp [pending, push, answers_append, willKnow]

end Shard

/-! ## Invariant -/

/-- No queue overflows, and session ids are fresh in their shard. -/
def WithoutOverflow (c : Relay cfg × List (RelayEvent cfg)) : RelayAction cfg → Prop
  | .addSession _ => c.1.HasRoom c.1.router.next
  | .route packet => ∀ shard,
      c.1.router.endpointToShard.lookup packet.src = some shard → c.1.HasRoom shard
  | .dequeue shard sessionId => (c.1.shards shard).sessionTable.lookup sessionId = none
  | .handle _ => c.1.CanSend
  | .take => True

instance (c : Relay cfg × List (RelayEvent cfg)) (action : RelayAction cfg) :
    Decidable (WithoutOverflow c action) :=
  match action with
  | .addSession _ => inferInstanceAs (Decidable (c.1.HasRoom _))
  | .route packet => inferInstanceAs (Decidable (∀ shard,
      c.1.router.endpointToShard.lookup packet.src = some shard → c.1.HasRoom shard))
  | .dequeue _ _ => inferInstanceAs (Decidable (_ = none))
  | .handle _ => inferInstanceAs (Decidable c.1.CanSend)
  | .take => .isTrue trivial

/-- What one shard owes to the history. -/
structure ShardInv (shard : Fin cfg.shardNum) (state : Shard)
    (trace : List (RelayEvent cfg)) : Prop where
  closed : state.Closed
  honest : state.known.Honest
  answered : answersTo shard trace = handledBy shard trace ++ state.pending

/-- The relay and the single table agree on the endpoints of all sessions. -/
structure RoutingInv (c : Relay cfg × List (RelayEvent cfg)) : Prop where
  shards : ∀ shard, ShardInv shard (c.1.shards shard) c.2
  routed : ∀ addr shard, c.1.router.endpointToShard.lookup addr = some shard →
    (c.1.shards shard).willKnow addr = Known.ofSessions (added c.2) addr
  unrouted : ∀ addr, c.1.router.endpointToShard.lookup addr = none ↔
    Known.ofSessions (added c.2) addr = none
  targets : ∀ before packet target after, c.2 = before ++ .routed packet target :: after →
    (target = none ↔ Known.ofSessions (added before) packet.src = none)

theorem RoutingInv.new (cfg : Config) : RoutingInv (Relay.new cfg, []) where
  shards shard := ⟨Shard.closed_new, Known.honest_nothing, rfl⟩
  routed addr shard h := by cases h
  unrouted addr := ⟨fun _ => rfl, fun _ => rfl⟩
  targets before packet target after h := by simp at h

theorem RoutingInv.knowledge {c : Relay cfg × List (RelayEvent cfg)} (h : RoutingInv c) :
    KnowledgeInv c :=
  ⟨fun shard => ⟨(h.shards shard).closed, (h.shards shard).honest⟩, h.routed, h.unrouted⟩

/-- Where the router agrees with the shards, what is left are the answers and the targets. -/
theorem KnowledgeInv.routingInv {c : Relay cfg × List (RelayEvent cfg)} (h : KnowledgeInv c)
    (hanswered : ∀ shard, answersTo shard c.2 =
      handledBy shard c.2 ++ (c.1.shards shard).pending)
    (htargets : ∀ before packet target after,
      c.2 = before ++ .routed packet target :: after →
      (target = none ↔ Known.ofSessions (added before) packet.src = none)) : RoutingInv c :=
  ⟨fun shard => ⟨(h.sound shard).closed, (h.sound shard).honest, hanswered shard⟩,
    h.routed, h.unrouted, htargets⟩

/-- A guard against overflow asks for fresh ids. -/
theorem WithoutOverflow.freshIds {c : Relay cfg × List (RelayEvent cfg)}
    {action : RelayAction cfg} (h : WithoutOverflow c action) : FreshIds c action := by
  cases action with
  | dequeue shard sessionId =>
      simp only [FreshIds]
      split
      · exact h
      · trivial
  | _ => trivial

section Steps

variable {relay : Relay cfg} {trace : List (RelayEvent cfg)}

/-- A session goes to the next shard's queue, and both endpoints to that shard. -/
theorem RoutingInv.addSession (h : RoutingInv (relay, trace)) (session : Session)
    (hroom : relay.HasRoom relay.router.next) :
    RoutingInv (relay.addSession session, trace ++ [.added session]) := by
  refine (h.knowledge.addSession session hroom).routingInv (fun shard => ?_)
    fun before packet target after hsplit => ?_
  · have hold := (h.shards shard).answered
    rw [answersTo_added, hold]
    simp only [Relay.shards_addSession session hroom]
    by_cases hnext : shard = relay.router.next
    · subst hnext
      rw [Relay.shards_setShard_self, Shard.pending_push]
      simp [handledBy, answers]
    · rw [Relay.shards_setShard_of_ne _ _ hnext]
      simp [handledBy]
  · obtain ⟨-, hlast, -⟩ | ⟨rest, -, hold⟩ := Machine.split_concat hsplit
    · cases hlast
    · exact h.targets before packet target rest hold

/-- A packet of a known endpoint goes to the shard that will know it, and a packet
of an unknown one goes nowhere. -/
theorem RoutingInv.route (h : RoutingInv (relay, trace)) (packet : Packet)
    (hroom : ∀ shard, relay.router.endpointToShard.lookup packet.src = some shard →
      relay.HasRoom shard) :
    RoutingInv ((relay.route packet).1, trace ++ [.routed packet (relay.route packet).2]) := by
  refine (h.knowledge.quiet (Relay.quiet_route h.knowledge.sound packet)).routingInv
    (fun shard => ?_) fun before other result after hsplit => ?_
  · rw [answersTo_routed, (h.shards shard).answered]
    cases hlookup : relay.router.endpointToShard.lookup packet.src with
    | none =>
        have hroute : relay.route packet = (relay, none) := by
          simp only [Relay.route, hlookup]
        simp [hroute, handledBy]
    | some target =>
        have hroute : relay.route packet = (relay.setShard target
            ((relay.shards target).push (.transmit packet)), some target) := by
          simp only [Relay.route, hlookup, Relay.enqueue, if_pos (hroom target hlookup)]
        have hknown := h.routed packet.src target hlookup
        rw [hroute]
        by_cases htarget : shard = target
        · subst htarget
          rw [Relay.shards_setShard_self, Shard.pending_push]
          simp [handledBy, answers, Known.answer, hknown]
        · have hne : ¬ target = shard := fun heq => htarget heq.symm
          rw [Relay.shards_setShard_of_ne _ _ htarget]
          simp [handledBy, hne]
  · obtain ⟨rfl, hlast, -⟩ | ⟨rest, -, hold⟩ := Machine.split_concat hsplit
    · cases hlast
      have htarget : (relay.route packet).2 = none ↔
          relay.router.endpointToShard.lookup packet.src = none := by
        cases hlookup : relay.router.endpointToShard.lookup packet.src with
        | none => simp [Relay.route, hlookup]
        | some shard => simp [Relay.route, hlookup, Relay.enqueue, hroom shard hlookup]
      rw [htarget]
      exact h.unrouted packet.src
    · exact h.targets before other result rest hold

/-- A shard learns the next session of its queue, or takes the next packet. -/
theorem RoutingInv.dequeue (h : RoutingInv (relay, trace)) {shard : Fin cfg.shardNum}
    {sessionId : Uuid} (hfresh : (relay.shards shard).sessionTable.lookup sessionId = none)
    {next : Relay cfg} (hstep : relay.dequeue shard sessionId = some next) :
    RoutingInv (next, trace) := by
  have hguard : WithoutOverflow (relay, trace) (.dequeue shard sessionId) := hfresh
  have hknow := h.knowledge.quiet (Relay.quiet_dequeue h.knowledge.sound hguard.freshIds hstep)
  rw [List.append_nil] at hknow
  refine hknow.routingInv (fun other => ?_) h.targets
  rw [(h.shards other).answered]
  -- it is enough that the shard owes the same
  have hkeep : ∀ state : Shard, state.pending = (relay.shards shard).pending →
      (relay.shards other).pending = ((relay.setShard shard state).shards other).pending := by
    intro state hstate
    by_cases heq : other = shard
    · subst heq
      rw [Relay.shards_setShard_self, hstate]
    · rw [Relay.shards_setShard_of_ne _ _ heq]
  refine congrArg _ ?_
  unfold Relay.dequeue at hstep
  split at hstep
  · next session rest hhandling hrecv =>
    cases hstep
    have hlearn : (((relay.shards shard).withQueue rest none).addSession sessionId session).known =
        (relay.shards shard).known.learn session :=
      Shard.known_addSession (h.shards shard).closed hfresh session
    apply hkeep
    simp [Shard.pending, hlearn, hhandling, hrecv, answers]
  · next packet rest hhandling hrecv =>
    cases hstep
    apply hkeep
    simp [Shard.pending, hhandling, hrecv, answers]
  · cases hstep

/-- A shard answers the packet it has taken. -/
theorem RoutingInv.handle (h : RoutingInv (relay, trace)) {shard : Fin cfg.shardNum}
    (hroom : relay.CanSend) {next : Relay cfg} {events : List (RelayEvent cfg)}
    (hstep : relay.handle shard = some (next, events)) :
    RoutingInv (next, trace ++ events) := by
  have hknow := h.knowledge.quiet (Relay.quiet_handle h.knowledge.sound hstep)
  unfold Relay.handle at hstep
  split at hstep
  · cases hstep
  · next packet hhandling =>
    cases hstep
    have hsent : relay.sends shard packet = (relay.shards shard).known.answer packet := by
      rw [Relay.sends, if_pos hroom, Shard.handlePacket_eq_answer]
    refine hknow.routingInv (fun other => ?_) fun before other target after hsplit => ?_
    · rw [answersTo_handled, (h.shards other).answered, hsent]
      by_cases heq : other = shard
      · subst heq
        simp [handledBy, Shard.pending, hhandling]
      · have hne : ¬ shard = other := fun h => heq h.symm
        simp [Relay.shards_setShard_of_ne _ _ heq, handledBy, hne]
    · obtain ⟨-, hlast, -⟩ | ⟨rest, -, hold⟩ := Machine.split_concat hsplit
      · cases hlast
      · exact h.targets before other target rest hold

end Steps

/-- The invariant holds after every schedule without overflow. -/
theorem routingInv_of_along {actions : List (RelayAction cfg)}
    {c : Relay cfg × List (RelayEvent cfg)}
    (hexec : (relayMachine cfg).exec (relayMachine cfg).init actions = some c)
    (halong : (relayMachine cfg).Along WithoutOverflow (relayMachine cfg).init actions) :
    RoutingInv c := by
  refine Machine.along_induct (.new cfg) ?_ hexec halong
  rintro ⟨relay, trace⟩ action d - h hguard hstep
  obtain ⟨next, events, hnext, rfl⟩ := Machine.traced_step.mp hstep
  cases action with
  | addSession session =>
      cases hnext
      exact h.addSession session hguard
  | route packet =>
      cases hnext
      exact h.route packet hguard
  | dequeue shard sessionId =>
      simp only [Relay.step, Option.map_eq_some_iff, Prod.mk.injEq] at hnext
      obtain ⟨later, hdequeue, rfl, rfl⟩ := hnext
      rw [List.append_nil]
      exact h.dequeue hguard hdequeue
  | handle shard => exact h.handle hguard hnext
  | take =>
      simp only [Relay.step] at hnext
      split at hnext
      · cases hnext
      · cases hnext
        rw [List.append_nil]
        exact ⟨h.shards, h.routed, h.unrouted, h.targets⟩

/-! ## Refinement -/

/-- The relay behaves as the single table of `first_impl` does on the same
sessions and packets in the same order. -/
structure RefinesSingleTable (c : Relay cfg × List (RelayEvent cfg)) : Prop where
  /-- A packet goes nowhere exactly when no session before it names its source. -/
  dropped : ∀ before packet target after, c.2 = before ++ .routed packet target :: after →
    (target = none ↔ ∀ session ∈ added before, session.names packet.src = false)
  /-- For any other packet the single table has a message to the other endpoint of
  the last session before it that names its source. -/
  destination : ∀ before packet shard after,
    c.2 = before ++ .routed packet (some shard) :: after → ∃ session dst,
      (added before).reverse.find? (fun session => session.names packet.src) = some session ∧
      session.routeTo packet.src = some dst ∧
      ((added before).foldl FirstImpl.Shard.addSession .new).handlePacket packet =
        some (dst, packet.len, packet.bufIdx)
  /-- Every shard sends the messages of the single table, each once and in order, -/
  inOrder : ∀ shard, handledBy shard c.2 <+: answersTo shard c.2
  /-- and all of them once it has nothing left to do. -/
  complete : ∀ shard, (c.1.shards shard).handling = none → (c.1.shards shard).recv = [] →
    handledBy shard c.2 = answersTo shard c.2
  /-- The session found for a packet always has a route for it. -/
  routable : ∀ shard packet session, (c.1.shards shard).handling = some packet →
    (c.1.shards shard).known packet.src = some session → session.routeTo packet.src ≠ none

theorem RoutingInv.refinesSingleTable {c : Relay cfg × List (RelayEvent cfg)}
    (hinv : RoutingInv c) : RefinesSingleTable c := by
  constructor
  · intro before packet target after hsplit
    rw [hinv.targets before packet target after hsplit, Known.ofSessions_eq_find?]
    simp
  · intro before packet shard after hsplit
    have htarget := hinv.targets before packet (some shard) after hsplit
    cases hfound : Known.ofSessions (added before) packet.src with
    | none => exact absurd (htarget.mpr hfound) (by simp)
    | some session =>
        have hhonest : (Known.ofSessions (added before)).Honest :=
          Known.honest_ofSessions _
        obtain ⟨dst, hdst, hanswer⟩ := hhonest.exists_answer hfound
        refine ⟨session, dst, ?_, hdst, ?_⟩
        · rw [← Known.ofSessions_eq_find?, hfound]
        · rw [FirstImpl.Shard.handlePacket_eq_answer, known_afterSessions, hanswer]
  · intro shard
    exact ⟨_, (hinv.shards shard).answered.symm⟩
  · intro shard hhandling hrecv
    have hanswered := (hinv.shards shard).answered
    simpa [Shard.pending, hhandling, hrecv, answers] using hanswered.symm
  · intro shard packet session _ hknown hroute
    have hnames := (hinv.shards shard).honest packet.src session hknown
    rw [← Session.isSome_routeTo, hroute] at hnames
    cases hnames

/-- Sharded routing refines the single-table relay: after every schedule without
overflow, with any number of shards. -/
theorem routing_refines_singleTable {actions : List (RelayAction cfg)}
    {c : Relay cfg × List (RelayEvent cfg)}
    (hexec : (relayMachine cfg).exec (relayMachine cfg).init actions = some c)
    (halong : (relayMachine cfg).Along WithoutOverflow (relayMachine cfg).init actions) :
    RefinesSingleTable c :=
  (routingInv_of_along hexec halong).refinesSingleTable

/-- A session between two hosts, and one packet of each. -/
def onePacketEach : List (RelayAction .main) :=
  [.route ⟨7, 3, .v4 1 1⟩, .addSession ⟨.v4 1 1, .v4 2 2⟩, .route ⟨8, 4, .v4 1 1⟩,
    .route ⟨9, 5, .v4 2 2⟩, .dequeue Config.main.firstShard (.replicate 16 1),
    .dequeue Config.main.firstShard (.replicate 16 0), .handle Config.main.firstShard, .take,
    .dequeue Config.main.firstShard (.replicate 16 0), .handle Config.main.firstShard]

theorem routing_refines_singleTable_onePacketEach :
    ∃ c, (relayMachine .main).exec (relayMachine .main).init onePacketEach = some c ∧
      handledBy Config.main.firstShard c.2 = [(⟨8, 4, .v4 1 1⟩, some (.v4 2 2, 4, 8)),
        (⟨9, 5, .v4 2 2⟩, some (.v4 1 1, 5, 9))] ∧
      RefinesSingleTable c :=
  ⟨((relayMachine .main).exec (relayMachine .main).init onePacketEach).get (by decide +kernel),
    (Option.some_get _).symm, by decide +kernel,
    routing_refines_singleTable (Option.some_get _).symm (by decide +kernel)⟩

/-! ## The relay in the server -/

/-- The events of the relay. -/
def relayTrace (trace : List (ServerEvent cfg)) : List (RelayEvent cfg) :=
  trace.filterMap fun
    | .relay event => some event
    | _ => none

@[simp]
theorem relayTrace_append (first second : List (ServerEvent cfg)) :
    relayTrace (first ++ second) = relayTrace first ++ relayTrace second :=
  List.filterMap_append

@[simp]
theorem relayTrace_map (events : List (RelayEvent cfg)) :
    relayTrace (events.map ServerEvent.relay) = events := by
  simp [relayTrace, List.filterMap_map]

/-- What a step of the server asks of the relay. -/
def relayShare (server : Server cfg) : ServerAction cfg → Option (RelayAction cfg)
  | .loop _ _ =>
      match server.task with
      | .addSession session => some (.addSession session)
      | .postSend _ _ _ => some .take
      | .arrival idx len => some (.route ⟨idx, len, server.pool.getPeerAddr idx⟩)
      | _ => none
  | .dequeue shard sessionId => some (.dequeue shard sessionId)
  | .handle shard => some (.handle shard)
  | _ => none

/-- The relay takes the step it is asked for, or rests. -/
theorem Server.Transition.relay_step {server next : Server cfg} {action : ServerAction cfg}
    {events : List (ServerEvent cfg)} (h : server.Transition action next events) :
    match relayShare server action with
    | some share => server.relay.step share = some (next.relay, relayTrace events)
    | none => next.relay = server.relay ∧ relayTrace events = [] := by
  cases h with
  | rest htask _ _ _ _ hrelay =>
      simp only [relayShare, htask]
      exact ⟨hrelay, rfl⟩
  | addSession htask =>
      simp only [relayShare, htask]
      rfl
  | postSend htask htxOut =>
      simp only [relayShare, htask, Relay.step, Server.takeSend, htxOut]
      rfl
  | arrival htask =>
      simp only [relayShare, htask]
      rfl
  | sent htask =>
      simp only [relayShare, htask]
      exact ⟨rfl, rfl⟩
  | notified htask =>
      simp only [relayShare, htask]
      exact ⟨rfl, rfl⟩
  | dequeue hstep => simp [relayShare, Relay.step, hstep, relayTrace]
  | handle hstep => simp [relayShare, Relay.step, hstep]
  | request => exact ⟨rfl, rfl⟩
  | submit => exact ⟨rfl, rfl⟩
  | receive => exact ⟨rfl, rfl⟩
  | failReceive => exact ⟨rfl, rfl⟩
  | progressSend => exact ⟨rfl, rfl⟩
  | finishSend => exact ⟨rfl, rfl⟩

/-- The relay inside the server is a relay under some schedule. -/
def relayComponent (cfg : Config) : (serverMachine cfg).Component (relayMachine cfg) where
  view c := (c.1.relay, relayTrace c.2)
  share c action := relayShare c.1 action
  view_init := rfl
  step_share {c action d share} hstep hshare := by
    obtain ⟨next, events, hnext, rfl⟩ := Machine.traced_step.mp hstep
    have hrelay := (Server.transition_of_step hnext).relay_step
    rw [hshare] at hrelay
    rw [relayTrace_append]
    exact Machine.traced_step.mpr ⟨_, _, hrelay, rfl⟩
  step_rest {c action d} hstep hshare := by
    obtain ⟨next, events, hnext, rfl⟩ := Machine.traced_step.mp hstep
    have hrelay := (Server.transition_of_step hnext).relay_step
    rw [hshare] at hrelay
    rw [relayTrace_append, hrelay.1, hrelay.2, List.append_nil]

/-- The relay refines the single table inside the whole server as well, whatever the
kernel and the ring do. -/
theorem server_refines_singleTable {actions : List (ServerAction cfg)}
    {c : Server cfg × List (ServerEvent cfg)}
    (hexec : (serverMachine cfg).exec (serverMachine cfg).init actions = some c)
    (halong : (serverMachine cfg).Along ((relayComponent cfg).lift WithoutOverflow)
      (serverMachine cfg).init actions) :
    RefinesSingleTable ((relayComponent cfg).view c) :=
  (routingInv_of_along ((relayComponent cfg).exec_view hexec)
    ((relayComponent cfg).along_view hexec halong)).refinesSingleTable

end P2PNetworking.TurnServer
