/-
# What the shards know and will know

A shard learns of a session only when it takes it off its queue, so what it will
know once the queue is worked off is what counts for a packet that is queued now.
Of all the steps of the relay only one changes that: the loop taking a session from
the control channel.  Every other step moves messages along and leaves the router
alone.
-/

import P2PNetworking.TurnServer.Relay

namespace P2PNetworking.TurnServer

open P2PNetworking.Net P2PNetworking.Lib

variable {cfg : Config}

/-- The sessions that the loop has taken, in order. -/
def added (trace : List (RelayEvent cfg)) : List Session :=
  trace.filterMap fun
    | .added session => some session
    | _ => none

@[simp]
theorem added_append (first second : List (RelayEvent cfg)) :
    added (first ++ second) = added first ++ added second :=
  List.filterMap_append

/-! ## Queues -/

/-- What is known after a queue has been worked off. -/
def knownAfter : Known → List MessageType → Known
  | known, [] => known
  | known, .addSession session :: rest => knownAfter (known.learn session) rest
  | known, .transmit _ :: rest => knownAfter known rest

theorem knownAfter_append (known : Known) (first second : List MessageType) :
    knownAfter known (first ++ second) = knownAfter (knownAfter known first) second := by
  induction first generalizing known with
  | nil => rfl
  | cons message first ih =>
      cases message with
      | addSession session => exact ih (known.learn session)
      | transmit packet => exact ih known

/-- An endpoint will be known if it is known or a queued session names it. -/
theorem isSome_knownAfter (known : Known) (queue : List MessageType) (addr : SocketAddr) :
    (knownAfter known queue addr).isSome ↔ (known addr).isSome ∨
      ∃ session, .addSession session ∈ queue ∧ session.names addr = true := by
  induction queue generalizing known with
  | nil => simp [knownAfter]
  | cons message queue ih =>
      cases message with
      | transmit packet => simpa [knownAfter] using ih known
      | addSession session =>
          rw [knownAfter, ih, Known.learn]
          cases hnames : session.names addr with
          | true => simp [hnames]
          | false => simp [hnames]

/-- A queue without sessions teaches nothing. -/
theorem knownAfter_of_forall_ne (known : Known) {queue : List MessageType}
    (hqueue : ∀ session, .addSession session ∉ queue) : knownAfter known queue = known := by
  induction queue with
  | nil => rfl
  | cons message queue ih =>
      cases message with
      | addSession session => exact absurd List.mem_cons_self (hqueue session)
      | transmit packet => exact ih fun session hmem => hqueue session (.tail _ hmem)

namespace Shard

/-- What a shard will know when its queue is worked off. -/
def willKnow (shard : Shard) : Known := knownAfter shard.known shard.recv

theorem willKnow_push (shard : Shard) (msg : MessageType) :
    (shard.push msg).willKnow = knownAfter shard.willKnow [msg] := by
  simp [willKnow, push, knownAfter_append]

/-- The tables of a shard belong together. -/
structure Sound (shard : Shard) : Prop where
  closed : shard.Closed
  honest : shard.known.Honest

theorem Sound.new : Shard.new.Sound := ⟨closed_new, Known.honest_nothing⟩

theorem Sound.push {shard : Shard} (h : shard.Sound) (msg : MessageType) :
    (shard.push msg).Sound :=
  ⟨h.closed, h.honest⟩

theorem Sound.withQueue {shard : Shard} (h : shard.Sound) (recv : List MessageType)
    (handling : Option Packet) : (shard.withQueue recv handling).Sound :=
  ⟨h.closed, h.honest⟩

theorem Sound.addSession {shard : Shard} (h : shard.Sound) {sessionId : Uuid}
    (hfresh : shard.sessionTable.lookup sessionId = none) (session : Session) :
    (shard.addSession sessionId session).Sound := by
  refine ⟨h.closed.addSession sessionId session, ?_⟩
  rw [known_addSession h.closed hfresh]
  exact h.honest.learn session

end Shard

/-! ## Steps -/

/-- Session ids are fresh in their shard. -/
def FreshIds (c : Relay cfg × List (RelayEvent cfg)) : RelayAction cfg → Prop
  | .dequeue shard sessionId =>
      match (c.1.shards shard).recv with
      | .addSession _ :: _ => (c.1.shards shard).sessionTable.lookup sessionId = none
      | _ => True
  | _ => True

instance (c : Relay cfg × List (RelayEvent cfg)) (action : RelayAction cfg) :
    Decidable (FreshIds c action) :=
  match action with
  | .dequeue shard sessionId =>
      match hrecv : (c.1.shards shard).recv with
      | .addSession _ :: _ =>
          decidable_of_iff ((c.1.shards shard).sessionTable.lookup sessionId = none)
            (by simp [FreshIds, hrecv])
      | .transmit _ :: _ => .isTrue (by simp [FreshIds, hrecv])
      | [] => .isTrue (by simp [FreshIds, hrecv])
  | .addSession _ => .isTrue trivial
  | .route _ => .isTrue trivial
  | .handle _ => .isTrue trivial
  | .take => .isTrue trivial

namespace Relay

variable {relay next : Relay cfg}

/-- All shards are sound. -/
def Sound (relay : Relay cfg) : Prop := ∀ shard, (relay.shards shard).Sound

theorem Sound.new (cfg : Config) : (Relay.new cfg).Sound := fun _ => .new

theorem Sound.setShard (h : relay.Sound) {shard : Fin cfg.shardNum} {state : Shard}
    (hstate : state.Sound) : (relay.setShard shard state).Sound := by
  intro other
  by_cases heq : other = shard
  · subst heq
    rwa [shards_setShard_self]
  · rw [shards_setShard_of_ne _ _ heq]
    exact h other

/-- Another state of one shard that will know the same. -/
theorem willKnow_setShard {shard : Fin cfg.shardNum} {state : Shard}
    (hstate : state.willKnow = (relay.shards shard).willKnow) (other : Fin cfg.shardNum) :
    ((relay.setShard shard state).shards other).willKnow = (relay.shards other).willKnow := by
  by_cases heq : other = shard
  · subst heq
    rwa [shards_setShard_self]
  · rw [shards_setShard_of_ne _ _ heq]

/-- The loop's own tables after a session. -/
theorem lookup_addSession (relay : Relay cfg) (session : Session) (addr : SocketAddr) :
    (relay.addSession session).router.endpointToShard.lookup addr =
      if session.names addr then some relay.router.next
      else relay.router.endpointToShard.lookup addr := by
  simp only [addSession, ShardRouter.nextShard, Table.lookup_insert_eq_ite,
    Session.names, Bool.or_eq_true, decide_eq_true_eq]
  by_cases hpeer : addr = session.peerAddr
  · simp [hpeer]
  · simp [hpeer]

theorem shards_addSession {relay : Relay cfg} (session : Session)
    (hroom : relay.HasRoom relay.router.next) :
    (relay.addSession session).shards = (relay.setShard relay.router.next
      ((relay.shards relay.router.next).push (.addSession session))).shards := by
  simp [addSession, ShardRouter.nextShard, enqueue, hroom]

/-- A session that does not get into the queue reaches no shard. -/
theorem shards_addSession_of_full {relay : Relay cfg} (session : Session)
    (hfull : ¬ relay.HasRoom relay.router.next) :
    (relay.addSession session).shards = relay.shards := by
  simp [addSession, ShardRouter.nextShard, enqueue, hfull]

theorem Sound.addSession (h : relay.Sound) (session : Session) :
    (relay.addSession session).Sound := by
  unfold Sound
  by_cases hroom : relay.HasRoom relay.router.next
  · rw [shards_addSession session hroom]
    exact h.setShard ((h relay.router.next).push _)
  · rw [shards_addSession_of_full session hroom]
    exact h

/-- The shard that gets a session will know it, and the others notice nothing. -/
theorem willKnow_addSession {relay : Relay cfg} (session : Session)
    (hroom : relay.HasRoom relay.router.next) (shard : Fin cfg.shardNum) :
    ((relay.addSession session).shards shard).willKnow =
      if shard = relay.router.next then (relay.shards shard).willKnow.learn session
      else (relay.shards shard).willKnow := by
  rw [shards_addSession session hroom]
  split
  · next heq =>
    subst heq
    rw [shards_setShard_self, Shard.willKnow_push]
    rfl
  · next hne => rw [shards_setShard_of_ne _ _ hne]

/-- A step that moves messages along, and tells no shard anything new. -/
structure Quiet (relay next : Relay cfg) (events : List (RelayEvent cfg)) : Prop where
  sound : next.Sound
  willKnow : ∀ shard, (next.shards shard).willKnow = (relay.shards shard).willKnow
  router : next.router = relay.router
  added : added events = []

theorem quiet_setShard (h : relay.Sound) {shard : Fin cfg.shardNum} {state : Shard}
    (hsound : state.Sound) (hstate : state.willKnow = (relay.shards shard).willKnow)
    {events : List (RelayEvent cfg)} (hevents : TurnServer.added events = []) :
    Quiet relay (relay.setShard shard state) events :=
  ⟨h.setShard hsound, willKnow_setShard hstate, rfl, hevents⟩

theorem quiet_route (h : relay.Sound) (packet : Packet) :
    Quiet relay (relay.route packet).1 [.routed packet (relay.route packet).2] := by
  unfold route
  split
  · exact ⟨h, fun _ => rfl, rfl, rfl⟩
  · next idx hlookup =>
    by_cases hroom : relay.HasRoom idx
    · simp only [enqueue, if_pos hroom]
      refine quiet_setShard h ((h idx).push _) ?_ rfl
      rw [Shard.willKnow_push]
      rfl
    · simp only [enqueue, if_neg hroom]
      exact ⟨h, fun _ => rfl, rfl, rfl⟩

theorem quiet_dequeue (h : relay.Sound) {trace : List (RelayEvent cfg)}
    {shard : Fin cfg.shardNum} {sessionId : Uuid}
    (hfresh : FreshIds (relay, trace) (.dequeue shard sessionId))
    (hstep : relay.dequeue shard sessionId = some next) : Quiet relay next [] := by
  unfold dequeue at hstep
  split at hstep
  · next session rest hhandling hrecv =>
    cases hstep
    simp only [FreshIds, hrecv] at hfresh
    have hqueue : ((relay.shards shard).withQueue rest none).Sound := (h shard).withQueue _ _
    refine quiet_setShard h (hqueue.addSession hfresh session) ?_ rfl
    have hlearn := Shard.known_addSession hqueue.closed hfresh session
    simp [Shard.willKnow, hlearn, hrecv, knownAfter]
  · next packet rest hhandling hrecv =>
    cases hstep
    refine quiet_setShard h ((h shard).withQueue _ _) ?_ rfl
    simp [Shard.willKnow, hrecv, knownAfter]
  · cases hstep

theorem quiet_handle (h : relay.Sound) {shard : Fin cfg.shardNum}
    {events : List (RelayEvent cfg)} (hstep : relay.handle shard = some (next, events)) :
    Quiet relay next events := by
  unfold handle at hstep
  split at hstep
  · cases hstep
  · next packet hhandling =>
    cases hstep
    have hsame : ((relay.shards shard).withQueue (relay.shards shard).recv none).willKnow =
        (relay.shards shard).willKnow := rfl
    have hquiet : Quiet relay (relay.setShard shard
        ((relay.shards shard).withQueue (relay.shards shard).recv none))
        [.handled shard packet (relay.sends shard packet)] :=
      quiet_setShard h ((h shard).withQueue _ _) hsame rfl
    exact ⟨hquiet.sound, hquiet.willKnow, hquiet.router, hquiet.added⟩

/-- A step adds a session or is quiet. -/
theorem step_cases (h : relay.Sound) {trace : List (RelayEvent cfg)}
    {action : RelayAction cfg} (hfresh : FreshIds (relay, trace) action)
    {events : List (RelayEvent cfg)} (hstep : relay.step action = some (next, events)) :
    (∃ session, action = .addSession session ∧ next = relay.addSession session ∧
      events = [.added session]) ∨ Quiet relay next events := by
  cases action with
  | addSession session =>
      cases hstep
      exact .inl ⟨session, rfl, rfl, rfl⟩
  | route packet =>
      cases hstep
      exact .inr (quiet_route h packet)
  | dequeue shard sessionId =>
      simp only [step, Option.map_eq_some_iff, Prod.mk.injEq] at hstep
      obtain ⟨later, hdequeue, rfl, rfl⟩ := hstep
      exact .inr (quiet_dequeue h hfresh hdequeue)
  | handle shard => exact .inr (quiet_handle h hstep)
  | take =>
      simp only [step] at hstep
      split at hstep
      · cases hstep
      · cases hstep
        exact .inr ⟨h, fun _ => rfl, rfl, rfl⟩

end Relay

/-! ## The router against the shards -/

theorem ofSessions_added (trace : List (RelayEvent cfg)) (session : Session) :
    Known.ofSessions (added (trace ++ [.added session])) =
      (Known.ofSessions (added trace)).learn session := by
  rw [added_append]
  exact Known.ofSessions_concat _ _

/-- The shard that an endpoint is routed to will know of it what the sessions so far
say, and an endpoint that no session names is not routed. -/
structure KnowledgeInv (c : Relay cfg × List (RelayEvent cfg)) : Prop where
  sound : c.1.Sound
  routed : ∀ addr shard, c.1.router.endpointToShard.lookup addr = some shard →
    (c.1.shards shard).willKnow addr = Known.ofSessions (added c.2) addr
  unrouted : ∀ addr, c.1.router.endpointToShard.lookup addr = none ↔
    Known.ofSessions (added c.2) addr = none

section KnowledgeInv

variable {relay : Relay cfg} {trace : List (RelayEvent cfg)}

theorem KnowledgeInv.new (cfg : Config) : KnowledgeInv (Relay.new cfg, []) where
  sound := .new cfg
  routed addr shard h := by cases h
  unrouted addr := ⟨fun _ => rfl, fun _ => rfl⟩

/-- A session goes to the next shard's queue, and both endpoints to that shard. -/
theorem KnowledgeInv.addSession (h : KnowledgeInv (relay, trace)) (session : Session)
    (hroom : relay.HasRoom relay.router.next) :
    KnowledgeInv (relay.addSession session, trace ++ [.added session]) := by
  refine ⟨h.sound.addSession session, fun addr shard hshard => ?_, fun addr => ?_⟩
  · simp only [Relay.lookup_addSession] at hshard
    simp only [ofSessions_added, Relay.willKnow_addSession session hroom]
    cases hnames : session.names addr with
    | true =>
        obtain rfl : relay.router.next = shard := by simpa [hnames] using hshard
        simp [Known.learn, hnames]
    | false =>
        have hold := h.routed addr shard (by simpa [hnames] using hshard)
        split <;> simpa [Known.learn, hnames] using hold
  · simp only [Relay.lookup_addSession, ofSessions_added, Known.learn]
    cases session.names addr with
    | true => simp
    | false => simpa using h.unrouted addr

theorem KnowledgeInv.quiet (h : KnowledgeInv (relay, trace)) {next : Relay cfg}
    {events : List (RelayEvent cfg)} (hquiet : relay.Quiet next events) :
    KnowledgeInv (next, trace ++ events) := by
  have hadded : added (trace ++ events) = added trace := by
    rw [added_append, hquiet.added, List.append_nil]
  refine ⟨hquiet.sound, fun addr shard hshard => ?_, fun addr => ?_⟩
  · simp only [hquiet.router, hquiet.willKnow, hadded] at hshard ⊢
    exact h.routed addr shard hshard
  · simp only [hquiet.router, hadded]
    exact h.unrouted addr

end KnowledgeInv

end P2PNetworking.TurnServer
