/-
# Registration

The loop registers a session in two places: it enqueues the session for a shard and
enters both endpoints in its own table.  The result of the first is not looked at, so
a full queue leaves endpoints routed to a shard that never hears of them.  Apart from
that every routed endpoint is known to its shard, or will be.
-/

import P2PNetworking.TurnServer.Routing

namespace P2PNetworking.TurnServer

open P2PNetworking.Net P2PNetworking.Lib

variable {cfg : Config}

/-! ## All or nothing -/

namespace Shard

/-- The shard has the endpoint in `session_id`, with a session that contains it. -/
def Knows (shard : Shard) (addr : SocketAddr) : Prop :=
  ∃ sessionId session, shard.sessionId.lookup addr = some sessionId ∧
    shard.sessionTable.lookup sessionId = some session ∧ session.names addr = true

/-- A session that names the endpoint waits in the queue of the shard. -/
def Awaits (shard : Shard) (addr : SocketAddr) : Prop :=
  ∃ session, .addSession session ∈ shard.recv ∧ session.names addr = true

theorem Sound.isSome_willKnow_iff {shard : Shard} (h : shard.Sound) (addr : SocketAddr) :
    (shard.willKnow addr).isSome ↔ shard.Knows addr ∨ shard.Awaits addr := by
  have hknows : (shard.known addr).isSome ↔ shard.Knows addr := by
    constructor
    · intro hsome
      obtain ⟨session, hknown⟩ := Option.isSome_iff_exists.mp hsome
      obtain ⟨sessionId, hid, hsession⟩ := Option.bind_eq_some_iff.mp hknown
      exact ⟨sessionId, session, hid, hsession, h.honest addr session hknown⟩
    · rintro ⟨sessionId, session, hid, hsession, -⟩
      simp [known, hid, hsession]
  rw [willKnow, isSome_knownAfter, hknows]
  rfl

end Shard

/-- Every routed endpoint is known to its shard or waits in its queue. -/
def Relay.Registered (relay : Relay cfg) : Prop :=
  ∀ addr shard, relay.router.endpointToShard.lookup addr = some shard →
    (relay.shards shard).Knows addr ∨ (relay.shards shard).Awaits addr

/-- A session finds room in the queue of its shard, or both its endpoints are routed
to that shard already. -/
def RegistersBoth (c : Relay cfg × List (RelayEvent cfg)) : RelayAction cfg → Prop
  | .addSession session => c.1.HasRoom c.1.router.next ∨
      c.1.router.endpointToShard.lookup session.hostAddr = some c.1.router.next ∧
      c.1.router.endpointToShard.lookup session.peerAddr = some c.1.router.next
  | _ => True

instance (c : Relay cfg × List (RelayEvent cfg)) (action : RelayAction cfg) :
    Decidable (RegistersBoth c action) :=
  match action with
  | .addSession _ => inferInstanceAs (Decidable (_ ∨ _ ∧ _))
  | .route _ => .isTrue trivial
  | .dequeue _ _ => .isTrue trivial
  | .handle _ => .isTrue trivial
  | .take => .isTrue trivial

/-- What makes an endpoint registered: its shard will know it. -/
structure ServedInv (relay : Relay cfg) : Prop where
  sound : relay.Sound
  served : ∀ addr shard, relay.router.endpointToShard.lookup addr = some shard →
    ((relay.shards shard).willKnow addr).isSome

theorem ServedInv.registered {relay : Relay cfg} (h : ServedInv relay) : relay.Registered :=
  fun addr shard hshard =>
    ((h.sound shard).isSome_willKnow_iff addr).mp (h.served addr shard hshard)

/-- A session changes no route when its endpoints have this one already. -/
theorem lookup_addSession_of_routed {relay : Relay cfg} {session : Session}
    (hhost : relay.router.endpointToShard.lookup session.hostAddr = some relay.router.next)
    (hpeer : relay.router.endpointToShard.lookup session.peerAddr = some relay.router.next)
    (addr : SocketAddr) :
    (relay.addSession session).router.endpointToShard.lookup addr =
      relay.router.endpointToShard.lookup addr := by
  rw [Relay.lookup_addSession]
  split
  · next hnames =>
    simp only [Session.names, Bool.or_eq_true, decide_eq_true_eq] at hnames
    rcases hnames with rfl | rfl
    · exact hhost.symm
    · exact hpeer.symm
  · rfl

theorem ServedInv.addSession {relay : Relay cfg} (h : ServedInv relay) {session : Session}
    {trace : List (RelayEvent cfg)}
    (hguard : RegistersBoth (relay, trace) (.addSession session)) :
    ServedInv (relay.addSession session) := by
  refine ⟨h.sound.addSession session, fun addr shard hshard => ?_⟩
  by_cases hroom : relay.HasRoom relay.router.next
  · rw [Relay.lookup_addSession] at hshard
    rw [Relay.willKnow_addSession session hroom]
    cases hnames : session.names addr with
    | true =>
        obtain rfl : relay.router.next = shard := by simpa [hnames] using hshard
        simp [Known.learn, hnames]
    | false =>
        have hold := h.served addr shard (by simpa [hnames] using hshard)
        split <;> simpa [Known.learn, hnames] using hold
  · obtain ⟨hhost, hpeer⟩ := hguard.resolve_left hroom
    rw [lookup_addSession_of_routed hhost hpeer] at hshard
    rw [Relay.shards_addSession_of_full session hroom]
    exact h.served addr shard hshard

theorem ServedInv.quiet {relay next : Relay cfg} (h : ServedInv relay)
    {events : List (RelayEvent cfg)} (hquiet : relay.Quiet next events) : ServedInv next := by
  refine ⟨hquiet.sound, fun addr shard hshard => ?_⟩
  rw [hquiet.router] at hshard
  rw [hquiet.willKnow]
  exact h.served addr shard hshard

/-- After a schedule whose sessions all register both endpoints, every routed endpoint
is registered. -/
theorem servedInv_of_along {actions : List (ServerAction cfg)}
    {c : Server cfg × List (ServerEvent cfg)}
    (hexec : (serverMachine cfg).exec (serverMachine cfg).init actions = some c)
    (hfresh : (serverMachine cfg).Along ((relayComponent cfg).lift FreshIds)
      (serverMachine cfg).init actions)
    (halong : (serverMachine cfg).Along ((relayComponent cfg).lift RegistersBoth)
      (serverMachine cfg).init actions) : ServedInv c.1.relay := by
  have hinit : ServedInv (relayMachine cfg).init.1 := ⟨.new cfg, fun addr shard h => by cases h⟩
  refine (relayComponent cfg).along_induct (P := fun d => ServedInv d.1) hinit ?_ hexec
    ((relayComponent cfg).along_lift_and hfresh halong)
  rintro ⟨relay, trace⟩ action d - h ⟨hid, hguard⟩ hstep
  obtain ⟨next, events, hnext, rfl⟩ := Machine.traced_step.mp hstep
  rcases Relay.step_cases h.sound hid hnext with ⟨session, rfl, rfl, rfl⟩ | hquiet
  · exact h.addSession hguard
  · exact h.quiet hquiet

/-- Registration is all or nothing along a schedule. -/
structure AllOrNothing (actions : List (ServerAction cfg)) : Prop where
  /-- In every state on the way each routed endpoint is known to its shard or waits in
  its queue, -/
  registered : ∀ before after d, actions = before ++ after →
    (serverMachine cfg).exec (serverMachine cfg).init before = some d → d.1.relay.Registered
  /-- and a session that finds no room leaves every route as it was. -/
  undone : ∀ before action after d session, actions = before ++ action :: after →
    (serverMachine cfg).exec (serverMachine cfg).init before = some d →
    relayShare d.1 action = some (.addSession session) →
    ¬ d.1.relay.HasRoom d.1.relay.router.next →
    ∀ addr, (d.1.relay.addSession session).router.endpointToShard.lookup addr =
      d.1.relay.router.endpointToShard.lookup addr

/-- Registration is all or nothing exactly along the schedules in which every session
finds room in the queue of its shard, or both its endpoints are routed there already. -/
theorem allOrNothing_iff_along {actions : List (ServerAction cfg)}
    {c : Server cfg × List (ServerEvent cfg)}
    (hexec : (serverMachine cfg).exec (serverMachine cfg).init actions = some c)
    (hfresh : (serverMachine cfg).Along ((relayComponent cfg).lift FreshIds)
      (serverMachine cfg).init actions) :
    AllOrNothing actions ↔ (serverMachine cfg).Along ((relayComponent cfg).lift RegistersBoth)
      (serverMachine cfg).init actions := by
  constructor
  · intro h
    rw [Machine.along_iff_forall]
    intro before action after d hsplit hd share hshare
    cases share with
    | addSession session =>
        refine or_iff_not_imp_left.mpr fun hfull => ?_
        have hrouted : ∀ addr, session.names addr = true →
            d.1.relay.router.endpointToShard.lookup addr = some d.1.relay.router.next := by
          intro addr hnames
          rw [← h.undone before action after d session hsplit hd hshare hfull,
            Relay.lookup_addSession, if_pos hnames]
        exact ⟨hrouted _ (by simp [Session.names]), hrouted _ (by simp [Session.names])⟩
    | _ => trivial
  · intro halong
    refine ⟨fun before after d hsplit hd => ?_,
      fun before action after d session hsplit hd hshare hfull addr => ?_⟩
    · subst hsplit
      exact (servedInv_of_along hd ((Machine.along_append hd).mp hfresh).1
        ((Machine.along_append hd).mp halong).1).registered
    · have hguard := Machine.along_iff_forall.mp halong before action after d hsplit hd _ hshare
      obtain ⟨hhost, hpeer⟩ := hguard.resolve_left hfull
      exact lookup_addSession_of_routed hhost hpeer addr

/-- A session that is registered and learnt by its shard. -/
def registerOne : List (ServerAction .main) :=
  [.request (.addSession ⟨.v4 1 1, .v4 2 2⟩), .loop 0 0, .loop 0 0,
    .dequeue Config.main.firstShard (.replicate 16 1)]

theorem allOrNothing_iff_along_registerOne :
    AllOrNothing registerOne ↔ (serverMachine .main).Along
      ((relayComponent .main).lift RegistersBoth) (serverMachine .main).init registerOne := by
  have hrun : ((serverMachine .main).exec (serverMachine .main).init registerOne).isSome := by
    rw [serverMachine_init]
    decide +kernel
  refine allOrNothing_iff_along (Option.some_get hrun).symm ?_
  rw [serverMachine_init]
  decide +kernel

/-! ### Full queues -/

section FullQueues

/-- The server after the loop has taken sessions only. -/
structure FilledTo (session : Session) (n : ℕ) (server : Server .main) : Prop where
  point : server.point = .control
  control : server.control = []
  next : server.relay.router.next = Config.main.firstShard
  /-- Both queues hold this many of them, and the shards have done nothing. -/
  shards : ∀ shard, server.relay.shards shard =
    Shard.new.withQueue (List.replicate n (.addSession session)) none

variable {session : Session}

/-- The first step of the loop after seeding. -/
theorem exec_loop_seeded {server : Server cfg} (hpoint : server.point = .seeded)
    (trace : List (ServerEvent cfg)) :
    (serverMachine cfg).exec (server, trace) [.loop 0 0] =
      some ({ server with sq := server.sq.refresh, point := .control }, trace) := by
  simp [Machine.exec_cons, serverMachine, Machine.traced, Server.step, Server.loop, hpoint]

/-- A request that the loop takes at once. -/
theorem exec_request (session : Session) (server : Server .main) (hpoint : server.point = .control)
    (hcontrol : server.control = []) (trace : List (ServerEvent .main)) :
    (serverMachine .main).exec (server, trace)
        [.request (.addSession session), .loop 0 0] =
      some ({ server with relay := server.relay.addSession session },
        trace ++ [.relay (.added session)]) := by
  have hroom : 0 < Config.main.controlCapacity := by decide
  obtain ⟨pool, sq, operations, cq, relay, control, point⟩ := server
  obtain rfl : point = .control := hpoint
  obtain rfl : control = [] := hcontrol
  simp [Machine.exec_cons, serverMachine, Machine.traced, Server.step, Server.loop,
    Server.takeControl, hroom]

/-- Two more sessions, one for each shard. -/
theorem FilledTo.addTwice {n : ℕ} {server : Server .main} (h : FilledTo session n server)
    (hn : n + 1 < Config.main.queueSize) :
    FilledTo session (n + 1)
      { server with relay := (server.relay.addSession session).addSession session } := by
  have hcases : ∀ shard, shard = Config.main.firstShard ∨ shard = Config.secondShard := by decide
  have hpush : (Shard.new.withQueue (List.replicate n (.addSession session)) none).push
      (.addSession session) =
        Shard.new.withQueue (List.replicate (n + 1) (.addSession session)) none := by
    rw [List.replicate_succ']
    rfl
  have hroom : server.relay.HasRoom server.relay.router.next := by
    simpa [Relay.HasRoom, h.shards] using hn
  have hfirst := Relay.shards_addSession session hroom
  have hnext : (server.relay.addSession session).router.next = Config.secondShard := by
    simp [Relay.addSession, ShardRouter.nextShard, h.next]
    rfl
  have hother : (server.relay.addSession session).shards Config.secondShard =
      server.relay.shards Config.secondShard := by
    rw [hfirst, h.next]
    exact Relay.shards_setShard_of_ne _ _ (by decide)
  have hroom' : (server.relay.addSession session).HasRoom
      (server.relay.addSession session).router.next := by
    rw [hnext]
    simpa [Relay.HasRoom, hother, h.shards] using hn
  refine ⟨h.point, h.control, ?_, fun shard => ?_⟩
  · simp [Relay.addSession, ShardRouter.nextShard, h.next]
    rfl
  · simp only [Relay.shards_addSession session hroom', hnext]
    rcases hcases shard with rfl | rfl
    · rw [Relay.shards_setShard_of_ne _ _ (by decide), hfirst, h.next,
        Relay.shards_setShard_self, h.shards, hpush]
    · rw [Relay.shards_setShard_self, hother, h.shards, hpush]

/-- As many pairs of requests for a session. -/
def requestPairs (session : Session) : ℕ → List (ServerAction .main)
  | 0 => []
  | n + 1 => requestPairs session n ++ ([.request (.addSession session), .loop 0 0] ++
      [.request (.addSession session), .loop 0 0])

theorem exists_filledTo (session : Session) {n : ℕ} (hn : n < Config.main.queueSize) :
    ∃ server trace, (serverMachine .main).exec (serverMachine .main).init
        (.loop 0 0 :: requestPairs session n) = some (server, trace) ∧
      FilledTo session n server := by
  induction n with
  | zero =>
      rw [serverMachine_init]
      have hpoint : (Server.started .main).point = .seeded := rfl
      have hstart := exec_loop_seeded hpoint []
      exact ⟨_, _, hstart, rfl, rfl, rfl, fun _ => rfl⟩
  | succ n ih =>
      obtain ⟨server, trace, hexec, hfilled⟩ := ih (by omega)
      have hfirst := exec_request session server hfilled.point hfilled.control trace
      have hsecond := exec_request session
        { server with relay := server.relay.addSession session }
        hfilled.point hfilled.control (trace ++ [.relay (.added session)])
      have hrun := Machine.exec_trans _ hexec (Machine.exec_trans _ hfirst hsecond)
      rw [List.cons_append] at hrun
      exact ⟨_, _, hrun, hfilled.addTwice hn⟩

/-- The sessions that fill both queues while the shards are busy, and one more. -/
def overfill : List (ServerAction .main) :=
  (.loop 0 0 :: requestPairs ⟨.v4 1 1, .v4 2 2⟩ 1499) ++
    [.request (.addSession ⟨.v4 3 3, .v4 4 4⟩), .loop 0 0]

/-- The endpoints of that one are routed to a shard that never hears of them. -/
theorem full_queue_strands_endpoints :
    ∃ c, (serverMachine .main).exec (serverMachine .main).init overfill = some c ∧
      ¬ c.1.relay.Registered := by
  obtain ⟨server, trace, hexec, hfilled⟩ :=
    exists_filledTo ⟨.v4 1 1, .v4 2 2⟩ (n := 1499) (by decide)
  have hlast := exec_request ⟨.v4 3 3, .v4 4 4⟩ _ hfilled.point hfilled.control trace
  refine ⟨_, Machine.exec_trans _ hexec hlast, fun hregistered => ?_⟩
  have hfull : ¬ server.relay.HasRoom server.relay.router.next := by
    have hlength : (server.relay.shards server.relay.router.next).recv.length = 1499 := by
      rw [hfilled.shards]
      exact List.length_replicate
    rw [Relay.HasRoom, hlength]
    decide
  have hrouted := Relay.lookup_addSession server.relay ⟨.v4 3 3, .v4 4 4⟩ (.v4 3 3)
  have hcase := hregistered (.v4 3 3) _ (hrouted.trans (if_pos (by decide)))
  simp only [Relay.shards_addSession_of_full _ hfull, hfilled.shards] at hcase
  rcases hcase with ⟨sessionId, session, hid, -⟩ | ⟨session, hmem, hnames⟩
  · cases hid
  · obtain ⟨-, hsame⟩ := List.mem_replicate.mp hmem
    cases hsame
    exact absurd hnames (by decide)

end FullQueues

end P2PNetworking.TurnServer
