/-
# Who is paired with whom

Where no session is lost, packets go by the last session that names their source.  A
session is learnt for both its endpoints at once, but an endpoint that is registered
again takes only its own entries along: the former partner is not told, and its packets
still go to the endpoint that has moved on.
-/

import P2PNetworking.TurnServer.Routing

namespace P2PNetworking.TurnServer

open P2PNetworking.Net P2PNetworking.Lib

variable {cfg : Config}

/-- Where a packet from an endpoint would go. -/
def Relay.destination (relay : Relay cfg) (src : SocketAddr) : Option SocketAddr :=
  (relay.router.endpointToShard.lookup src).bind fun shard =>
    ((relay.shards shard).handlePacket ⟨0, 0, src⟩).map fun entry => entry.1

/-- No session waits in a queue. -/
def Relay.Settled (relay : Relay cfg) : Prop :=
  ∀ shard session, .addSession session ∉ (relay.shards shard).recv

/-- Every session finds room in the queue of its shard. -/
def SessionsQueued (c : Relay cfg × List (RelayEvent cfg)) : RelayAction cfg → Prop
  | .addSession _ => c.1.HasRoom c.1.router.next
  | _ => True

instance (c : Relay cfg × List (RelayEvent cfg)) (action : RelayAction cfg) :
    Decidable (SessionsQueued c action) :=
  match action with
  | .addSession _ => inferInstanceAs (Decidable (c.1.HasRoom _))
  | .route _ => .isTrue trivial
  | .dequeue _ _ => .isTrue trivial
  | .handle _ => .isTrue trivial
  | .take => .isTrue trivial

/-- The last session that names an endpoint. -/
def lastNaming (sessions : List Session) (addr : SocketAddr) : Option Session :=
  sessions.reverse.find? fun session => session.names addr

theorem names_of_lastNaming {sessions : List Session} {addr : SocketAddr} {session : Session}
    (h : lastNaming sessions addr = some session) : session.names addr = true :=
  List.find?_some (p := fun session : Session => session.names addr) h

theorem lastNaming_eq_some {before after : List Session} {session : Session}
    {addr : SocketAddr} (hnames : session.names addr = true)
    (hafter : ∀ later ∈ after, later.names addr = false) :
    lastNaming (before ++ session :: after) addr = some session := by
  have hnone : after.reverse.find? (fun session => session.names addr) = none := by
    rw [List.find?_eq_none]
    intro later hmem
    rw [hafter later (List.mem_reverse.mp hmem)]
    decide
  simp [lastNaming, List.find?_append, hnone, hnames]

/-- With all sessions learnt a packet goes to the other endpoint of the last session
that names its source. -/
theorem KnowledgeInv.destination_eq {c : Relay cfg × List (RelayEvent cfg)}
    (h : KnowledgeInv c) (hsettled : c.1.Settled) (src : SocketAddr) :
    c.1.destination src = (lastNaming (added c.2) src).bind fun session =>
      session.routeTo src := by
  rw [lastNaming, ← Known.ofSessions_eq_find?, Relay.destination]
  cases hlookup : c.1.router.endpointToShard.lookup src with
  | none => rw [(h.unrouted src).mp hlookup, Option.bind_none, Option.bind_none]
  | some shard =>
      have hknown : (c.1.shards shard).known src = Known.ofSessions (added c.2) src := by
        rw [← h.routed src shard hlookup, Shard.willKnow,
          knownAfter_of_forall_ne _ (hsettled shard)]
      rw [Option.bind_some, Shard.handlePacket_eq_answer, Known.answer, hknown]
      cases Known.ofSessions (added c.2) src with
      | none => rfl
      | some session =>
          simp only [Option.bind_some, Option.map_map]
          cases session.routeTo src <;> rfl

/-- What pairing two endpoints amounts to. -/
structure PairedByLastSession (c : Relay cfg × List (RelayEvent cfg)) : Prop where
  /-- A packet goes to the other endpoint of the last session that names its source. -/
  destination : ∀ src, c.1.destination src =
    (lastNaming (added c.2) src).bind fun session => session.routeTo src
  /-- If packets from `x` go to `y`, those from `y` go to `x` exactly when the last
  session that names `y` names `x` too. -/
  returned : ∀ x y, c.1.destination x = some y →
    (c.1.destination y = some x ↔
      ∃ session, lastNaming (added c.2) y = some session ∧ session.names x = true)
  /-- So they do if no session that names `y` has come after the last one that names `x`, -/
  symmetric : ∀ before session after x y, added c.2 = before ++ session :: after →
    session.routeTo x = some y → (∀ later ∈ after, later.names x = false) →
    (∀ later ∈ after, later.names y = false) →
    c.1.destination x = some y ∧ c.1.destination y = some x
  /-- and an endpoint that has moved on is still reached from a partner that has not. -/
  stale : ∀ before session after x y, added c.2 = before ++ session :: after →
    session.routeTo x = some y → (∀ later ∈ after, later.names x = false) →
    c.1.destination x = some y

theorem KnowledgeInv.paired {c : Relay cfg × List (RelayEvent cfg)}
    (h : KnowledgeInv c) (hsettled : c.1.Settled) : PairedByLastSession c := by
  have hdest := h.destination_eq hsettled
  have hlast : ∀ before session after x y, added c.2 = before ++ session :: after →
      session.routeTo x = some y → (∀ later ∈ after, later.names x = false) →
      c.1.destination x = some y := by
    intro before session after x y hsplit hroute hafter
    rw [hdest, hsplit, lastNaming_eq_some (Session.names_of_routeTo hroute) hafter]
    exact hroute
  refine ⟨hdest, fun x y hxy => ?_, ?_, hlast⟩
  · rw [hdest, Option.bind_eq_some_iff]
    constructor
    · rintro ⟨session, hfound, hroute⟩
      exact ⟨session, hfound, Session.names_of_routeTo (Session.routeTo_symm hroute)⟩
    · rintro ⟨session, hfound, hnames⟩
      refine ⟨session, hfound, ?_⟩
      by_cases heq : y = x
      · subst heq
        rw [hdest, hfound] at hxy
        exact hxy
      · exact Session.routeTo_of_names (names_of_lastNaming hfound) hnames heq
  · intro before session after x y hsplit hroute hx hy
    exact ⟨hlast before session after x y hsplit hroute hx,
      hlast before session after y x hsplit (Session.routeTo_symm hroute) hy⟩

/-- Endpoints are paired by the last sessions that name them, as long as no session is
lost to a full queue. -/
theorem pairedByLastSession {actions : List (ServerAction cfg)}
    {c : Server cfg × List (ServerEvent cfg)}
    (hexec : (serverMachine cfg).exec (serverMachine cfg).init actions = some c)
    (hfresh : (serverMachine cfg).Along ((relayComponent cfg).lift FreshIds)
      (serverMachine cfg).init actions)
    (hqueued : (serverMachine cfg).Along ((relayComponent cfg).lift SessionsQueued)
      (serverMachine cfg).init actions)
    (hsettled : c.1.relay.Settled) : PairedByLastSession ((relayComponent cfg).view c) := by
  have hinv : KnowledgeInv ((relayComponent cfg).view c) := by
    refine (relayComponent cfg).along_induct (.new cfg) ?_ hexec
      ((relayComponent cfg).along_lift_and hfresh hqueued)
    rintro ⟨relay, trace⟩ action d - h ⟨hid, hroom⟩ hstep
    obtain ⟨next, events, hnext, rfl⟩ := Machine.traced_step.mp hstep
    rcases Relay.step_cases h.sound hid hnext with ⟨session, rfl, rfl, rfl⟩ | hquiet
    · exact h.addSession session hroom
    · exact h.quiet hquiet
  exact hinv.paired hsettled

/-- An endpoint is registered with one partner and then with another. -/
def moveOn : List (ServerAction .main) :=
  [.loop 0 0, .request (.addSession ⟨.v4 1 1, .v4 2 2⟩),
    .request (.addSession ⟨.v4 1 1, .v4 3 3⟩), .loop 0 0, .loop 0 0,
    .dequeue Config.main.firstShard (.replicate 16 1), .dequeue Config.secondShard (.replicate 16 2)]

theorem exec_moveOn : ∃ c, (serverMachine .main).exec (serverMachine .main).init moveOn = some c ∧
    c.1.relay.Settled ∧ c.1.relay.destination (.v4 2 2) = some (.v4 1 1) ∧
      c.1.relay.destination (.v4 1 1) = some (.v4 3 3) := by
  have hrun : ∃ c, (serverMachine .main).exec (.started .main, []) moveOn = some c ∧
      (∀ shard, (c.1.relay.shards shard).recv = []) ∧
      c.1.relay.destination (.v4 2 2) = some (.v4 1 1) ∧
      c.1.relay.destination (.v4 1 1) = some (.v4 3 3) :=
    ⟨((serverMachine .main).exec (.started .main, []) moveOn).get (by decide +kernel),
      (Option.some_get _).symm, by decide +kernel, by decide +kernel, by decide +kernel⟩
  obtain ⟨c, hexec, hempty, hback, hforth⟩ := hrun
  refine ⟨c, by rw [serverMachine_init, hexec], fun shard session hmem => ?_, hback, hforth⟩
  rw [hempty shard] at hmem
  cases hmem

theorem pairedByLastSession_moveOn :
    ∃ c, (serverMachine .main).exec (serverMachine .main).init moveOn = some c ∧
      PairedByLastSession ((relayComponent .main).view c) := by
  obtain ⟨c, hexec, hsettled, -, -⟩ := exec_moveOn
  refine ⟨c, hexec, pairedByLastSession hexec ?_ ?_ hsettled⟩
  · rw [serverMachine_init]
    decide +kernel
  · rw [serverMachine_init]
    decide +kernel

/-- The first partner still reaches the endpoint, which no longer reaches it. -/
theorem former_partner_reaches :
    ∃ c, (serverMachine .main).exec (serverMachine .main).init moveOn = some c ∧
      c.1.relay.Settled ∧ c.1.relay.destination (.v4 2 2) = some (.v4 1 1) ∧
      c.1.relay.destination (.v4 1 1) ≠ some (.v4 2 2) := by
  obtain ⟨c, hexec, hsettled, hback, hforth⟩ := exec_moveOn
  exact ⟨c, hexec, hsettled, hback, by rw [hforth]; decide⟩

end P2PNetworking.TurnServer
