/-
# The server always listens again

`udp_handler` deals with one datagram at a time.  Twice it may have to wait on the way: for room in
the channel to the manager, with the datagram in its hands, and for the manager's answer to a join.
Meanwhile nothing is read.  Neither wait lasts longer than the manager takes for what is in the
channel and for the message that is to go there.
-/

import P2PNetworking.Rendezvous.Service

namespace P2PNetworking.Rendezvous

open P2PNetworking.Net P2PNetworking.Lib
open UdpHandler (joinRequest)

/-! ## The datagram in hand -/

/-- The server, with the datagram that `udp_handler` has read and has not yet passed on. -/
structure Listening where
  server : Server
  inHand : Option Request

inductive ListeningAction
  /-- `recv_from` returns a datagram. -/
  | hear (request : Request)
  /-- `udp_handler` deals with it; for a message that takes room in the channel. -/
  | handle
  | manage
  | run (i : ℕ)
  | stop (i : ℕ)
  deriving DecidableEq

namespace Listening

/-- A step that leaves the datagram in hand alone. -/
def aside (listening : Listening) (action : ServiceAction) :
    Option (Listening × List ServiceEvent) :=
  (listening.server.service action).map fun done =>
    ({ listening with server := done.1 }, done.2)

def step (listening : Listening) : ListeningAction → Option (Listening × List ServiceEvent)
  | .hear request =>
      if listening.server.joining = none ∧ listening.inHand = none then
        some ({ listening with inHand := some request }, [])
      else none
  | .handle => listening.inHand.bind fun request =>
      (listening.server.service (.receive request)).map fun done => (⟨done.1, none⟩, done.2)
  | .manage => listening.aside .manage
  | .run i => listening.aside (.run i)
  | .stop i => listening.aside (.stop i)

/-- Every kind of step, with what it does. -/
inductive Transition (listening : Listening) :
    ListeningAction → Listening → List ServiceEvent → Prop
  | hear {request : Request} (hidle : listening.server.joining = none)
      (hempty : listening.inHand = none) :
      Transition listening (.hear request) { listening with inHand := some request } []
  | handle {request : Request} {server : Server} {events : List ServiceEvent}
      (hhand : listening.inHand = some request)
      (hserver : listening.server.service (.receive request) = some (server, events)) :
      Transition listening .handle ⟨server, none⟩ events
  | manage {server : Server} {events : List ServiceEvent}
      (hserver : listening.server.service .manage = some (server, events)) :
      Transition listening .manage { listening with server := server } events
  | run {i : ℕ} {server : Server} {events : List ServiceEvent}
      (hserver : listening.server.service (.run i) = some (server, events)) :
      Transition listening (.run i) { listening with server := server } events
  | stop {i : ℕ} {server : Server} {events : List ServiceEvent}
      (hserver : listening.server.service (.stop i) = some (server, events)) :
      Transition listening (.stop i) { listening with server := server } events

variable {listening next : Listening} {action : ListeningAction} {events : List ServiceEvent}

theorem aside_eq_some {action : ServiceAction}
    (hstep : listening.aside action = some (next, events)) : ∃ server,
      listening.server.service action = some (server, events) ∧
        next = { listening with server := server } := by
  obtain ⟨done, hdone, hsame⟩ := Option.map_eq_some_iff.mp hstep
  cases hsame
  exact ⟨done.1, hdone, rfl⟩

theorem transition_of_step (hstep : listening.step action = some (next, events)) :
    listening.Transition action next events := by
  cases action with
  | hear request =>
      simp only [step] at hstep
      split at hstep
      · next hready =>
        cases hstep
        exact .hear hready.1 hready.2
      · cases hstep
  | handle =>
      obtain ⟨request, hhand, hserver⟩ := Option.bind_eq_some_iff.mp hstep
      obtain ⟨done, hdone, hsame⟩ := Option.map_eq_some_iff.mp hserver
      cases hsame
      exact .handle hhand hdone
  | manage =>
      obtain ⟨server, hserver, rfl⟩ := aside_eq_some hstep
      exact .manage hserver
  | run i =>
      obtain ⟨server, hserver, rfl⟩ := aside_eq_some hstep
      exact .run hserver
  | stop i =>
      obtain ⟨server, hserver, rfl⟩ := aside_eq_some hstep
      exact .stop hserver

end Listening

/-- The server from its start, with `udp_handler` stopping where it may have to wait. -/
def listeningMachine : Machine (Listening × List ServiceEvent) ListeningAction :=
  .traced ⟨.new, none⟩ Listening.step

/-- But for what is in hand, the steps are those of the server. -/
theorem service_of_reachable {c : Listening × List ServiceEvent}
    (hc : listeningMachine.Reachable c) : serviceMachine.Reachable (c.1.server, c.2) := by
  refine Machine.Reachable.induct (P := fun c : Listening × List ServiceEvent =>
    serviceMachine.Reachable (c.1.server, c.2)) serviceMachine.reachable_init ?_ hc
  rintro ⟨listening, trace⟩ action d - h hstep
  obtain ⟨next, events, hnext, rfl⟩ := Machine.traced_step.mp hstep
  cases Listening.transition_of_step hnext with
  | hear =>
      rw [List.append_nil]
      exact h
  | handle _ hserver | manage hserver | run hserver | stop hserver =>
      exact h.step (Machine.traced_step.mpr ⟨_, _, hserver, rfl⟩)

/-! ## How long it waits -/

/-- How many messages the manager may still have to take. -/
def Listening.ahead (listening : Listening) : ℕ :=
  listening.server.inbox.length + listening.inHand.toList.length

/-- Until the next datagram is read, every round of the manager leaves one message fewer. -/
theorem Listening.Transition.ahead {listening next : Listening} {action : ListeningAction}
    {events : List ServiceEvent} (hstep : listening.Transition action next events)
    (hquiet : ∀ request, action ≠ .hear request) :
    (decide (action = .manage)).toNat + next.ahead ≤ listening.ahead := by
  cases hstep with
  | hear => exact absurd rfl (hquiet _)
  | handle hhand hserver =>
      cases Server.serviceStep_of_service hserver <;> simp [Listening.ahead, hhand]
  | manage hserver =>
      cases Server.serviceStep_of_service hserver with
      | created hinbox =>
          simp [Listening.ahead, hinbox]
          omega
      | joined hinbox =>
          simp [Listening.ahead, hinbox, Server.inbox_resume]
          omega
  | run hserver => cases Server.serviceStep_of_service hserver <;> simp [Listening.ahead]
  | stop hserver =>
      cases Server.serviceStep_of_service hserver with
      | stop => simp [Listening.ahead]

theorem ahead_le_of_reachable {c : Listening × List ServiceEvent}
    (hc : listeningMachine.Reachable c) : c.1.ahead ≤ channelCapacity + 1 := by
  have hroom := (patient_of_reachable (service_of_reachable hc)).room
  have hhand : c.1.inHand.toList.length ≤ 1 := by
    cases c.1.inHand <;> simp
  exact Nat.add_le_add hroom hhand

/-! ## It listens again -/

/-- `udp_handler` can read the next datagram. -/
def Listening.Idle (listening : Listening) : Prop :=
  listening.server.joining = none ∧ listening.inHand = none

/-- The server's own work for the clients: the manager and `udp_handler` go on, and nothing is
read. -/
def ListeningAction.Serves (action : ListeningAction) : Prop := action = .manage ∨ action = .handle

/-- How much of that work there is: a message in hand has to be passed on and taken. -/
def Listening.load (listening : Listening) : ℕ := listening.ahead + listening.inHand.toList.length

theorem Listening.Transition.load {listening next : Listening} {action : ListeningAction}
    {events : List ServiceEvent} (hstep : listening.Transition action next events)
    (hserves : action.Serves) : next.load < listening.load := by
  have hahead := hstep.ahead fun request heq => by
    rcases hserves with rfl | rfl <;> cases heq
  unfold Listening.load
  rcases hserves with rfl | rfl
  · cases hstep
    simp only [decide_true, Bool.toNat_true] at hahead
    dsimp only
    omega
  · cases hstep with
    | handle hhand =>
        simp [hhand] at hahead ⊢
        omega

/-- As long as the next datagram cannot be read, there is work that can be done. -/
theorem exists_serves {c : Listening × List ServiceEvent} (hc : listeningMachine.Reachable c)
    (hbusy : ¬ c.1.Idle) :
    ∃ action d, action.Serves ∧ listeningMachine.step c action = some d ∧ d.1.load < c.1.load := by
  have hawaits : Awaits c.1.server.joining c.1.server.inbox :=
    (patient_of_reachable (service_of_reachable hc)).awaits
  obtain ⟨action, next, events, hserves, hstep⟩ : ∃ action next events,
      action.Serves ∧ c.1.step action = some (next, events) := by
    by_cases hinbox : c.1.server.inbox = []
    · rw [hinbox] at hawaits
      have hidle : c.1.server.joining = none := hawaits
      obtain ⟨request, hhand⟩ := Option.ne_none_iff_exists'.mp fun hempty => hbusy ⟨hidle, hempty⟩
      obtain ⟨server, events, hreceive⟩ :=
        Server.exists_receive hidle (hinbox ▸ Nat.zero_lt_succ _) request
      refine ⟨.handle, ⟨server, none⟩, events, .inr rfl, ?_⟩
      simp [Listening.step, hhand, hreceive]
    · obtain ⟨server, events, hmanage⟩ := Server.exists_manage hinbox
      refine ⟨.manage, { c.1 with server := server }, events, .inl rfl, ?_⟩
      simp [Listening.step, Listening.aside, hmanage]
  exact ⟨action, _, hserves, Machine.traced_step.mpr ⟨next, events, hstep, rfl⟩,
    (Listening.transition_of_step hstep).load hserves⟩

/-- As long as nothing is read, the manager takes no more messages than the channel has places and
the one in hand. -/
theorem count_manage_le {c d : Listening × List ServiceEvent} (hc : listeningMachine.Reachable c)
    {actions : List ListeningAction} (hquiet : ∀ request, .hear request ∉ actions)
    (hexec : listeningMachine.exec c actions = some d) :
    actions.count .manage ≤ channelCapacity + 1 := by
  have hpay : ∀ c action d, (∀ request, action ≠ .hear request) →
      listeningMachine.step c action = some d →
        (decide (action = .manage)).toNat + d.1.ahead ≤ c.1.ahead := by
    intro c action d hquiet hstep
    obtain ⟨next, events, hnext, rfl⟩ := Machine.traced_step.mp hstep
    exact (Listening.transition_of_step hnext).ahead hquiet
  have hcount := Machine.countP_add_le hpay (fun action hmem request => ?_) hexec
  · exact Nat.le_trans (Nat.le_of_add_right_le hcount) (ahead_le_of_reachable hc)
  · rintro rfl
    exact hquiet request hmem

/-- Whatever the clients have sent and wherever the tasks are, the manager takes no more messages
before the next datagram is read than the channel has places and the one in hand, and once it has
taken so many at most the datagram can be read, whatever it is. -/
theorem listens_again {c : Listening × List ServiceEvent} (hc : listeningMachine.Reachable c) :
    (∀ actions d, (∀ request, .hear request ∉ actions) →
      listeningMachine.exec c actions = some d → actions.count .manage ≤ channelCapacity + 1) ∧
      ∃ actions d, (∀ action ∈ actions, action.Serves) ∧
        actions.count .manage ≤ channelCapacity + 1 ∧ listeningMachine.exec c actions = some d ∧
        ∀ request, ∃ e, listeningMachine.step d (.hear request) = some e := by
  refine ⟨fun actions d => count_manage_le hc, ?_⟩
  have hidle : listeningMachine.CanReach ListeningAction.Serves c fun d => d.1.Idle := by
    refine Machine.CanReach.of_measure (fun d => d.1.load)
      (fun d (hd : listeningMachine.Reachable d) hbusy => ?_) hc
    obtain ⟨action, e, hserves, hstep, hload⟩ := exists_serves hd hbusy
    exact .one hserves hstep ⟨hd.step hstep, hload⟩
  obtain ⟨actions, d, hserves, hexec, hd⟩ := hidle
  refine ⟨actions, d, hserves, count_manage_le hc (fun request hmem => ?_) hexec, hexec, ?_⟩
  · rcases hserves _ hmem with heq | heq <;> cases heq
  · exact fun request => ⟨_, Machine.traced_step.mpr ⟨_, [], if_pos hd, rfl⟩⟩

/-- As many lobbies are asked for as the channel has places, and then a join comes. -/
def crowd : List ListeningAction :=
  (List.replicate channelCapacity
    [.hear ⟨.v4 1 1, [lobbyCreate], .replicate 16 5⟩, .handle]).flatten ++ [.hear joinRequest]

theorem listens_again_crowd : ∃ c,
    listeningMachine.exec listeningMachine.init crowd = some c ∧
      c.1.inHand = some joinRequest ∧ listeningMachine.step c .handle = none ∧
      (∀ actions d, (∀ request, .hear request ∉ actions) →
        listeningMachine.exec c actions = some d → actions.count .manage ≤ 51) ∧
      ∃ actions d, (∀ action ∈ actions, action.Serves) ∧ actions.count .manage ≤ 51 ∧
        listeningMachine.exec c actions = some d ∧
        ∀ request, ∃ e, listeningMachine.step d (.hear request) = some e := by
  obtain ⟨c, hexec, hhand, hfull⟩ : ∃ c ∈ listeningMachine.exec listeningMachine.init crowd,
      c.1.inHand = some joinRequest ∧ (c.1.step .handle).isNone = true := by decide +kernel
  refine ⟨c, hexec, hhand, ?_, listens_again ⟨crowd, hexec⟩⟩
  simp [listeningMachine, Machine.traced, Option.isNone_iff_eq_none.mp hfull]

end P2PNetworking.Rendezvous
