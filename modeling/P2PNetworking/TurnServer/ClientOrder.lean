/-
# The order of one client's packets

Every queue keeps its order, so the packets of one client keep theirs as long as they
all wait in the queue of one shard.  The router does not choose the shard by a hash of
the address: it remembers the last one, and every session takes the next shard in turn.
A client that is registered again while packets of it wait therefore has packets in two
queues, which run at their own speeds.
-/

import P2PNetworking.TurnServer.Routing
import P2PNetworking.TurnServer.Ownership

namespace P2PNetworking.TurnServer

open P2PNetworking.Net P2PNetworking.Lib

variable {cfg : Config}

/-! ## Histories -/

/-- The packets whose receive the loop has processed, in order. -/
def routed (trace : List (RelayEvent cfg)) : List Packet :=
  trace.filterMap fun
    | .routed packet _ => some packet
    | _ => none

/-- The packets that went into the channel, in order. -/
def sent (trace : List (RelayEvent cfg)) : List Packet :=
  trace.filterMap fun
    | .handled _ packet (some _) => some packet
    | _ => none

/-- The buffers for which the loop has called `post_send_sqe`, in order. -/
def posted (trace : List (ServerEvent cfg)) : List UInt16 :=
  trace.filterMap fun
    | .postedSend idx _ _ => some idx
    | _ => none

/-- The packets that have reached `post_send_sqe`: the channel keeps its order. -/
def forwarded (trace : List (ServerEvent cfg)) : List Packet :=
  (sent (relayTrace trace)).take (posted trace).length

/-- The packets of one client. -/
def packetsOf (client : SocketAddr) (packets : List Packet) : List Packet :=
  packets.filter fun packet => packet.src = client

@[simp]
theorem routed_append (first second : List (RelayEvent cfg)) :
    routed (first ++ second) = routed first ++ routed second :=
  List.filterMap_append

@[simp]
theorem sent_append (first second : List (RelayEvent cfg)) :
    sent (first ++ second) = sent first ++ sent second :=
  List.filterMap_append

@[simp]
theorem posted_append (first second : List (ServerEvent cfg)) :
    posted (first ++ second) = posted first ++ posted second :=
  List.filterMap_append

@[simp]
theorem packetsOf_append (client : SocketAddr) (first second : List Packet) :
    packetsOf client (first ++ second) = packetsOf client first ++ packetsOf client second :=
  List.filter_append ..

/-! ## Waiting packets -/

/-- The packet in a message. -/
def MessageType.packet : MessageType → Option Packet
  | .addSession _ => none
  | .transmit packet => some packet

/-- The packets that a shard has in hand and in its queue, in order. -/
def Shard.waiting (shard : Shard) : List Packet :=
  shard.handling.toList ++ shard.recv.filterMap MessageType.packet

theorem Shard.waiting_push (shard : Shard) (msg : MessageType) :
    (shard.push msg).waiting = shard.waiting ++ msg.packet.toList := by
  cases msg <;> simp [waiting, push, MessageType.packet]

namespace Relay

/-- The packets of a client that wait in the shard it is routed to. -/
def waitingOf (relay : Relay cfg) (client : SocketAddr) : List Packet :=
  match relay.router.endpointToShard.lookup client with
  | none => []
  | some shard => packetsOf client (relay.shards shard).waiting

/-- Taking a message off a queue concerns neither the router nor the channel. -/
theorem frame_dequeue {relay next : Relay cfg} {shard : Fin cfg.shardNum}
    {sessionId : Uuid} (hstep : relay.dequeue shard sessionId = some next) :
    next.router = relay.router ∧ next.txOut = relay.txOut := by
  unfold dequeue at hstep
  split at hstep
  · cases hstep
    exact ⟨rfl, rfl⟩
  · cases hstep
    exact ⟨rfl, rfl⟩
  · cases hstep

/-- Taking a message off the queue leaves every packet where it is, or in hand. -/
theorem waiting_dequeue {relay next : Relay cfg} {shard : Fin cfg.shardNum}
    {sessionId : Uuid} (hstep : relay.dequeue shard sessionId = some next)
    (other : Fin cfg.shardNum) :
    (next.shards other).waiting = (relay.shards other).waiting := by
  have hkeep : ∀ state : Shard, state.waiting = (relay.shards shard).waiting →
      ((relay.setShard shard state).shards other).waiting = (relay.shards other).waiting := by
    intro state hstate
    by_cases heq : other = shard
    · subst heq
      rw [shards_setShard_self, hstate]
    · rw [shards_setShard_of_ne _ _ heq]
  unfold dequeue at hstep
  split at hstep
  · next session rest hhandling hrecv =>
    cases hstep
    apply hkeep
    simp only [Shard.waiting, hhandling, hrecv, Shard.recv_addSession,
      Shard.handling_addSession, Shard.recv_withQueue, Shard.handling_withQueue]
    rfl
  · next packet rest hhandling hrecv =>
    cases hstep
    apply hkeep
    simp [Shard.waiting, hhandling, hrecv, MessageType.packet]
  · cases hstep

/-- A session is queued and brings no packet. -/
theorem waiting_addSession (relay : Relay cfg) (session : Session)
    (shard : Fin cfg.shardNum) :
    ((relay.addSession session).shards shard).waiting = (relay.shards shard).waiting := by
  by_cases hroom : relay.HasRoom relay.router.next
  · rw [shards_addSession session hroom]
    by_cases heq : shard = relay.router.next
    · subst heq
      rw [shards_setShard_self, Shard.waiting_push]
      exact List.append_nil _
    · rw [shards_setShard_of_ne _ _ heq]
  · rw [shards_addSession_of_full session hroom]

end Relay

/-! ## Invariant -/

/-- A session that moves the client to the next shard leaves none of its packets
waiting in another one. -/
def LeavesNoneBehind (client : SocketAddr) (c : Relay cfg × List (RelayEvent cfg)) :
    RelayAction cfg → Prop
  | .addSession session => session.names client = true → ∀ shard,
      shard ≠ c.1.router.next → packetsOf client (c.1.shards shard).waiting = []
  | _ => True

instance (client : SocketAddr) (c : Relay cfg × List (RelayEvent cfg))
    (action : RelayAction cfg) : Decidable (LeavesNoneBehind client c action) :=
  match action with
  | .addSession session => inferInstanceAs (Decidable (session.names client = true →
      ∀ shard, shard ≠ c.1.router.next → packetsOf client (c.1.shards shard).waiting = []))
  | .route _ => .isTrue trivial
  | .dequeue _ _ => .isTrue trivial
  | .handle _ => .isTrue trivial
  | .take => .isTrue trivial

/-- All waiting packets of a client are in one place, and come after those sent. -/
structure OrderInv (client : SocketAddr) (c : Relay cfg × List (RelayEvent cfg)) : Prop where
  together : ∀ shard, packetsOf client (c.1.shards shard).waiting ≠ [] →
    c.1.router.endpointToShard.lookup client = some shard
  inOrder : (packetsOf client (sent c.2) ++ c.1.waitingOf client).Sublist
    (packetsOf client (routed c.2))

section OrderInv

variable {client : SocketAddr} {relay next : Relay cfg} {trace : List (RelayEvent cfg)}

theorem OrderInv.new (client : SocketAddr) : OrderInv client (Relay.new cfg, []) where
  together _ h := absurd rfl h
  inOrder := List.Sublist.refl []

/-- A step after which the same packets of the client wait in the same places. -/
theorem OrderInv.same (h : OrderInv client (relay, trace))
    (hlookup : next.router.endpointToShard.lookup client =
      relay.router.endpointToShard.lookup client)
    (hwaiting : ∀ shard, packetsOf client (next.shards shard).waiting =
      packetsOf client (relay.shards shard).waiting)
    {events : List (RelayEvent cfg)} (hevents : packetsOf client (sent events) = []) :
    OrderInv client (next, trace ++ events) := by
  have hsame : next.waitingOf client = relay.waitingOf client := by
    simp only [Relay.waitingOf, hlookup, hwaiting]
  refine ⟨fun shard hshard => ?_, ?_⟩
  · rw [hlookup]
    exact h.together shard (by rwa [← hwaiting])
  · simp only [sent_append, routed_append, packetsOf_append, hevents, hsame, List.append_nil]
    exact h.inOrder.trans (List.sublist_append_left _ _)

theorem OrderInv.addSession (h : OrderInv client (relay, trace)) {session : Session}
    (hguard : LeavesNoneBehind client (relay, trace) (.addSession session)) :
    OrderInv client (relay.addSession session, trace ++ [.added session]) := by
  have hwaiting := relay.waiting_addSession session
  have hlookup := relay.lookup_addSession session client
  cases hnames : session.names client with
  | false =>
      rw [hnames] at hlookup
      exact h.same hlookup (fun shard => by rw [hwaiting]) rfl
  | true =>
      rw [hnames, if_pos rfl] at hlookup
      have hothers : ∀ shard, shard ≠ relay.router.next →
          packetsOf client (relay.shards shard).waiting = [] := hguard hnames
      -- whatever waits in the next shard was routed there
      have hsame : ((relay.addSession session).waitingOf client).Sublist
          (relay.waitingOf client) := by
        simp only [Relay.waitingOf, hlookup, hwaiting]
        by_cases hnone : packetsOf client (relay.shards relay.router.next).waiting = []
        · rw [hnone]
          exact List.nil_sublist _
        · rw [h.together _ hnone]
      refine ⟨fun shard hshard => ?_, ?_⟩
      · rw [hlookup]
        rw [hwaiting] at hshard
        by_contra hne
        exact hshard (hothers shard fun heq => hne (heq ▸ rfl))
      · simp only [sent_append, routed_append, packetsOf_append]
        exact ((List.Sublist.refl _).append hsame).trans
          (by simpa [sent, routed, packetsOf] using h.inOrder)

theorem OrderInv.route (h : OrderInv client (relay, trace)) (packet : Packet) :
    OrderInv client ((relay.route packet).1,
      trace ++ [.routed packet (relay.route packet).2]) := by
  have hdropped : ∀ target, OrderInv client (relay, trace ++ [.routed packet target]) :=
    fun target => h.same rfl (fun _ => rfl) rfl
  unfold Relay.route
  split
  · exact hdropped none
  · next idx hlookup =>
    by_cases hroom : relay.HasRoom idx
    · simp only [Relay.enqueue, if_pos hroom]
      by_cases hsrc : packet.src = client
      · subst hsrc
        refine ⟨fun shard hshard => ?_, ?_⟩
        · by_cases heq : shard = idx
          · rw [heq]
            exact hlookup
          · rw [Relay.shards_setShard_of_ne _ _ heq] at hshard
            exact h.together shard hshard
        · have hold := h.inOrder
          simp only [Relay.waitingOf, Relay.router_setShard, hlookup,
            Relay.shards_setShard_self, Shard.waiting_push] at hold ⊢
          simp only [sent_append, routed_append, packetsOf_append, ← List.append_assoc]
          refine List.Sublist.append ?_ (List.Sublist.refl _)
          simpa [sent, packetsOf] using hold
      · refine h.same ?_ (fun shard => ?_) ?_
        · rfl
        · by_cases heq : shard = idx
          · subst heq
            rw [Relay.shards_setShard_self, Shard.waiting_push, packetsOf_append]
            simp [MessageType.packet, packetsOf, hsrc]
          · rw [Relay.shards_setShard_of_ne _ _ heq]
        · rfl
    · simp only [Relay.enqueue, if_neg hroom]
      exact hdropped none

theorem OrderInv.handle (h : OrderInv client (relay, trace)) {shard : Fin cfg.shardNum}
    {events : List (RelayEvent cfg)} (hstep : relay.handle shard = some (next, events)) :
    OrderInv client (next, trace ++ events) := by
  unfold Relay.handle at hstep
  split at hstep
  · cases hstep
  · next packet hhandling =>
    cases hstep
    have hrest : (relay.shards shard).waiting =
        packet :: ((relay.shards shard).withQueue (relay.shards shard).recv none).waiting := by
      simp [Shard.waiting, hhandling]
    by_cases hsrc : packet.src = client
    · subst hsrc
      have hhome := h.together shard (by simp [hrest, packetsOf])
      refine ⟨fun other hother => ?_, ?_⟩
      · by_cases heq : other = shard
        · rw [heq]
          exact hhome
        · exact h.together other (by simpa [Relay.shards_setShard_of_ne _ _ heq] using hother)
      · have hold := h.inOrder
        simp only [Relay.waitingOf, hhome, hrest] at hold
        simp only [Relay.waitingOf, Relay.router_setShard, hhome, Relay.shards_setShard_self,
          sent_append, routed_append, packetsOf_append]
        refine List.Sublist.trans ?_ (by simpa [routed, packetsOf] using hold)
        cases hsent : relay.sends shard packet with
        | none => simp [sent, packetsOf]
        | some entry => simp [sent, packetsOf]
    · refine h.same ?_ (fun other => ?_) ?_
      · rfl
      · by_cases heq : other = shard
        · subst heq
          simp [hrest, packetsOf, hsrc]
        · simp [Relay.shards_setShard_of_ne _ _ heq]
      · cases hsent : relay.sends shard packet with
        | none => rfl
        | some entry => simp [sent, packetsOf, hsrc]

theorem OrderInv.step (h : OrderInv client (relay, trace)) {action : RelayAction cfg}
    (hguard : LeavesNoneBehind client (relay, trace) action)
    {events : List (RelayEvent cfg)} (hstep : relay.step action = some (next, events)) :
    OrderInv client (next, trace ++ events) := by
  cases action with
  | addSession session =>
      cases hstep
      exact h.addSession hguard
  | route packet =>
      cases hstep
      exact h.route packet
  | dequeue shard sessionId =>
      obtain ⟨after, hdequeue, heq⟩ := Option.map_eq_some_iff.mp hstep
      cases heq
      refine h.same ?_ (fun other => ?_) rfl
      · rw [(Relay.frame_dequeue hdequeue).1]
      · rw [Relay.waiting_dequeue hdequeue]
  | handle shard => exact h.handle hstep
  | take =>
      simp only [Relay.step] at hstep
      split at hstep
      · cases hstep
      · cases hstep
        refine h.same ?_ (fun _ => ?_) ?_ <;> rfl

end OrderInv

/-! ## In the whole server -/

/-- The buffers that the channel holds, in order. -/
def Relay.leaving (relay : Relay cfg) : List UInt16 := relay.txOut.map fun entry => entry.2.2

theorem Relay.leaving_addSession (relay : Relay cfg) (session : Session) :
    (relay.addSession session).leaving = relay.leaving := by
  by_cases hroom : relay.HasRoom relay.router.next
  · simp [addSession, ShardRouter.nextShard, enqueue, hroom, leaving]
  · simp [addSession, ShardRouter.nextShard, enqueue, hroom, leaving]

theorem Relay.leaving_route (relay : Relay cfg) (packet : Packet) :
    (relay.route packet).1.leaving = relay.leaving := by
  unfold route enqueue
  split
  · rfl
  · split
    · rfl
    · next heq =>
      split at heq
      · cases heq
        rfl
      · cases heq

theorem Relay.leaving_handle {relay next : Relay cfg} {shard : Fin cfg.shardNum}
    {events : List (RelayEvent cfg)} (hstep : relay.handle shard = some (next, events)) :
    next.leaving = relay.leaving ++ (sent events).map Packet.bufIdx := by
  unfold handle at hstep
  split at hstep
  · cases hstep
  · next packet hhandling =>
    cases hstep
    cases hsent : relay.sends shard packet with
    | none => simp [leaving, sent]
    | some entry => simp [leaving, sent, buffer_of_sends hsent]

/-- What the shards have sent has been posted or is in the channel, in this order. -/
theorem sent_eq_posted {c : Server cfg × List (ServerEvent cfg)}
    (hc : (serverMachine cfg).Reachable c) :
    (sent (relayTrace c.2)).map Packet.bufIdx = posted c.2 ++ c.1.relay.leaving := by
  refine Machine.Reachable.induct (P := fun c : Server cfg × List (ServerEvent cfg) =>
    (sent (relayTrace c.2)).map Packet.bufIdx = posted c.2 ++ c.1.relay.leaving) rfl ?_ hc
  rintro ⟨server, trace⟩ action d - h hstep
  obtain ⟨next, events, hnext, rfl⟩ := Machine.traced_step.mp hstep
  have htransition : server.Transition action next events := Server.transition_of_step hnext
  -- one step: what is sent enters the channel behind, what is posted leaves it in front
  have hchannel : server.relay.leaving ++ (sent (relayTrace events)).map Packet.bufIdx =
      posted events ++ next.relay.leaving := by
    cases htransition with
    | rest _ _ _ _ _ hrelay => simp [hrelay, relayTrace, sent, posted]
    | addSession => simp [Relay.leaving_addSession, relayTrace, sent, posted]
    | postSend _ htxOut =>
        simp [Server.takeSend, htxOut, Relay.leaving, relayTrace, sent, posted]
    | arrival =>
        simp [Server.completeRecv, Relay.leaving_route, relayTrace, sent, posted]
    | dequeue hdequeue =>
        simp [Relay.leaving, (Relay.frame_dequeue hdequeue).2, relayTrace, sent, posted]
    | handle hhandle =>
        rw [relayTrace_map, Relay.leaving_handle hhandle]
        simp [posted, List.filterMap_map]
    | sent =>
        simp [Server.completeSend, Server.release, relayTrace, sent, posted]
    | notified => simp [Server.release, relayTrace, sent, posted]
    | _ => simp [Server.finish, Server.post, relayTrace, sent, posted]
  simp only [relayTrace_append, sent_append, posted_append, List.map_append]
  rw [h, List.append_assoc, hchannel, List.append_assoc]

/-- The packets of a client leave in the order in which they have come. -/
structure InOrder (client : SocketAddr) (trace : List (ServerEvent cfg)) : Prop where
  /-- The sends that were posted are those of these packets, in this order. -/
  posted : (forwarded trace).map Packet.bufIdx = posted trace
  /-- Those of the client are in the order in which the loop has processed their receives. -/
  order : (packetsOf client (forwarded trace)).Sublist
    (packetsOf client (routed (relayTrace trace)))

theorem map_forwarded {c : Server cfg × List (ServerEvent cfg)}
    (hc : (serverMachine cfg).Reachable c) :
    (forwarded c.2).map Packet.bufIdx = posted c.2 := by
  rw [forwarded, List.map_take, sent_eq_posted hc, List.take_left]

/-- A client's packets keep their order in every run in which no session of its leaves
some of them behind in the queue of another shard. -/
theorem inOrder_of_along {client : SocketAddr} {actions : List (ServerAction cfg)}
    {c : Server cfg × List (ServerEvent cfg)}
    (hexec : (serverMachine cfg).exec (serverMachine cfg).init actions = some c)
    (halong : (serverMachine cfg).Along ((relayComponent cfg).lift (LeavesNoneBehind client))
      (serverMachine cfg).init actions) : InOrder client c.2 := by
  have hinv : OrderInv client ((relayComponent cfg).view c) := by
    refine (relayComponent cfg).along_induct (.new client) ?_ hexec halong
    rintro ⟨relay, trace⟩ action d - h hguard hstep
    obtain ⟨next, events, hnext, rfl⟩ := Machine.traced_step.mp hstep
    exact h.step hguard hnext
  refine ⟨map_forwarded ⟨actions, hexec⟩, ?_⟩
  have hfirst : (packetsOf client (forwarded c.2)).Sublist
      (packetsOf client (sent (relayTrace c.2))) :=
    (List.take_sublist _ _).filter _
  exact hfirst.trans ((List.sublist_append_left _ _).trans hinv.inOrder)

theorem inOrder_of_along_relayOnce : ∃ server,
    (serverMachine .main).exec (serverMachine .main).init relayOnce =
      some (server, relayOnceTrace) ∧ InOrder (.v4 1 1) relayOnceTrace := by
  obtain ⟨server, hexec⟩ := exec_relayOnce
  refine ⟨server, hexec, inOrder_of_along hexec ?_⟩
  rw [serverMachine_init]
  decide +kernel

/-- A client sends two packets and is registered again between them; the second shard
is the faster one. -/
def overtaking : List (ServerAction .main) :=
  [.request (.addSession ⟨.v4 1 1, .v4 2 2⟩), .submit, .submit,
    .receive 0 (.v4 1 1) [1] 0, .loop 0 0, .loop 0 0, .loop 0 0, .loop 0 0, .loop 0 0, .loop 0 0,
    .loop 0 0, .request (.addSession ⟨.v4 1 1, .v4 2 2⟩), .receive 0 (.v4 1 1) [2] 0,
    .loop 0 0, .loop 0 0, .loop 0 0, .loop 0 0, .loop 0 0, .loop 0 0,
    .dequeue Config.secondShard (.replicate 16 2), .dequeue Config.secondShard (.replicate 16 2),
    .handle Config.secondShard,
    .dequeue Config.main.firstShard (.replicate 16 1),
    .dequeue Config.main.firstShard (.replicate 16 1), .handle Config.main.firstShard,
    .loop 0 0, .loop 0 0, .loop 0 0]

/-- The packet that came last is the first to be posted. -/
theorem second_packet_overtakes :
    ∃ c, (serverMachine .main).exec (serverMachine .main).init overtaking = some c ∧
      posted c.2 = [1022, 1023] ∧ ¬ InOrder (.v4 1 1) c.2 := by
  have hrun : ∃ c, (serverMachine .main).exec (.started .main, []) overtaking = some c ∧
      posted c.2 = [1022, 1023] ∧
      packetsOf (.v4 1 1) (forwarded c.2) = [⟨1022, 1, .v4 1 1⟩, ⟨1023, 1, .v4 1 1⟩] ∧
      packetsOf (.v4 1 1) (routed (relayTrace c.2)) =
        [⟨1023, 1, .v4 1 1⟩, ⟨1022, 1, .v4 1 1⟩] :=
    ⟨((serverMachine .main).exec (.started .main, []) overtaking).get (by decide +kernel),
      (Option.some_get _).symm, by decide +kernel, by decide +kernel, by decide +kernel⟩
  obtain ⟨c, hexec, hposted, hforwarded, hrouted⟩ := hrun
  refine ⟨c, by rw [serverMachine_init, hexec], hposted, fun h => ?_⟩
  have horder := h.order
  rw [hforwarded, hrouted] at horder
  revert horder
  decide

end P2PNetworking.TurnServer
