/-
# Is there room in the queues of the relay?

A packet on its way through the relay has a buffer of the pool, and no other packet has the
same one.  So the packets in all queues and channels together are fewer than the buffers,
wherever they crowd, and only sessions can fill a queue: as long as few of them wait in
it, every message finds room.
-/

import P2PNetworking.TurnServer.Ownership
import Mathlib.Algebra.Order.BigOperators.Group.Finset

namespace P2PNetworking.TurnServer

open P2PNetworking.Net P2PNetworking.Lib

variable {cfg : Config}

/-! ## What the queues hold -/

def MessageType.isSession : MessageType → Bool
  | .addSession _ => true
  | .transmit _ => false

/-- The sessions in the queue. -/
def Shard.sessions (shard : Shard) : ℕ := shard.recv.countP MessageType.isSession

/-- A queue holds sessions, and packets with a buffer each. -/
theorem Shard.length_recv_add (shard : Shard) :
    shard.recv.length + shard.handling.toList.length =
      shard.sessions + Multiset.card shard.buffers := by
  have hqueue : ∀ queue : List MessageType, queue.length =
      queue.countP MessageType.isSession + (queue.filterMap MessageType.buffer).length := by
    intro queue
    induction queue with
    | nil => rfl
    | cons msg queue ih =>
        cases msg with
        | addSession session =>
            simp only [List.length_cons, List.countP_cons, MessageType.isSession, if_true,
              List.filterMap_cons, MessageType.buffer]
            omega
        | transmit packet =>
            simp only [List.length_cons, List.countP_cons, MessageType.isSession,
              Bool.false_eq_true, if_false, List.filterMap_cons, MessageType.buffer]
            omega
  rw [hqueue shard.recv]
  simp only [sessions, buffers, Multiset.card_add, Multiset.coe_card, List.length_map]
  omega

namespace Relay

/-- The buffers of one shard and of the channel are some of those on their way. -/
theorem card_buffers_add_le (relay : Relay cfg) (shard : Fin cfg.shardNum) :
    Multiset.card (relay.shards shard).buffers + relay.txOut.length ≤
      Multiset.card relay.inTransit := by
  have hone : (relay.shards shard).buffers ≤ ∑ shard, (relay.shards shard).buffers :=
    Finset.single_le_sum (f := fun shard => (relay.shards shard).buffers)
      (fun _ _ => Multiset.zero_le _) (Finset.mem_univ shard)
  have hcard := Multiset.card_le_card hone
  rw [inTransit, Multiset.card_add, Multiset.coe_card, List.length_map]
  omega

/-- A queue has room if it holds few sessions and few buffers are on their way. -/
theorem hasRoom_of_lt {relay : Relay cfg} {shard : Fin cfg.shardNum}
    (hlt : (relay.shards shard).sessions + Multiset.card relay.inTransit + 1 < cfg.queueSize) :
    relay.HasRoom shard := by
  have hlength := (relay.shards shard).length_recv_add
  have hbuffers := relay.card_buffers_add_le shard
  unfold HasRoom
  omega

theorem isSome_enqueue {relay : Relay cfg} {shard : Fin cfg.shardNum} {msg : MessageType} :
    (relay.enqueue shard msg).isSome ↔ relay.HasRoom shard := by
  unfold enqueue
  split
  · next hroom => simp [hroom]
  · next hfull => simp [hfull]

end Relay

/-! ## Steps that need room -/

namespace Server

/-- The shard to which the step gives a session. -/
def sessionFor (server : Server cfg) : ServerAction cfg → Option (Fin cfg.shardNum)
  | .loop _ _ =>
      match server.task with
      | .addSession _ => some server.relay.router.next
      | _ => none
  | _ => none

/-- The sessions that wait in the queue of a shard, with the one that the step adds. -/
def waitingSessions (server : Server cfg) (action : ServerAction cfg)
    (shard : Fin cfg.shardNum) : ℕ :=
  (server.relay.shards shard).sessions + if server.sessionFor action = some shard then 1 else 0

/-- In no queue there wait more sessions than it has room for beside the whole pool. -/
def FewSessions (server : Server cfg) (action : ServerAction cfg) : Prop :=
  ∀ shard, server.waitingSessions action shard ≤ cfg.queueSize - 1 - cfg.poolSize

instance (server : Server cfg) (action : ServerAction cfg) :
    Decidable (server.FewSessions action) :=
  inferInstanceAs (Decidable (∀ _ : Fin cfg.shardNum, _ ≤ _))

/-- What the step enqueues or sends finds room: the loop's session, the loop's packet if its
source is registered, and the shard's message if it has one. -/
def FindsRoom (server : Server cfg) : ServerAction cfg → Prop
  | .loop _ _ =>
      match server.task with
      | .addSession session =>
          (server.relay.enqueue server.relay.router.next (.addSession session)).isSome
      | .arrival idx len => ∀ shard,
          server.relay.router.endpointToShard.lookup (server.pool.getPeerAddr idx) = some shard →
            (server.relay.enqueue shard
              (.transmit ⟨idx, len, server.pool.getPeerAddr idx⟩)).isSome
      | _ => True
  | .handle shard => ∀ packet, (server.relay.shards shard).handling = some packet →
      ((server.relay.shards shard).handlePacket packet).isSome → server.relay.CanSend
  | _ => True

section Room

variable {c : Server cfg × List (ServerEvent cfg)} (hc : (serverMachine cfg).Reachable c)

include hc

theorem card_inTransit_le : Multiset.card c.1.relay.inTransit ≤ cfg.poolSize := by
  have hheld := card_held_le hc
  simp only [held, away, Multiset.card_add] at hheld
  omega

/-- The buffer of an arrival is not on its way yet. -/
theorem card_inTransit_lt {idx : UInt16} {len : ℕ} (htask : c.1.task = .arrival idx len) :
    Multiset.card c.1.relay.inTransit < cfg.poolSize := by
  have hheld := card_held_le hc
  have harrival : .arrival idx len ∈ c.1.completed :=
    mem_completed_of_task htask (.inl rfl)
  have harrived : 0 < (c.1.completed.filterMap Task.arrived).length :=
    List.length_pos_of_mem (List.mem_filterMap.mpr ⟨_, harrival, rfl⟩)
  simp only [held, away, Multiset.card_add, Multiset.coe_card] at hheld
  omega

/-- A packet in hand is not in the channel. -/
theorem canSend_of_handling (htx : cfg.poolSize ≤ cfg.txCapacity) {shard : Fin cfg.shardNum}
    {packet : Packet} (hhandling : (c.1.relay.shards shard).handling = some packet) :
    c.1.relay.CanSend := by
  have htransit := card_inTransit_le hc
  have hbuffers := c.1.relay.card_buffers_add_le shard
  have hhand : 0 < Multiset.card (c.1.relay.shards shard).buffers := by
    simp [Shard.buffers, hhandling]
  unfold Relay.CanSend
  omega

/-- With few sessions in the queues, whatever a step enqueues or sends finds room. -/
theorem FewSessions.findsRoom (hqueue : cfg.poolSize + 1 < cfg.queueSize)
    (htx : cfg.poolSize ≤ cfg.txCapacity) {action : ServerAction cfg}
    (hfew : c.1.FewSessions action) : c.1.FindsRoom action := by
  have htransit := card_inTransit_le hc
  cases action with
  | loop first second =>
      simp only [FindsRoom]
      split
      · next session htask =>
        have hwaiting := hfew c.1.relay.router.next
        simp only [waitingSessions, sessionFor, htask, if_true] at hwaiting
        exact Relay.isSome_enqueue.mpr (Relay.hasRoom_of_lt (by omega))
      · next idx len htask =>
        intro shard _
        have hwaiting := hfew shard
        have hless := card_inTransit_lt hc htask
        unfold waitingSessions at hwaiting
        exact Relay.isSome_enqueue.mpr (Relay.hasRoom_of_lt (by omega))
      · trivial
  | handle shard =>
      intro packet hhandling _
      exact canSend_of_handling hc htx hhandling
  | _ => trivial

end Room

end Server

/-- With the numbers of `main`: in every run with at most 475 sessions waiting in any one
queue, no queue and no channel of the relay is ever found full. -/
theorem findsRoom_of_fewSessions {actions : List (ServerAction .main)}
    (hfew : (serverMachine .main).Along (fun c action => c.1.FewSessions action)
      (serverMachine .main).init actions) :
    (serverMachine .main).Along (fun c action => c.1.FindsRoom action)
      (serverMachine .main).init actions := by
  rw [Machine.along_iff_forall] at hfew ⊢
  intro before action after c hsplit hexec
  exact (hfew before action after c hsplit hexec).findsRoom ⟨before, hexec⟩ (by decide) (by decide)

theorem findsRoom_of_fewSessions_relayOnce :
    (serverMachine .main).Along (fun c action => c.1.FindsRoom action)
      (serverMachine .main).init relayOnce := by
  refine findsRoom_of_fewSessions ?_
  rw [serverMachine_init]
  decide +kernel

end P2PNetworking.TurnServer
