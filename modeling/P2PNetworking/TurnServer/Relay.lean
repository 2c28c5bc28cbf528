/-
# Router and shards

The relaying half of the server: `ShardRouter` belongs to the event loop, each
`Shard` to a thread of its own, and between them stand one single-producer queue
for each shard and one channel back.  A shard thread takes a message off its queue
and, if it is a packet, then looks its source up and answers; the loop may do
anything in between.

A `heapless` queue of size `N` holds `N - 1` messages.  A fresh session id is
chosen by the surroundings.
-/

import P2PNetworking.TurnServer.Session
import P2PNetworking.Lib.Machine
import Mathlib.Logic.Function.Basic

namespace P2PNetworking.TurnServer

open P2PNetworking.Net P2PNetworking.Lib

/-- The numbers that `main` fixes. -/
structure Config where
  /-- `SHARD_NUM`. -/
  shardNum : ℕ
  /-- The size parameter of `SHARD_QUEUES`. -/
  queueSize : ℕ
  /-- The capacity of the channel to the loop. -/
  txCapacity : ℕ
  /-- The capacity of the channel from the control service. -/
  controlCapacity : ℕ
  /-- `POOL_SIZE`. -/
  poolSize : ℕ
  /-- The entries of the submission queue. -/
  ringEntries : ℕ
  shardNum_pos : 0 < shardNum
  /-- Buffer indices are 16-bit. -/
  poolSize_le : poolSize ≤ 2 ^ 16
  /-- The ring is built for one entry per buffer. -/
  poolSize_le_ringEntries : poolSize ≤ ringEntries

/-- The configuration of `main.rs`. -/
def Config.main : Config where
  shardNum := 2
  queueSize := bufferSize
  txCapacity := 1024 * 2
  controlCapacity := 1024
  poolSize := 1024
  ringEntries := 1024
  shardNum_pos := by decide
  poolSize_le := by decide
  poolSize_le_ringEntries := by decide

/-- Shard 0. -/
def Config.firstShard (cfg : Config) : Fin cfg.shardNum := ⟨0, cfg.shardNum_pos⟩

/-- Shard 1 of `main.rs`. -/
def Config.secondShard : Fin Config.main.shardNum := ⟨1, by decide⟩

/-! ## Shards -/

/-- A shard with its queue; `handling` is the packet that the thread has taken
off the queue and not dealt with yet. -/
structure Shard where
  recv : List MessageType
  handling : Option Packet
  sessionTable : Table Uuid Session
  sessionId : Table SocketAddr Uuid

namespace Shard

def new : Shard := ⟨[], none, ∅, ∅⟩

/-- The queue and the packet in hand change, the tables do not. -/
def withQueue (shard : Shard) (recv : List MessageType) (handling : Option Packet) : Shard :=
  { shard with recv := recv, handling := handling }

@[simp]
theorem recv_withQueue (shard : Shard) (recv : List MessageType) (handling : Option Packet) :
    (shard.withQueue recv handling).recv = recv := rfl

@[simp]
theorem handling_withQueue (shard : Shard) (recv : List MessageType)
    (handling : Option Packet) : (shard.withQueue recv handling).handling = handling := rfl

/-- A message is appended to the queue. -/
def push (shard : Shard) (msg : MessageType) : Shard :=
  shard.withQueue (shard.recv ++ [msg]) shard.handling

/-- `add_session`, and the same lines of `run`. -/
def addSession (shard : Shard) (sessionId : Uuid) (session : Session) : Shard :=
  { shard with
    sessionId := (shard.sessionId.insert session.hostAddr sessionId).insert
      session.peerAddr sessionId
    sessionTable := shard.sessionTable.insert sessionId session }

/-- The message that `handle_packet` passes to `try_send`, if it gets there. -/
def handlePacket (shard : Shard) (packet : Packet) : Option SqeType :=
  match shard.sessionId.lookup packet.src with
  | none => none
  | some sessionId =>
      match shard.sessionTable.lookup sessionId with
      | none => none
      | some session =>
          match session.routeTo packet.src with
          | some dst => some (dst, packet.len, packet.bufIdx)
          | none => none

/-- What the two tables say together. -/
def known (shard : Shard) : Known := fun addr =>
  (shard.sessionId.lookup addr).bind fun sessionId => shard.sessionTable.lookup sessionId

@[simp]
theorem known_withQueue (shard : Shard) (recv : List MessageType) (handling : Option Packet) :
    (shard.withQueue recv handling).known = shard.known := rfl

theorem handlePacket_eq_answer (shard : Shard) (packet : Packet) :
    shard.handlePacket packet = shard.known.answer packet := by
  unfold handlePacket Known.answer known
  cases shard.sessionId.lookup packet.src with
  | none => rfl
  | some sessionId =>
      simp only [Option.bind_some]
      cases shard.sessionTable.lookup sessionId with
      | none => rfl
      | some session =>
          simp only [Option.bind_some]
          cases session.routeTo packet.src <;> rfl

/-- Every session id in use is in the table. -/
def Closed (shard : Shard) : Prop :=
  ∀ addr sessionId, shard.sessionId.lookup addr = some sessionId →
    (shard.sessionTable.lookup sessionId).isSome

theorem closed_new : new.Closed := by
  intro addr sessionId h
  cases h

@[simp]
theorem closed_withQueue (shard : Shard) (recv : List MessageType) (handling : Option Packet) :
    (shard.withQueue recv handling).Closed ↔ shard.Closed := Iff.rfl

theorem Closed.addSession {shard : Shard} (h : shard.Closed) (sessionId : Uuid)
    (session : Session) : (shard.addSession sessionId session).Closed := by
  intro addr other hother
  simp only [Shard.addSession, Table.lookup_insert_eq_ite] at hother ⊢
  split
  · rfl
  · next hne =>
    apply h addr other
    split at hother
    · exact absurd (Option.some.inj hother).symm hne
    · split at hother
      · exact absurd (Option.some.inj hother).symm hne
      · exact hother

@[simp]
theorem recv_addSession (shard : Shard) (sessionId : Uuid) (session : Session) :
    (shard.addSession sessionId session).recv = shard.recv := rfl

@[simp]
theorem handling_addSession (shard : Shard) (sessionId : Uuid) (session : Session) :
    (shard.addSession sessionId session).handling = shard.handling := rfl

/-- With a fresh id the tables learn the session, whatever they held. -/
theorem known_addSession {shard : Shard} (h : shard.Closed) {sessionId : Uuid}
    (hfresh : shard.sessionTable.lookup sessionId = none) (session : Session) :
    (shard.addSession sessionId session).known = shard.known.learn session := by
  funext addr
  simp only [known, addSession, Known.learn, Session.names, Table.lookup_insert_eq_ite,
    Bool.or_eq_true, decide_eq_true_eq]
  by_cases hpeer : addr = session.peerAddr
  · simp [hpeer]
  · by_cases hhost : addr = session.hostAddr
    · simp [hhost]
    · simp only [hpeer, hhost, if_false, or_self]
      cases hid : shard.sessionId.lookup addr with
      | none => rfl
      | some other =>
          have hne : other ≠ sessionId := by
            rintro rfl
            have hused := h addr other hid
            rw [hfresh] at hused
            cases hused
          simp [hne]

end Shard

/-! ## Router -/

/-- Where each endpoint's packets go, and where the next session goes. -/
structure ShardRouter (shardNum : ℕ) where
  endpointToShard : Table SocketAddr (Fin shardNum)
  next : Fin shardNum

/-- `next_shard`: shards are used in turn. -/
def ShardRouter.nextShard {shardNum : ℕ} (router : ShardRouter shardNum) :
    Fin shardNum × ShardRouter shardNum :=
  (router.next, { router with
    next := ⟨(router.next + 1) % shardNum, Nat.mod_lt _ router.next.pos⟩ })

/-- Router, shards, and the channel back to the loop. -/
structure Relay (cfg : Config) where
  router : ShardRouter cfg.shardNum
  shards : Fin cfg.shardNum → Shard
  txOut : List SqeType

/-- What the loop and the shards do with sessions and packets. -/
inductive RelayEvent (cfg : Config)
  /-- The loop took the session from the control channel. -/
  | added (session : Session)
  /-- The loop routed the packet, onto the queue of a shard or nowhere. -/
  | routed (packet : Packet) (target : Option (Fin cfg.shardNum))
  /-- The shard dealt with the packet; `sent` is what went into the channel. -/
  | handled (shard : Fin cfg.shardNum) (packet : Packet) (sent : Option SqeType)
  deriving DecidableEq

inductive RelayAction (cfg : Config)
  /-- The loop handles `AddSession`. -/
  | addSession (session : Session)
  /-- The loop routes a received packet. -/
  | route (packet : Packet)
  /-- A shard thread takes a message off its queue. -/
  | dequeue (shard : Fin cfg.shardNum) (sessionId : Uuid)
  /-- A shard thread deals with the packet it has taken. -/
  | handle (shard : Fin cfg.shardNum)
  /-- The loop takes a message from the channel. -/
  | take
  deriving DecidableEq

namespace Relay

variable {cfg : Config}

def new (cfg : Config) : Relay cfg := ⟨⟨∅, cfg.firstShard⟩, fun _ => .new, []⟩

/-- The shard's queue has room for one more message. -/
def HasRoom (relay : Relay cfg) (shard : Fin cfg.shardNum) : Prop :=
  (relay.shards shard).recv.length + 1 < cfg.queueSize

instance (relay : Relay cfg) (shard : Fin cfg.shardNum) : Decidable (relay.HasRoom shard) :=
  inferInstanceAs (Decidable (_ < _))

/-- The channel to the loop has room for one more message. -/
def CanSend (relay : Relay cfg) : Prop := relay.txOut.length < cfg.txCapacity

instance (relay : Relay cfg) : Decidable relay.CanSend :=
  inferInstanceAs (Decidable (_ < _))

/-- One shard changes. -/
def setShard (relay : Relay cfg) (shard : Fin cfg.shardNum) (state : Shard) : Relay cfg :=
  { relay with shards := Function.update relay.shards shard state }

@[simp]
theorem router_setShard (relay : Relay cfg) (shard : Fin cfg.shardNum) (state : Shard) :
    (relay.setShard shard state).router = relay.router := rfl

@[simp]
theorem txOut_setShard (relay : Relay cfg) (shard : Fin cfg.shardNum) (state : Shard) :
    (relay.setShard shard state).txOut = relay.txOut := rfl

@[simp]
theorem shards_setShard_self (relay : Relay cfg) (shard : Fin cfg.shardNum) (state : Shard) :
    (relay.setShard shard state).shards shard = state :=
  Function.update_self _ _ _

theorem shards_setShard_of_ne (relay : Relay cfg) {shard other : Fin cfg.shardNum}
    (state : Shard) (hne : other ≠ shard) :
    (relay.setShard shard state).shards other = relay.shards other :=
  Function.update_of_ne hne _ _

/-- `Producer::enqueue`. -/
def enqueue (relay : Relay cfg) (shard : Fin cfg.shardNum) (msg : MessageType) :
    Option (Relay cfg) :=
  if relay.HasRoom shard then
    some (relay.setShard shard ((relay.shards shard).push msg))
  else none

/-- The loop's arm for `AddSession`.  The result of `enqueue` is discarded. -/
def addSession (relay : Relay cfg) (session : Session) : Relay cfg :=
  let (shard, router) := relay.router.nextShard
  let queued := (relay.enqueue shard (.addSession session)).getD relay
  { queued with
    router := { router with
      endpointToShard := (router.endpointToShard.insert session.hostAddr shard).insert
        session.peerAddr shard } }

/-- `ShardRouter::route`, with the shard whose queue got the packet. -/
def route (relay : Relay cfg) (packet : Packet) : Relay cfg × Option (Fin cfg.shardNum) :=
  match relay.router.endpointToShard.lookup packet.src with
  | none => (relay, none)
  | some idx =>
      match relay.enqueue idx (.transmit packet) with
      | none => (relay, none)
      | some queued => (queued, some idx)

/-- `dequeue` in `Shard::run`, with the arm for `AddSession`. -/
def dequeue (relay : Relay cfg) (shard : Fin cfg.shardNum) (sessionId : Uuid) :
    Option (Relay cfg) :=
  match (relay.shards shard).handling, (relay.shards shard).recv with
  | none, .addSession session :: rest =>
      some (relay.setShard shard
        (((relay.shards shard).withQueue rest none).addSession sessionId session))
  | none, .transmit packet :: rest =>
      some (relay.setShard shard ((relay.shards shard).withQueue rest (some packet)))
  | _, _ => none

/-- What a shard sends for a packet when the channel takes it. -/
def sends (relay : Relay cfg) (shard : Fin cfg.shardNum) (packet : Packet) :
    Option SqeType :=
  if relay.CanSend then (relay.shards shard).handlePacket packet else none

/-- `handle_packet`, with what went into the channel. -/
def handle (relay : Relay cfg) (shard : Fin cfg.shardNum) :
    Option (Relay cfg × List (RelayEvent cfg)) :=
  match (relay.shards shard).handling with
  | none => none
  | some packet =>
      let sent := relay.sends shard packet
      let state := relay.shards shard
      some ({ relay.setShard shard (state.withQueue state.recv none) with
        txOut := relay.txOut ++ sent.toList }, [.handled shard packet sent])

/-- One step of the relay. -/
def step (relay : Relay cfg) : RelayAction cfg → Option (Relay cfg × List (RelayEvent cfg))
  | .addSession session => some (relay.addSession session, [.added session])
  | .route packet =>
      let result := relay.route packet
      some (result.1, [.routed packet result.2])
  | .dequeue shard sessionId => (relay.dequeue shard sessionId).map fun next => (next, [])
  | .handle shard => relay.handle shard
  | .take =>
      match relay.txOut with
      | [] => none
      | _ :: rest => some ({ relay with txOut := rest }, [])

end Relay

/-- The relay under any schedule of its threads. -/
def relayMachine (cfg : Config) : Machine (Relay cfg × List (RelayEvent cfg)) (RelayAction cfg) :=
  .traced (.new cfg) Relay.step

end P2PNetworking.TurnServer
