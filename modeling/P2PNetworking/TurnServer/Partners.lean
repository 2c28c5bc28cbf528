/-
# Whom a datagram is for

On its way through the server a packet is only an index: the bytes stay in the buffer, and the
address of the sender, and later that of the receiver, stands in the header of the buffer.  Yet
whatever the kernel is asked to send begins with the packet that the buffer has been given, and
goes to the partner of its sender in a session that the control service has asked for.  The
queues may overflow and session ids may clash: no one is ever sent anything else.
-/

import P2PNetworking.TurnServer.Deaf
import P2PNetworking.TurnServer.Transparency

namespace P2PNetworking.TurnServer

open P2PNetworking.Net P2PNetworking.Lib

variable {cfg : Config}

/-! ## Sessions -/

/-- Some session pairs the two. -/
def Partners (sessions : List Session) (src dst : SocketAddr) : Prop :=
  ∃ session ∈ sessions, session.routeTo src = some dst

theorem Partners.mono {sessions more : List Session} {src dst : SocketAddr}
    (h : Partners sessions src dst) (hsubset : sessions ⊆ more) : Partners more src dst := by
  obtain ⟨session, hmem, hroute⟩ := h
  exact ⟨session, hsubset hmem, hroute⟩

namespace Shard

/-- All that the shard knows or has still to learn are these sessions. -/
structure Taught (sessions : List Session) (shard : Shard) : Prop where
  table : ∀ sessionId session, shard.sessionTable.lookup sessionId = some session →
    session ∈ sessions
  queue : ∀ session, .addSession session ∈ shard.recv → session ∈ sessions

variable {sessions more : List Session} {shard : Shard}

theorem taught_new (sessions : List Session) : Shard.new.Taught sessions where
  table := nofun
  queue := nofun

theorem Taught.mono (h : shard.Taught sessions) (hsubset : sessions ⊆ more) :
    shard.Taught more where
  table sessionId session hlookup := hsubset (h.table sessionId session hlookup)
  queue session hmem := hsubset (h.queue session hmem)

theorem Taught.withQueue (h : shard.Taught sessions) {recv : List MessageType}
    (hrecv : ∀ session, .addSession session ∈ recv → session ∈ sessions)
    (handling : Option Packet) : (shard.withQueue recv handling).Taught sessions :=
  ⟨h.table, hrecv⟩

theorem Taught.push (h : shard.Taught sessions) {msg : MessageType}
    (hmsg : ∀ session, msg = .addSession session → session ∈ sessions) :
    (shard.push msg).Taught sessions := by
  refine h.withQueue (fun session hmem => ?_) _
  rcases List.mem_append.mp hmem with hold | hnew
  · exact h.queue session hold
  · exact hmsg session (List.mem_singleton.mp hnew).symm

theorem Taught.addSession (h : shard.Taught sessions) (sessionId : Uuid) {session : Session}
    (hsession : session ∈ sessions) : (shard.addSession sessionId session).Taught sessions := by
  refine ⟨fun other found hlookup => ?_, h.queue⟩
  simp only [Shard.addSession, Table.lookup_insert_eq_ite] at hlookup
  split at hlookup
  · cases hlookup
    exact hsession
  · exact h.table other found hlookup

/-- A shard answers out of its sessions, and with the packet that it was given. -/
theorem Taught.partners (h : shard.Taught sessions) {packet : Packet} {entry : SqeType}
    (hanswer : shard.handlePacket packet = some entry) :
    Partners sessions packet.src entry.1 ∧ entry.2.2 = packet.bufIdx := by
  unfold handlePacket at hanswer
  split at hanswer
  · cases hanswer
  · split at hanswer
    · cases hanswer
    · next session hlookup =>
      split at hanswer
      · next dst hroute =>
        cases hanswer
        exact ⟨⟨session, h.table _ session hlookup, hroute⟩, rfl⟩
      · cases hanswer

end Shard

namespace Relay

variable {relay next : Relay cfg} {sessions : List Session}

/-- One shard changes, and has been taught nothing else. -/
theorem taught_setShard (h : ∀ shard, (relay.shards shard).Taught sessions)
    {shard : Fin cfg.shardNum} {state : Shard} (hstate : state.Taught sessions)
    (other : Fin cfg.shardNum) : ((relay.setShard shard state).shards other).Taught sessions := by
  by_cases heq : other = shard
  · subst heq
    rwa [shards_setShard_self]
  · rw [shards_setShard_of_ne _ _ heq]
    exact h other

theorem taught_step {action : RelayAction cfg} {events : List (RelayEvent cfg)}
    (h : ∀ shard, (relay.shards shard).Taught sessions)
    (hstep : relay.step action = some (next, events)) (shard : Fin cfg.shardNum) :
    (next.shards shard).Taught (sessions ++ added events) := by
  cases action with
  | addSession session =>
      cases hstep
      have hmore : ∀ other, (relay.shards other).Taught (sessions ++ [session]) := fun other =>
        (h other).mono (List.subset_append_left _ _)
      show ((relay.addSession session).shards shard).Taught (sessions ++ [session])
      by_cases hroom : relay.HasRoom relay.router.next
      · rw [shards_addSession session hroom]
        refine taught_setShard hmore ((hmore _).push fun other heq => ?_) shard
        cases heq
        simp
      · rw [shards_addSession_of_full session hroom]
        exact hmore shard
  | route packet =>
      cases hstep
      show ((relay.route packet).1.shards shard).Taught (sessions ++ [])
      rw [List.append_nil]
      unfold route
      split
      · exact h shard
      · next idx hlookup =>
        by_cases hroom : relay.HasRoom idx
        · simp only [enqueue, if_pos hroom]
          exact taught_setShard h ((h idx).push fun _ heq => by cases heq) shard
        · simp only [enqueue, if_neg hroom]
          exact h shard
  | dequeue actor sessionId =>
      obtain ⟨after, hdequeue, heq⟩ := Option.map_eq_some_iff.mp hstep
      cases heq
      show (next.shards shard).Taught (sessions ++ [])
      rw [List.append_nil]
      have hqueue := (h actor).queue
      unfold dequeue at hdequeue
      split at hdequeue
      · next session rest hhandling hrecv =>
        cases hdequeue
        rw [hrecv] at hqueue
        have hrest := (h actor).withQueue
          (fun other hmem => hqueue other (List.mem_cons_of_mem _ hmem)) none
        have hsession := hqueue session List.mem_cons_self
        exact taught_setShard h (hrest.addSession sessionId hsession) shard
      · next packet rest hhandling hrecv =>
        cases hdequeue
        rw [hrecv] at hqueue
        exact taught_setShard h ((h actor).withQueue
          (fun other hmem => hqueue other (List.mem_cons_of_mem _ hmem)) _) shard
      · cases hdequeue
  | handle actor =>
      simp only [step, handle] at hstep
      split at hstep
      · cases hstep
      · cases hstep
        show ((relay.setShard actor _).shards shard).Taught (sessions ++ [])
        rw [List.append_nil]
        exact taught_setShard h ((h actor).withQueue (h actor).queue none) shard
  | take =>
      simp only [step] at hstep
      split at hstep
      · cases hstep
      · cases hstep
        show (relay.shards shard).Taught (sessions ++ [])
        rw [List.append_nil]
        exact h shard

end Relay

/-- The shards know of no session that the loop has not taken. -/
theorem taught_of_reachable {c : Relay cfg × List (RelayEvent cfg)}
    (hc : (relayMachine cfg).Reachable c) (shard : Fin cfg.shardNum) :
    (c.1.shards shard).Taught (added c.2) := by
  refine Machine.Reachable.induct (P := fun c : Relay cfg × List (RelayEvent cfg) =>
    ∀ shard, (c.1.shards shard).Taught (added c.2)) (fun _ => Shard.taught_new _) ?_ hc shard
  rintro ⟨relay, trace⟩ action d - h hstep shard
  obtain ⟨next, events, hnext, rfl⟩ := Machine.traced_step.mp hstep
  rw [added_append]
  exact Relay.taught_step h hnext shard

/-! ## Where a packet is -/

/-- The packet is in the queue or in the hands of a shard. -/
def Relay.Carries (relay : Relay cfg) (packet : Packet) : Prop :=
  ∃ shard, .transmit packet ∈ (relay.shards shard).recv ∨
    (relay.shards shard).handling = some packet

namespace Relay

variable {relay next : Relay cfg} {packet : Packet}

theorem mem_inTransit_of_carries (h : relay.Carries packet) :
    packet.bufIdx ∈ relay.inTransit := by
  obtain ⟨shard, hrecv | hhandling⟩ := h
  · have hone : (relay.shards shard).buffers ≤ ∑ shard, (relay.shards shard).buffers :=
      Finset.single_le_sum (f := fun shard => (relay.shards shard).buffers)
        (fun _ _ => Multiset.zero_le _) (Finset.mem_univ shard)
    have hmem : packet.bufIdx ∈ (relay.shards shard).recv.filterMap MessageType.buffer :=
      List.mem_filterMap.mpr ⟨_, hrecv, rfl⟩
    have hbuffer : packet.bufIdx ∈ (relay.shards shard).buffers := by simp [Shard.buffers, hmem]
    exact Multiset.mem_add.mpr (.inl (Multiset.mem_of_le hone hbuffer))
  · exact mem_inTransit_of_handling hhandling

theorem mem_inTransit_of_mem_txOut {entry : SqeType} (h : entry ∈ relay.txOut) :
    entry.2.2 ∈ relay.inTransit := by
  have hmem : entry.2.2 ∈ relay.txOut.map fun entry => entry.2.2 := List.mem_map_of_mem h
  simp only [inTransit, Multiset.mem_add, Multiset.mem_coe]
  exact .inr hmem

/-- One shard changes: what it has now it had before, or the shard has it. -/
theorem carries_setShard {shard : Fin cfg.shardNum} {state : Shard}
    (h : (relay.setShard shard state).Carries packet) :
    relay.Carries packet ∨ .transmit packet ∈ state.recv ∨ state.handling = some packet := by
  obtain ⟨other, hother⟩ := h
  by_cases heq : other = shard
  · subst heq
    rw [shards_setShard_self] at hother
    exact .inr hother
  · rw [shards_setShard_of_ne _ _ heq] at hother
    exact .inl ⟨other, hother⟩

theorem txOut_enqueue {shard : Fin cfg.shardNum} {msg : MessageType}
    (hqueued : relay.enqueue shard msg = some next) : next.txOut = relay.txOut := by
  unfold enqueue at hqueued
  split at hqueued
  · cases hqueued
    rfl
  · cases hqueued

theorem txOut_addSession (relay : Relay cfg) (session : Session) :
    (relay.addSession session).txOut = relay.txOut := by
  cases hqueued : relay.enqueue relay.router.next (.addSession session) with
  | none => simp [addSession, ShardRouter.nextShard, hqueued]
  | some queued => simp [addSession, ShardRouter.nextShard, hqueued, txOut_enqueue hqueued]

theorem txOut_route (relay : Relay cfg) (packet : Packet) :
    (relay.route packet).1.txOut = relay.txOut := by
  unfold route
  split
  · rfl
  · next idx hlookup =>
    cases hqueued : relay.enqueue idx (.transmit packet) with
    | none => rfl
    | some queued => exact txOut_enqueue hqueued

theorem txOut_dequeue {shard : Fin cfg.shardNum} {sessionId : Uuid}
    (hstep : relay.dequeue shard sessionId = some next) : next.txOut = relay.txOut := by
  unfold dequeue at hstep
  split at hstep
  · cases hstep
    rfl
  · cases hstep
    rfl
  · cases hstep

theorem carries_enqueue {shard : Fin cfg.shardNum} {msg : MessageType}
    (hqueued : relay.enqueue shard msg = some next) (h : next.Carries packet) :
    relay.Carries packet ∨ msg = .transmit packet := by
  unfold enqueue at hqueued
  split at hqueued
  · cases hqueued
    rcases carries_setShard h with hold | hrecv | hhandling
    · exact .inl hold
    · rcases List.mem_append.mp hrecv with hold | hnew
      · exact .inl ⟨shard, .inl hold⟩
      · exact .inr (List.mem_singleton.mp hnew).symm
    · exact .inl ⟨shard, .inr hhandling⟩
  · cases hqueued

theorem carries_addSession {session : Session} (h : (relay.addSession session).Carries packet) :
    relay.Carries packet := by
  cases hqueued : relay.enqueue relay.router.next (.addSession session) with
  | none =>
      have hsame : (relay.addSession session).shards = relay.shards := by
        simp [addSession, ShardRouter.nextShard, hqueued]
      rwa [Carries, hsame] at h
  | some queued =>
      have hsame : (relay.addSession session).shards = queued.shards := by
        simp [addSession, ShardRouter.nextShard, hqueued]
      rw [Carries, hsame] at h
      exact (carries_enqueue hqueued h).resolve_right fun hmsg => by cases hmsg

theorem carries_route {arriving : Packet} (h : (relay.route arriving).1.Carries packet) :
    relay.Carries packet ∨ packet = arriving := by
  unfold route at h
  split at h
  · exact .inl h
  · next idx hlookup =>
    cases hqueued : relay.enqueue idx (.transmit arriving) with
    | none =>
        rw [hqueued] at h
        exact .inl h
    | some queued =>
        rw [hqueued] at h
        refine (carries_enqueue hqueued h).imp_right fun heq => ?_
        cases heq
        rfl

theorem carries_dequeue {shard : Fin cfg.shardNum} {sessionId : Uuid}
    (hstep : relay.dequeue shard sessionId = some next) (h : next.Carries packet) :
    relay.Carries packet := by
  unfold dequeue at hstep
  split at hstep
  · next session rest hhandling hrecv =>
    cases hstep
    rcases carries_setShard h with hold | hrest | hnone
    · exact hold
    · exact ⟨shard, .inl (hrecv ▸ List.mem_cons_of_mem _ hrest)⟩
    · cases hnone
  · next taken rest hhandling hrecv =>
    cases hstep
    rcases carries_setShard h with hold | hrest | htaken
    · exact hold
    · exact ⟨shard, .inl (hrecv ▸ List.mem_cons_of_mem _ hrest)⟩
    · cases htaken
      exact ⟨shard, .inl (hrecv ▸ List.mem_cons_self)⟩
  · cases hstep

/-- A shard that deals with its packet keeps it no longer, and may have sent an answer. -/
theorem handle_cases {shard : Fin cfg.shardNum} {events : List (RelayEvent cfg)}
    (hstep : relay.handle shard = some (next, events)) :
    (∀ packet, next.Carries packet → relay.Carries packet) ∧
      ∀ entry ∈ next.txOut, entry ∈ relay.txOut ∨ ∃ packet, relay.Carries packet ∧
        (relay.shards shard).handlePacket packet = some entry := by
  unfold handle at hstep
  split at hstep
  · cases hstep
  · next packet hhandling =>
    cases hstep
    refine ⟨fun other hother => ?_, fun entry hmem => ?_⟩
    · rcases carries_setShard hother with hold | hrecv | hnone
      · exact hold
      · exact ⟨shard, .inl hrecv⟩
      · cases hnone
    · rcases List.mem_append.mp hmem with hold | hnew
      · exact .inl hold
      · have hsent : relay.sends shard packet = some entry := Option.mem_toList.mp hnew
        unfold sends at hsent
        split at hsent
        · exact .inr ⟨packet, ⟨shard, .inr hhandling⟩, hsent⟩
        · cases hsent

end Relay

/-! ## What the buffers have been given -/

/-- The packet that each buffer has last been given, with its sender; none by a receive that has
failed. -/
abbrev Mail := UInt16 → Option (SocketAddr × List UInt8)

/-- Where the loop takes a packet to be from: `extract_src_addr` builds the address anew from its ip
and port, without the scope id (which no address of an IPv4 socket has), and reads the zeroed slot of
a failed receive as `0.0.0.0:0`. -/
def sourceOf : Option (SocketAddr × List UInt8) → SocketAddr
  | some (src, _) => unscoped src
  | none => .unspecified

/-- What the step gives to a buffer. -/
def Server.deliver (server : Server cfg) (mail : Mail) : ServerAction cfg → Mail
  | .receive position src bytes _ =>
      match server.operation .recvMsg position with
      | some sqe => Function.update mail sqe.bufIdx (some (src, bytes))
      | none => mail
  | .failReceive position _ _ =>
      match server.operation .recvMsg position with
      | some sqe => Function.update mail sqe.bufIdx none
      | none => mail
  | _ => mail

/-- The server, with a memory of what its buffers have been given. -/
def watchedMachine (cfg : Config) :
    Machine ((Server cfg × List (ServerEvent cfg)) × Mail) (ServerAction cfg) :=
  (serverMachine cfg).remembering (fun _ => none) fun mail c action => c.1.deliver mail action

/-- What is going on with a buffer. -/
inductive Stage
  /-- The kernel has an operation for it, or will find one. -/
  | submitted (opcode : Opcode)
  /-- The completion of a receive waits for the loop. -/
  | arrived
  /-- A packet of the source waits for a shard. -/
  | carried (src : SocketAddr)
  /-- A message to the loop asks to send it. -/
  | answered (dst : SocketAddr)

namespace Server

variable {server next : Server cfg} {sessions more : List Session} {mail mail' : Mail}
  {idx : UInt16} {stage : Stage}

def At (server : Server cfg) (idx : UInt16) : Stage → Prop
  | .submitted opcode => ∃ sqe ∈ server.submitted, sqe.opcode = opcode ∧ sqe.bufIdx = idx
  | .arrived => idx ∈ server.completed.filterMap Task.arrived
  | .carried src => ∃ packet, server.relay.Carries packet ∧ packet.bufIdx = idx ∧ packet.src = src
  | .answered dst => ∃ entry ∈ server.relay.txOut, entry.2.2 = idx ∧ entry.1 = dst

/-- The header of the buffer, or the packet on its way, is as it should be for its content. -/
def Addressed (server : Server cfg) (sessions : List Session) (mail : Mail) (idx : UInt16) :
    Stage → Prop
  | .submitted .recvMsg => server.pool.liveSlots idx = some (.new (bufferStart idx) none)
  | .submitted .sendMsgZc => ∃ dst, Partners sessions (sourceOf (mail idx)) dst ∧
      server.pool.liveSlots idx = some (.new (bufferStart idx) (some dst))
  | .arrived => server.pool.getPeerAddr idx = sourceOf (mail idx)
  | .carried src => src = sourceOf (mail idx)
  | .answered dst => Partners sessions (sourceOf (mail idx)) dst

/-- It stays so as long as the buffer keeps its header and its content. -/
theorem Addressed.keep (h : server.Addressed sessions mail idx stage)
    (hsubset : sessions ⊆ more)
    (hslot : next.pool.liveSlots idx = server.pool.liveSlots idx) (hmail : mail' idx = mail idx) :
    next.Addressed more mail' idx stage := by
  cases stage with
  | submitted opcode =>
      cases opcode with
      | recvMsg => exact hslot.trans h
      | sendMsgZc =>
          obtain ⟨dst, hpartners, hheader⟩ := h
          exact ⟨dst, hmail.symm ▸ hpartners.mono hsubset, hslot.trans hheader⟩
  | arrived =>
      show next.pool.getPeerAddr idx = sourceOf (mail' idx)
      rw [BufferPool.getPeerAddr, hslot, hmail]
      exact h
  | carried src => exact h.trans (congrArg sourceOf hmail).symm
  | answered dst =>
      have hpartners : Partners sessions (sourceOf (mail idx)) dst := h
      show Partners more (sourceOf (mail' idx)) dst
      rw [hmail]
      exact hpartners.mono hsubset

/-- What a buffer is at has been going on before, unless it has just begun. -/
theorem At.before {P : UInt16 → Stage → Prop} (hat : next.At idx stage)
    (hsubmitted : ∀ sqe ∈ next.submitted,
      sqe ∈ server.submitted ∨ P sqe.bufIdx (.submitted sqe.opcode))
    (hcompleted : ∀ idx ∈ next.completed.filterMap Task.arrived,
      idx ∈ server.completed.filterMap Task.arrived ∨ P idx .arrived)
    (hcarries : ∀ packet, next.relay.Carries packet →
      server.relay.Carries packet ∨ P packet.bufIdx (.carried packet.src))
    (htxOut : ∀ entry ∈ next.relay.txOut,
      entry ∈ server.relay.txOut ∨ P entry.2.2 (.answered entry.1)) :
    server.At idx stage ∨ P idx stage := by
  cases stage with
  | submitted opcode =>
      obtain ⟨sqe, hmem, rfl, rfl⟩ := hat
      exact (hsubmitted sqe hmem).imp_left fun hold => ⟨sqe, hold, rfl, rfl⟩
  | arrived => exact hcompleted idx hat
  | carried src =>
      obtain ⟨packet, hpacket, rfl, rfl⟩ := hat
      exact (hcarries packet hpacket).imp_left fun hold => ⟨packet, hold, rfl, rfl⟩
  | answered dst =>
      obtain ⟨entry, hmem, rfl, rfl⟩ := hat
      exact (htxOut entry hmem).imp_left fun hold => ⟨entry, hold, rfl, rfl⟩

theorem At.mem_submitted {opcode : Opcode} (hat : server.At idx (.submitted opcode)) :
    idx ∈ server.submitted.map Sqe.bufIdx := by
  obtain ⟨sqe, hmem, -, rfl⟩ := hat
  exact List.mem_map_of_mem hmem

theorem At.mem_away (hat : server.At idx stage) (hstage : ∀ opcode, stage ≠ .submitted opcode) :
    idx ∈ server.away := by
  cases stage with
  | submitted opcode => exact absurd rfl (hstage opcode)
  | arrived =>
      have harrived : idx ∈ server.completed.filterMap Task.arrived := hat
      simp [away, harrived]
  | carried src =>
      obtain ⟨packet, hpacket, rfl, -⟩ := hat
      simp [away, Relay.mem_inTransit_of_carries hpacket]
  | answered dst =>
      obtain ⟨entry, hmem, rfl, -⟩ := hat
      simp [away, Relay.mem_inTransit_of_mem_txOut hmem]

theorem notMem_away (hnodup : server.held.Nodup) (hhome : idx ∈ server.home) :
    idx ∉ server.away :=
  Multiset.disjoint_left.mp (Multiset.nodup_add.mp hnodup).2.2 hhome

/-! ## What a step does with an address -/

/-- All that is going on is as it should be. -/
def AllAddressed (server : Server cfg) (sessions : List Session) (mail : Mail) : Prop :=
  ∀ idx stage, server.At idx stage → server.Addressed sessions mail idx stage

namespace AllAddressed

/-- The headers and the contents stay, and what has just begun is as it should be. -/
theorem keep (h : server.AllAddressed sessions mail) (hsubset : sessions ⊆ more)
    (hslots : next.pool.liveSlots = server.pool.liveSlots)
    (hat : ∀ idx stage, next.At idx stage →
      server.At idx stage ∨ next.Addressed more mail idx stage) :
    next.AllAddressed more mail := by
  intro idx stage hnext
  rcases hat idx stage hnext with hold | hnew
  · exact (h idx stage hold).keep hsubset (congrFun hslots idx) rfl
  · exact hnew

/-- A freed buffer gets a header to receive with. -/
theorem repost (h : server.AllAddressed sessions mail) (hnodup : server.held.Nodup)
    {cqe : Cqe} {cq : CompletionRing Cqe} {freed : UInt16}
    (hnext : server.cq.next = some (cqe, cq)) (hfreed : cqe.task.freed = some freed)
    (hslots : next.pool.liveSlots =
      Function.update server.pool.liveSlots freed (some (.new (bufferStart freed) none)))
    (hsq : next.sq = (server.sq.push cfg.ringEntries (Opcode.recvMsg.build freed)).getD server.sq)
    (hoperations : next.operations = server.operations) (hcq : next.cq = cq)
    (hrelay : next.relay = server.relay) : next.AllAddressed sessions mail := by
  intro idx stage hat
  have hmem := mem_freed_of_next hnext hfreed
  have hhome : freed ∈ server.home := by simp [home, hmem]
  have hcases : server.At idx stage ∨ idx = freed ∧ stage = .submitted .recvMsg := by
    refine hat.before (P := fun other begun => other = freed ∧ begun = .submitted .recvMsg)
      (fun sqe hsqe => ?_) (fun other hother => ?_) (fun packet hpacket => ?_)
      (fun entry hentry => ?_)
    · rcases submitted_push hsq hoperations hsqe with hold | rfl
      · exact .inl hold
      · exact .inr ⟨rfl, rfl⟩
    · obtain ⟨task, htask, harrived⟩ := List.mem_filterMap.mp hother
      exact .inl (List.mem_filterMap.mpr ⟨task, mem_completed_of_next hnext hcq htask, harrived⟩)
    · exact .inl (hrelay ▸ hpacket)
    · exact .inl (hrelay ▸ hentry)
  rcases hcases with hold | ⟨rfl, rfl⟩
  · have hne : idx ≠ freed := by
      rintro rfl
      cases stage with
      | submitted opcode =>
          exact notMem_outstanding hnodup (.inl hmem) (List.mem_append_left _ hold.mem_submitted)
      | _ => exact notMem_away hnodup hhome (hold.mem_away fun opcode heq => by cases heq)
    exact (h idx stage hold).keep (List.Subset.refl _)
      (by rw [hslots, Function.update_of_ne hne]) rfl
  · show next.pool.liveSlots idx = _
    rw [hslots, Function.update_self]

/-- The packet of a message gets a header to send with. -/
theorem postSend (h : server.AllAddressed sessions mail) (hnodup : server.held.Nodup)
    {dst : SocketAddr} {len : ℕ} {sent : UInt16} {rest : List SqeType}
    (htxOut : server.relay.txOut = (dst, len, sent) :: rest)
    (hslots : next.pool.liveSlots =
      Function.update server.pool.liveSlots sent (some (.new (bufferStart sent) (some dst))))
    (hsq : next.sq = (server.sq.push cfg.ringEntries (Opcode.sendMsgZc.build sent)).getD server.sq)
    (hoperations : next.operations = server.operations) (hcq : next.cq = server.cq)
    (hrelay : next.relay = { server.relay with txOut := rest }) :
    next.AllAddressed sessions mail := by
  intro idx stage hat
  have htake : server.away = next.away + {sent} := by
    rw [away, away, completed, completed, hcq, hrelay, Relay.inTransit_take _ htxOut, add_assoc]
  have hcases : server.At idx stage ∨ idx = sent ∧ stage = .submitted .sendMsgZc := by
    refine hat.before (P := fun other begun => other = sent ∧ begun = .submitted .sendMsgZc)
      (fun sqe hsqe => ?_) (fun other hother => ?_) (fun packet hpacket => ?_)
      (fun entry hentry => ?_)
    · rcases submitted_push hsq hoperations hsqe with hold | rfl
      · exact .inl hold
      · exact .inr ⟨rfl, rfl⟩
    · rw [completed, hcq] at hother
      exact .inl hother
    · rw [hrelay] at hpacket
      exact .inl hpacket
    · rw [hrelay] at hentry
      exact .inl (htxOut ▸ List.mem_cons_of_mem _ hentry)
  rcases hcases with hold | ⟨rfl, rfl⟩
  · have hne : idx ≠ sent := by
      rintro rfl
      have hnodupAway := (Multiset.nodup_add.mp hnodup).2.1
      cases stage with
      | submitted opcode =>
          have htransit := mem_inTransit_of_txOut htxOut
          exact notMem_outstanding hnodup (.inr htransit)
            (List.mem_append_left _ hold.mem_submitted)
      | _ =>
          rw [htake] at hnodupAway
          exact Multiset.disjoint_left.mp (Multiset.nodup_add.mp hnodupAway).2.2
            (hat.mem_away fun opcode heq => by cases heq) (Multiset.mem_singleton_self _)
    exact (h idx stage hold).keep (List.Subset.refl _)
      (by rw [hslots, Function.update_of_ne hne]) rfl
  · have hpartners : Partners sessions (sourceOf (mail idx)) dst :=
      h idx (.answered dst) ⟨_, htxOut ▸ List.mem_cons_self, rfl, rfl⟩
    refine ⟨dst, hpartners, ?_⟩
    rw [hslots, Function.update_self]

/-- A receive has completed, and the header of its buffer names the sender. -/
theorem finish (h : server.AllAddressed sessions mail) (hnodup : server.held.Nodup)
    {position : ℕ} {sqe : Sqe} {pool : BufferPool} {result : ℤ} {flags : UInt32} {mail' : Mail}
    (hop : server.operation .recvMsg position = some sqe)
    (hfree : pool.freeList = server.pool.freeList)
    (hslots : ∀ idx, idx ≠ sqe.bufIdx → pool.liveSlots idx = server.pool.liveSlots idx)
    (hmail : ∀ idx, idx ≠ sqe.bufIdx → mail' idx = mail idx)
    (hsource : pool.getPeerAddr sqe.bufIdx = sourceOf (mail' sqe.bufIdx)) :
    ({ server with pool := pool }.finish position sqe result flags).AllAddressed
      sessions mail' := by
  intro idx stage hat
  have htask := Cqe.task_mk sqe result flags
  rw [opcode_of_operation hop] at htask
  have hhome : { server with pool := pool }.home = server.home := by
    simp only [home, submitted, completed, hfree]
  have hop' : { server with pool := pool }.operation .recvMsg position = some sqe := hop
  have hleft : ({ server with pool := pool }.finish position sqe result flags).home +
      {sqe.bufIdx} = server.home := by
    have hfinish := home_finish hop' result flags
    rw [htask, hhome] at hfinish
    exact hfinish.trans (add_zero _)
  have hcases : server.At idx stage ∨ idx = sqe.bufIdx ∧ stage = .arrived := by
    refine hat.before (P := fun other begun => other = sqe.bufIdx ∧ begun = .arrived)
      (fun entry hentry => ?_) (fun other hother => ?_) (fun packet hpacket => .inl hpacket)
      (fun entry hentry => .inl hentry)
    · have hrest : entry ∈ { server with
          pool := pool, operations := server.operations.eraseIdx position }.submitted := hentry
      exact .inl (mem_submitted_of_eraseIdx hrest)
    · rw [Server.finish, completed_post, htask, List.filterMap_append] at hother
      rcases List.mem_append.mp hother with hold | hnew
      · exact .inl hold
      · exact .inr ⟨List.mem_singleton.mp hnew, rfl⟩
  rcases hcases with hold | ⟨rfl, rfl⟩
  · have hne : idx ≠ sqe.bufIdx := by
      rintro rfl
      have hnodupHome := (Multiset.nodup_add.mp hnodup).1
      have hmem : sqe.bufIdx ∈ server.home := by
        rw [← hleft]
        exact Multiset.mem_add.mpr (.inr (Multiset.mem_singleton_self _))
      cases stage with
      | submitted opcode =>
          have hsubmitted := hat.mem_submitted
          rw [← hleft] at hnodupHome
          refine Multiset.disjoint_left.mp (Multiset.nodup_add.mp hnodupHome).2.2 ?_
            (Multiset.mem_singleton_self _)
          simp only [home, Multiset.mem_add, Multiset.mem_coe]
          exact .inl (.inr hsubmitted)
      | _ => exact notMem_away hnodup hmem (hold.mem_away fun opcode heq => by cases heq)
    exact (h idx stage hold).keep (List.Subset.refl _) (hslots idx hne) (hmail idx hne)
  · exact hsource

end AllAddressed

/-- A step leaves everything addressed as it should be. -/
theorem Transition.allAddressed {action : ServerAction cfg} {events : List (ServerEvent cfg)}
    (h : server.Transition action next events) (hnodup : server.held.Nodup)
    (htaught : ∀ shard, (server.relay.shards shard).Taught sessions)
    (hold : server.AllAddressed sessions mail) :
    next.AllAddressed (sessions ++ added (relayTrace events)) (server.deliver mail action) := by
  have hnone : sessions ++ [] = sessions := List.append_nil _
  cases h with
  | request => exact hnone.symm ▸ hold
  | rest htask hpool hsq hoperations hcq hrelay =>
      refine hnone.symm ▸ hold.keep (List.Subset.refl _) (by rw [hpool]) fun idx stage hat => ?_
      refine hat.before (fun sqe hsqe => .inl ?_) (fun other hother => .inl ?_)
        (fun packet hpacket => .inl (hrelay ▸ hpacket)) (fun entry hentry => .inl (hrelay ▸ hentry))
      · rwa [submitted, hsq, hoperations] at hsqe
      · rcases hcq with hsame | hpopped
        · rwa [completed, hsame] at hother
        · rwa [completed, hpopped]
  | @addSession first second session rest htask =>
      refine hold.keep (List.subset_append_left _ _) rfl fun idx stage hat => ?_
      exact hat.before (fun _ => .inl) (fun _ => .inl)
        (fun packet hpacket => .inl (Relay.carries_addSession hpacket))
        (fun entry hentry => .inl (Relay.txOut_addSession _ session ▸ hentry))
  | postSend htask htxOut =>
      refine hnone.symm ▸ hold.postSend hnodup htxOut ?_ ?_ ?_ ?_ ?_ <;>
        simp only [takeSend, htxOut] <;> rfl
  | @arrival first second idx len cqe cq htask hnext hcqe =>
      refine hnone.symm ▸ hold.keep (List.Subset.refl _) rfl fun other stage hat => ?_
      refine hat.before (fun _ => .inl) (fun other hother => .inl ?_) (fun packet hpacket => ?_)
        (fun entry hentry => .inl (Relay.txOut_route _ _ ▸ hentry))
      · obtain ⟨task, hmem, harrived⟩ := List.mem_filterMap.mp hother
        exact List.mem_filterMap.mpr ⟨task, mem_completed_of_next hnext rfl hmem, harrived⟩
      · rcases Relay.carries_route hpacket with hbefore | rfl
        · exact .inl hbefore
        · refine .inr (hold idx .arrived ?_)
          exact List.mem_filterMap.mpr ⟨_, mem_completed_of_task htask (.inl rfl), rfl⟩
  | sent htask hnext hcqe =>
      exact hnone.symm ▸ hold.repost hnodup hnext (by rw [hcqe]; rfl) rfl rfl rfl rfl rfl
  | notified htask hnext hcqe =>
      exact hnone.symm ▸ hold.repost hnodup hnext (by rw [hcqe]; rfl) rfl rfl rfl rfl rfl
  | dequeue hstep =>
      refine hnone.symm ▸ hold.keep (List.Subset.refl _) rfl fun idx stage hat => ?_
      exact hat.before (fun _ => .inl) (fun _ => .inl)
        (fun packet hpacket => .inl (Relay.carries_dequeue hstep hpacket))
        (fun entry hentry => .inl (Relay.txOut_dequeue hstep ▸ hentry))
  | @handle shard relay relayEvents hstep =>
      obtain ⟨hcarries, htxOut⟩ := Relay.handle_cases hstep
      refine hold.keep (List.subset_append_left _ _) rfl fun idx stage hat => ?_
      refine hat.before (fun _ => .inl) (fun _ => .inl)
        (fun packet hpacket => .inl (hcarries packet hpacket)) (fun entry hentry => ?_)
      rcases htxOut entry hentry with hbefore | ⟨packet, hpacket, hanswer⟩
      · exact .inl hbefore
      · obtain ⟨hpartners, hbuffer⟩ := (htaught shard).partners hanswer
        have hsource : packet.src = sourceOf (mail packet.bufIdx) :=
          hold packet.bufIdx (.carried packet.src) ⟨packet, hpacket, rfl, rfl⟩
        refine .inr ?_
        show Partners _ (sourceOf (mail entry.2.2)) entry.1
        rw [hbuffer, ← hsource]
        exact hpartners.mono (List.subset_append_left _ _)
  | submit htake =>
      refine hnone.symm ▸ hold.keep (List.Subset.refl _) rfl fun idx stage hat => ?_
      refine hat.before (fun entry hentry => .inl ?_) (fun _ => .inl) (fun _ => .inl)
        (fun _ => .inl)
      simp only [submitted, SubmissionRing.entries_take htake, List.mem_append, List.mem_cons,
        List.mem_nil_iff, or_false] at hentry ⊢
      tauto
  | @receive position src bytes flags sqe pool hop hfill =>
      obtain ⟨slot, -, -, rfl⟩ := BufferPool.fill_eq_some hfill
      simp only [deliver, hop]
      refine hnone.symm ▸ hold.finish hnodup hop rfl (fun idx hne => ?_) (fun idx hne => ?_) ?_
      · exact Function.update_of_ne hne _ _
      · exact Function.update_of_ne hne _ _
      · simp [BufferPool.getPeerAddr, BufferPool.insertSlot, sourceOf]
  | @failReceive position result flags sqe hop =>
      have hslot : server.pool.liveSlots sqe.bufIdx =
          some (.new (bufferStart sqe.bufIdx) none) := by
        obtain ⟨hsome, -⟩ := Option.filter_eq_some_iff.mp hop
        exact hold sqe.bufIdx (.submitted .recvMsg) ⟨sqe,
          List.mem_append_right _ (List.mem_of_getElem? hsome), opcode_of_operation hop, rfl⟩
      simp only [deliver, hop]
      refine hnone.symm ▸ hold.finish hnodup hop rfl (fun idx hne => rfl) (fun idx hne => ?_) ?_
      · exact Function.update_of_ne hne _ _
      · simp [BufferPool.getPeerAddr, hslot, MsgHdrSlot.new, extractSrcAddr, sourceOf]
  | @progressSend position result flags sqe hop hmore =>
      have htask := Cqe.task_mk sqe result flags
      rw [opcode_of_operation hop, hmore] at htask
      refine hnone.symm ▸ hold.keep (List.Subset.refl _) rfl fun idx stage hat => ?_
      refine hat.before (fun _ => .inl) (fun other hother => .inl ?_) (fun _ => .inl)
        (fun _ => .inl)
      rw [completed_post, htask, List.filterMap_append] at hother
      exact (List.mem_append.mp hother).resolve_right (List.not_mem_nil)
  | @finishSend position result flags sqe hop hmore =>
      have htask := Cqe.task_mk sqe result flags
      rw [opcode_of_operation hop, hmore] at htask
      refine hnone.symm ▸ hold.keep (List.Subset.refl _) rfl fun idx stage hat => ?_
      refine hat.before (fun entry hentry => .inl ?_) (fun other hother => .inl ?_) (fun _ => .inl)
        (fun _ => .inl)
      · have hrest : entry ∈ { server with
            pool := server.pool, operations := server.operations.eraseIdx position }.submitted :=
          hentry
        exact mem_submitted_of_eraseIdx hrest
      · rw [Server.finish, completed_post, htask, List.filterMap_append] at hother
        exact (List.mem_append.mp hother).resolve_right (List.not_mem_nil)

theorem allAddressed_started (cfg : Config) (mail : Mail) :
    (started cfg).AllAddressed [] mail := by
  intro idx stage hat
  cases stage with
  | submitted opcode =>
      obtain ⟨sqe, hmem, rfl, rfl⟩ := hat
      rw [submitted, SubmissionRing.entries, started, List.append_nil, List.append_nil] at hmem
      obtain ⟨idx, hidx, rfl⟩ := List.mem_map.mp hmem
      exact if_pos ((mem_indicesBelow cfg.poolSize_le).mp hidx)
  | arrived => cases hat
  | carried src =>
      obtain ⟨packet, ⟨shard, hrecv | hhandling⟩, -⟩ := hat
      · cases hrecv
      · cases hhandling
  | answered dst =>
      obtain ⟨entry, hmem, -⟩ := hat
      cases hmem

end Server

/-! ## In every run -/

section Runs

variable {c : (Server cfg × List (ServerEvent cfg)) × Mail}

theorem allAddressed_of_reachable (hc : (watchedMachine cfg).Reachable c) :
    c.1.1.AllAddressed (added (relayTrace c.1.2)) c.2 := by
  refine Machine.Reachable.induct (P := fun c : (Server cfg × List (ServerEvent cfg)) × Mail =>
    c.1.1.AllAddressed (added (relayTrace c.1.2)) c.2) ?_ ?_ hc
  · rw [watchedMachine, Machine.remembering, serverMachine_init]
    exact Server.allAddressed_started cfg _
  · rintro ⟨⟨server, trace⟩, mail⟩ action ⟨d, mail'⟩ hbefore h hstep
    obtain ⟨hserver, rfl⟩ := Machine.remembering_step.mp hstep
    obtain ⟨next, events, hnext, rfl⟩ := Machine.traced_step.mp hserver
    have hreachable := Machine.Reachable.forget hbefore
    have htaught := taught_of_reachable ((relayComponent cfg).reachable_view hreachable)
    rw [relayTrace_append, added_append]
    exact (Server.transition_of_step hnext).allAddressed (nodup_held hreachable) htaught h

/-- Memory or not, whatever the kernel is asked to send goes to an address of a session. -/
theorem exists_session_of_submitted {d : Server cfg × List (ServerEvent cfg)}
    (hd : (serverMachine cfg).Reachable d) {sqe : Sqe} (hsqe : sqe ∈ d.1.submitted)
    (hsend : sqe.opcode = .sendMsgZc) : ∃ session ∈ added (relayTrace d.2), ∃ dst,
      session.names dst ∧
        d.1.pool.liveSlots sqe.bufIdx = some (.new (bufferStart sqe.bufIdx) (some dst)) := by
  have hwatched : ∃ mail, (watchedMachine cfg).Reachable (d, mail) := hd.remembering
  obtain ⟨mail, hmail⟩ := hwatched
  obtain ⟨dst, ⟨session, hsession, hroute⟩, hslot⟩ :=
    allAddressed_of_reachable hmail sqe.bufIdx (.submitted .sendMsgZc) ⟨sqe, hsqe, hsend, rfl⟩
  exact ⟨session, hsession, dst, Session.names_of_routeTo (Session.routeTo_symm hroute), hslot⟩

/-- What a buffer has been given is the last packet that the kernel has received into it. -/
theorem last_packet_of_reachable (hc : (watchedMachine cfg).Reachable c) {idx : UInt16}
    {src : SocketAddr} {bytes : List UInt8} (hmail : c.2 idx = some (src, bytes)) :
    (packetsInto idx c.1.2).getLast? = some bytes := by
  refine Machine.Reachable.induct (P := fun c : (Server cfg × List (ServerEvent cfg)) × Mail =>
    ∀ src bytes, c.2 idx = some (src, bytes) → (packetsInto idx c.1.2).getLast? = some bytes)
    (by rintro - - ⟨⟩) ?_ hc src bytes hmail
  rintro ⟨⟨server, trace⟩, mail⟩ action ⟨d, mail'⟩ - h hstep src bytes hmail
  obtain ⟨hserver, rfl⟩ := Machine.remembering_step.mp hstep
  obtain ⟨next, events, hnext, rfl⟩ := Machine.traced_step.mp hserver
  have hquiet : (∀ bytes, .received idx bytes ∉ events) →
      packetsInto idx (trace ++ events) = packetsInto idx trace := by
    intro hnone
    rw [packetsInto_append, packetsInto_eq_nil hnone, List.append_nil]
  have hkind := Server.transition_of_step hnext
  cases hkind with
  | @receive position sender packet flags sqe pool hop hfill =>
      simp only [Server.deliver, hop] at hmail
      by_cases heq : idx = sqe.bufIdx
      · subst heq
        rw [Function.update_self] at hmail
        cases hmail
        simp [packetsInto]
      · rw [Function.update_of_ne heq] at hmail
        rw [hquiet (by simp [heq])]
        exact h src bytes hmail
  | @failReceive position result flags sqe hop =>
      simp only [Server.deliver, hop] at hmail
      rw [hquiet (by simp)]
      by_cases heq : idx = sqe.bufIdx
      · subst heq
        rw [Function.update_self] at hmail
        cases hmail
      · rw [Function.update_of_ne heq] at hmail
        exact h src bytes hmail
  | _ =>
      rw [hquiet (by simp)]
      exact h src bytes hmail

/-- Memory begins with the last packet. -/
theorem prefix_of_getLast? {d : Server cfg × List (ServerEvent cfg)}
    (hd : (serverMachine cfg).Reachable d) {idx : UInt16} {bytes : List UInt8}
    (hlast : (packetsInto idx d.2).getLast? = some bytes) :
    bytes <+: readBytes d.1.pool.memory (bufferStart idx) bufferSize := by
  have hinv := reachable_memoryInv hd
  obtain ⟨earlier, hpackets⟩ := List.getLast?_eq_some_iff.mp hlast
  have hreceived : .received idx bytes ∈ d.2 := by
    have hmem : bytes ∈ packetsInto idx d.2 := by simp [hpackets]
    obtain ⟨event, hevent, hbytes⟩ := List.mem_filterMap.mp hmem
    split at hbytes
    · next other packet =>
      split at hbytes
      · next heq =>
        cases hbytes
        exact heq ▸ hevent
      · cases hbytes
    · cases hbytes
  have hfits := hinv.fits idx bytes hreceived
  have hmemory : readBytes d.1.pool.memory (bufferStart idx) bufferSize =
      (List.range bufferSize).map (overlay (earlier.foldl overlay fun _ => 0) bytes) := by
    apply List.map_congr_left
    intro i hi
    rw [hinv.memory idx i (List.mem_range.mp hi), contents, hpackets, List.foldl_append]
    rfl
  rw [hmemory, map_overlay hfits]
  exact List.prefix_append _ _

/-- Whatever the kernel is asked to send goes to the partner, in a session that the loop has
taken, of the sender of the packet that the buffer has been given, and begins with that packet:
in every run, whatever is lost on the way. -/
theorem sent_to_partner (hc : (watchedMachine cfg).Reachable c) {sqe : Sqe}
    (hsqe : sqe ∈ c.1.1.submitted) (hsend : sqe.opcode = .sendMsgZc) :
    ∃ session ∈ added (relayTrace c.1.2), ∃ dst,
      session.routeTo (sourceOf (c.2 sqe.bufIdx)) = some dst ∧
        c.1.1.pool.liveSlots sqe.bufIdx = some (.new (bufferStart sqe.bufIdx) (some dst)) ∧
        ∀ src bytes, c.2 sqe.bufIdx = some (src, bytes) →
          bytes <+: c.1.1.pool.described sqe.bufIdx := by
  obtain ⟨dst, ⟨session, hsession, hroute⟩, hslot⟩ :=
    allAddressed_of_reachable hc sqe.bufIdx (.submitted .sendMsgZc) ⟨sqe, hsqe, hsend, rfl⟩
  refine ⟨session, hsession, dst, hroute, hslot, fun src bytes hmail => ?_⟩
  have hdescribed : c.1.1.pool.described sqe.bufIdx =
      readBytes c.1.1.pool.memory (bufferStart sqe.bufIdx) bufferSize := by
    simp [BufferPool.described, hslot]
  rw [hdescribed]
  exact prefix_of_getLast? (Machine.Reachable.forget hc) (last_packet_of_reachable hc hmail)

theorem sent_to_partner_relayOnce : ∃ c,
    (watchedMachine .main).exec (watchedMachine .main).init relayOnce = some c ∧
      c.2 1023 = some (.v4 1 1, [7, 7, 7]) ∧
      ∃ session ∈ added (relayTrace c.1.2), ∃ dst,
        session.routeTo (sourceOf (c.2 1023)) = some dst ∧
          c.1.1.pool.liveSlots 1023 = some (.new (bufferStart 1023) (some dst)) ∧
          ∀ src bytes, c.2 1023 = some (src, bytes) → bytes <+: c.1.1.pool.described 1023 := by
  have hinit : (watchedMachine .main).init = ((Server.started .main, []), fun _ => none) := by
    rw [watchedMachine, Machine.remembering, serverMachine_init]
  obtain ⟨c, hexec, hmail, hsqe⟩ :
      ∃ c ∈ (watchedMachine .main).exec (watchedMachine .main).init relayOnce,
        c.2 1023 = some (.v4 1 1, [7, 7, 7]) ∧ Opcode.sendMsgZc.build 1023 ∈ c.1.1.submitted := by
    rw [hinit]
    decide +kernel
  exact ⟨c, hexec, hmail, sent_to_partner ⟨relayOnce, hexec⟩ hsqe rfl⟩

end Runs

end P2PNetworking.TurnServer
