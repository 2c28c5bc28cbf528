/-
# How the server grows deaf

A buffer that no one holds stays so, and the server hears only through buffers.  Each packet that
is dropped on its way takes its buffer with it, so that a server may drop as many packets as it
has buffers, in all its life.  One stranger is enough for that.
-/

import P2PNetworking.TurnServer.Panics

namespace P2PNetworking.TurnServer

open P2PNetworking.Net P2PNetworking.Lib

variable {cfg : Config}

/-! ## Losses -/

/-- The buffer that an event is about. -/
def ServerEvent.buffer : ServerEvent cfg → Option UInt16
  | .relay (.added _) => none
  | .relay (.routed packet _) => some packet.bufIdx
  | .relay (.handled _ packet _) => some packet.bufIdx
  | .received idx _ => some idx
  | .receiveFailed idx => some idx
  | .postedRecv idx => some idx
  | .postedSend idx _ _ => some idx

/-- A packet is dropped: by the router, by a shard, or by a full submission queue. -/
def ServerEvent.drops : ServerEvent cfg → Bool
  | .relay (.routed _ target) => target.isNone
  | .relay (.handled _ _ sent) => sent.isNone
  | .postedSend _ pushed _ => !pushed
  | _ => false

/-- How many packets have been dropped. -/
def dropsIn (trace : List (ServerEvent cfg)) : ℕ := trace.countP ServerEvent.drops

namespace Relay

variable {relay next : Relay cfg} {shard : Fin cfg.shardNum}

/-- What is seen of a shard that deals with its packet. -/
theorem events_handle {events : List (RelayEvent cfg)}
    (hstep : relay.handle shard = some (next, events)) :
    ∃ packet, (relay.shards shard).handling = some packet ∧
      events = [.handled shard packet (relay.sends shard packet)] := by
  unfold handle at hstep
  split at hstep
  · cases hstep
  · next packet hhandling =>
    cases hstep
    exact ⟨packet, hhandling, rfl⟩

theorem mem_inTransit_of_handling {packet : Packet}
    (hhandling : (relay.shards shard).handling = some packet) :
    packet.bufIdx ∈ relay.inTransit := by
  have hone : (relay.shards shard).buffers ≤ ∑ shard, (relay.shards shard).buffers :=
    Finset.single_le_sum (f := fun shard => (relay.shards shard).buffers)
      (fun _ _ => Multiset.zero_le _) (Finset.mem_univ shard)
  have hmem : packet.bufIdx ∈ (relay.shards shard).buffers := by
    simp [Shard.buffers, hhandling]
  exact Multiset.mem_add.mpr (.inl (Multiset.mem_of_le hone hmem))

end Relay

namespace Server

variable {server next : Server cfg} {action : ServerAction cfg} {events : List (ServerEvent cfg)}

/-- A completion in hand is about a buffer that is held. -/
theorem mem_held_of_next {cqe : Cqe} {cq : CompletionRing Cqe} {idx : UInt16}
    (hnext : server.cq.next = some (cqe, cq))
    (hidx : cqe.task.arrived = some idx ∨ cqe.task.freed = some idx) : idx ∈ server.held := by
  rcases hidx with harrived | hfreed
  · have hmem : idx ∈ server.completed.filterMap Task.arrived := by
      simp [completed, CompletionRing.entries_next hnext, harrived]
    simp [held, away, hmem]
  · simp [held, home, mem_freed_of_next hnext hfreed]

theorem mem_held_of_operation {opcode : Opcode} {position : ℕ} {sqe : Sqe}
    (hop : server.operation opcode position = some sqe) : sqe.bufIdx ∈ server.held := by
  obtain ⟨hsome, -⟩ := Option.filter_eq_some_iff.mp hop
  have hmem : sqe.bufIdx ∈ server.submitted.map Sqe.bufIdx :=
    List.mem_map_of_mem (List.mem_append_right _ (List.mem_of_getElem? hsome))
  simp only [held, home, Multiset.mem_add, Multiset.mem_coe]
  exact .inl (.inl (.inr hmem))

theorem mem_held_of_inTransit {idx : UInt16} (hidx : idx ∈ server.relay.inTransit) :
    idx ∈ server.held := by
  simp [held, away, hidx]

/-- A step is about buffers that are held. -/
theorem Transition.mem_held (h : server.Transition action next events) {event : ServerEvent cfg}
    (hevent : event ∈ events) {idx : UInt16} (hidx : event.buffer = some idx) :
    idx ∈ server.held := by
  cases h with
  | request => cases hevent
  | rest => cases hevent
  | addSession =>
      rw [List.mem_singleton.mp hevent] at hidx
      cases hidx
  | postSend htask htxOut =>
      rw [List.mem_singleton.mp hevent] at hidx
      cases hidx
      exact mem_held_of_inTransit (mem_inTransit_of_txOut htxOut)
  | arrival htask hnext hcqe =>
      rw [List.mem_singleton.mp hevent] at hidx
      cases hidx
      exact mem_held_of_next hnext (.inl (by rw [hcqe]; rfl))
  | sent htask hnext hcqe =>
      rw [List.mem_singleton.mp hevent] at hidx
      cases hidx
      exact mem_held_of_next hnext (.inr (by rw [hcqe]; rfl))
  | notified htask hnext hcqe =>
      rw [List.mem_singleton.mp hevent] at hidx
      cases hidx
      exact mem_held_of_next hnext (.inr (by rw [hcqe]; rfl))
  | dequeue => cases hevent
  | handle hstep =>
      obtain ⟨packet, hhandling, rfl⟩ := Relay.events_handle hstep
      rw [List.mem_singleton.mp hevent] at hidx
      cases hidx
      exact mem_held_of_inTransit (Relay.mem_inTransit_of_handling hhandling)
  | submit => cases hevent
  | receive hop =>
      rw [List.mem_singleton.mp hevent] at hidx
      cases hidx
      exact mem_held_of_operation hop
  | failReceive hop =>
      rw [List.mem_singleton.mp hevent] at hidx
      cases hidx
      exact mem_held_of_operation hop
  | progressSend => cases hevent
  | finishSend => cases hevent

/-- A packet that is dropped takes its buffer with it. -/
theorem Transition.drops_le (h : server.Transition action next events) :
    dropsIn events ≤ Multiset.card (server.dropped action) := by
  cases h with
  | postSend htask htxOut =>
      simp only [dropped, htask]
      by_cases hroom : server.sq.HasRoom cfg.ringEntries <;>
        simp [dropsIn, ServerEvent.drops, hroom]
  | @arrival first second idx len cqe cq htask hnext hcqe =>
      simp only [dropped, htask]
      cases htarget : (server.relay.route ⟨idx, len, server.pool.getPeerAddr idx⟩).2 <;>
        simp [dropsIn, ServerEvent.drops]
  | @handle shard relay relayEvents hstep =>
      obtain ⟨packet, hhandling, rfl⟩ := Relay.events_handle hstep
      simp only [dropped, hhandling]
      cases hsent : server.relay.sends shard packet <;> simp [dropsIn, ServerEvent.drops]
  | _ => exact Nat.zero_le _

end Server

/-! ## For good -/

section Deaf

variable {c d : Server cfg × List (ServerEvent cfg)}

/-- A buffer that no one holds is heard of no more. -/
theorem lost_for_good (hc : (serverMachine cfg).Reachable c) {actions : List (ServerAction cfg)}
    (hexec : (serverMachine cfg).exec c actions = some d) {idx : UInt16} (hlost : idx ∉ c.1.held) :
    ∃ more, d.2 = c.2 ++ more ∧ ∀ event ∈ more, event.buffer ≠ some idx := by
  induction actions using List.reverseRecOn generalizing d with
  | nil =>
      rw [Machine.exec_nil] at hexec
      cases hexec
      exact ⟨[], (List.append_nil _).symm, nofun⟩
  | append_singleton actions action ih =>
      obtain ⟨e, hpre, hstep⟩ := (serverMachine cfg).exec_concat.mp hexec
      obtain ⟨more, hmore, hnone⟩ := ih hpre
      obtain ⟨next, events, hnext, rfl⟩ := Machine.traced_step.mp hstep
      have hstill : idx ∉ e.1.held := fun hmem =>
        hlost (Multiset.mem_of_le ((bufferTrips cfg).ledger.held_le_of_exec hc hpre) hmem)
      refine ⟨more ++ events, by rw [hmore, List.append_assoc], fun event hmem hbuffer => ?_⟩
      rcases List.mem_append.mp hmem with hold | hnew
      · exact hnone event hold hbuffer
      · exact hstill ((Server.transition_of_step hnext).mem_held hnew hbuffer)

/-- The server hears and sends nothing, whatever may happen: all that it still does is to learn
of sessions. -/
def Deaf (c : Server cfg × List (ServerEvent cfg)) : Prop :=
  ∀ actions d, (serverMachine cfg).exec c actions = some d →
    ∃ more, d.2 = c.2 ++ more ∧ ∀ event ∈ more, event.buffer = none

theorem deaf_of_held (hc : (serverMachine cfg).Reachable c) (hheld : c.1.held = 0) : Deaf c := by
  intro actions d hexec
  obtain ⟨more, hmore⟩ := Machine.traced_exec_prefix hexec
  refine ⟨more, hmore.symm, fun event hmem => ?_⟩
  by_contra hsome
  obtain ⟨idx, hidx⟩ := Option.ne_none_iff_exists'.mp hsome
  obtain ⟨more', hmore', hnone⟩ := lost_for_good hc hexec
    (show idx ∉ c.1.held from hheld ▸ Multiset.notMem_zero idx)
  rw [← hmore] at hmore'
  exact hnone event (List.append_cancel_left hmore' ▸ hmem) hidx

/-- Every packet that has been dropped has cost a buffer. -/
theorem card_held_add_dropsIn_le (hc : (serverMachine cfg).Reachable c) :
    Multiset.card c.1.held + dropsIn c.2 ≤ cfg.poolSize := by
  have hstep : ∀ {e : Server cfg × List (ServerEvent cfg)} {action : ServerAction cfg}
      {f : Server cfg × List (ServerEvent cfg)}, (serverMachine cfg).Reachable e →
      (serverMachine cfg).step e action = some f →
      dropsIn f.2 ≤ dropsIn e.2 + Multiset.card ((bufferTrips cfg).ledger.spent e action) := by
    intro e action f _ hstep
    obtain ⟨next, events, hnext, rfl⟩ := Machine.traced_step.mp hstep
    have hdrops := (Server.transition_of_step hnext).drops_le
    rw [dropsIn, List.countP_append]
    exact Nat.add_le_add_left hdrops _
  have hle := @Ledger.card_held_add_le _ _ _ _ (bufferTrips cfg).ledger
    (fun c => dropsIn c.2) rfl hstep c hc
  rwa [held_init, Multiset.coe_card, length_indicesBelow] at hle

/-- In all its life the server drops no more packets than it has buffers, and when it has dropped
so many it is deaf. -/
theorem drops_deafen (hc : (serverMachine cfg).Reachable c) :
    dropsIn c.2 ≤ cfg.poolSize ∧ (dropsIn c.2 = cfg.poolSize → Deaf c) := by
  have hcard := card_held_add_dropsIn_le hc
  refine ⟨Nat.le_of_add_left_le hcard, fun hall => deaf_of_held hc ?_⟩
  exact Multiset.card_eq_zero.mp (by omega)

end Deaf

/-- A server with one buffer. -/
def oneBuffer : Config :=
  { Config.main with
    poolSize := 1
    ringEntries := 1
    poolSize_le := by decide
    poolSize_le_ringEntries := by decide }

/-- One datagram from an address that no session names. -/
def oneStranger : List (ServerAction oneBuffer) :=
  [.submit, .receive 0 (.v4 9 9) [1] 0, .loop 0 0, .loop 0 0, .loop 0 0, .loop 0 0, .loop 0 0]

theorem drops_deafen_oneStranger : ∃ c,
    (serverMachine oneBuffer).exec (serverMachine oneBuffer).init oneStranger = some c ∧
      dropsIn c.2 = 1 ∧ dropsIn c.2 ≤ oneBuffer.poolSize ∧
        (dropsIn c.2 = oneBuffer.poolSize → Deaf c) := by
  obtain ⟨c, hexec, hdrops⟩ :
      ∃ c ∈ (serverMachine oneBuffer).exec (serverMachine oneBuffer).init oneStranger,
        dropsIn c.2 = 1 := by
    rw [serverMachine_init]
    decide +kernel
  exact ⟨c, hexec, hdrops, drops_deafen ⟨oneStranger, hexec⟩⟩

/-! ## By one stranger -/

/-- The server goes on, and the kernel has nothing but packets of one source for it. -/
def FromStranger (src : SocketAddr) (bytes : List UInt8) : ServerAction cfg → Prop
  | .loop _ _ | .submit => True
  | .receive _ other packet _ => other = src ∧ packet = bytes
  | _ => False

/-- No session is registered, and all that the server does is to receive. -/
structure Unattended (server : Server cfg) : Prop where
  relay : server.relay = .new cfg
  control : server.control = []
  free : server.pool.freeList = []
  published : server.sq.unpublished = []
  receives : ∀ sqe ∈ server.submitted, sqe.opcode = .recvMsg ∧
    ∃ slot, server.pool.liveSlots sqe.bufIdx = some slot ∧ slot.iovLen = bufferSize
  arrivals : ∀ task ∈ server.completed, ∃ idx len, task = .arrival idx len
  point : server.point = .seeded ∨ server.point = .control ∨ server.point = .sending 0 ∨
    server.point = .polling ∨ server.point = .completing

theorem unattended_started (cfg : Config) : Unattended (Server.started cfg) where
  relay := rfl
  control := rfl
  free := rfl
  published := rfl
  receives sqe hmem := by
    simp only [Server.submitted, Server.started, SubmissionRing.entries, List.append_nil,
      List.mem_map] at hmem
    obtain ⟨idx, hidx, rfl⟩ := hmem
    have hlt := (mem_indicesBelow cfg.poolSize_le).mp hidx
    exact ⟨rfl, _, by simp [Server.started, hlt]; rfl, rfl⟩
  arrivals task hmem := by simp [Server.completed, Server.started] at hmem
  point := .inl rfl

/-- How far the loop is from its next completion. -/
def LoopPoint.distance : LoopPoint → Bool → ℕ
  | .completing, visible => if visible then 0 else 4
  | .polling, _ => 1
  | .sending _, _ | .published, _ => 2
  | .control, _ => 3
  | .seeded, _ | .panicked, _ => 4

/-- How much the server has still to do until it has heard all that it can hear. -/
def Server.toHear (server : Server cfg) : ℕ :=
  6 * (3 * server.sq.entries.length + 2 * server.operations.length + server.completed.length) +
    server.point.distance (!server.cq.visible.isEmpty)

/-- Without sessions nothing is routed. -/
theorem route_new (packet : Packet) : (Relay.new cfg).route packet = (Relay.new cfg, none) := by
  simp [Relay.route, Relay.new]

/-- The loop takes the completion of a receive. -/
theorem step_arrival {server : Server cfg} (hpoint : server.point = .completing) {cqe : Cqe}
    {cq : CompletionRing Cqe} (hnext : server.cq.next = some (cqe, cq)) {idx : UInt16} {len : ℕ}
    (htask : cqe.task = .arrival idx len) :
    server.step (.loop 0 0) = some ({ server with cq := cq }.completeRecv idx len 0 0) := by
  cases hdecode : decodeToken cqe.userData with
  | mk op other =>
      simp only [Cqe.task, hdecode] at htask
      cases op with
      | recv =>
          cases htask
          simp only [Server.step, Server.loop, hpoint, Server.takeCompletion, hnext, hdecode]
      | send =>
          dsimp only at htask
          split at htask <;> cases htask
      | sendNotif => cases htask

/-- A packet that fits finds the slot of its buffer, and leaves the slots as long as they are. -/
theorem exists_fill {pool : BufferPool} {idx : UInt16} {slot : MsgHdrSlot} {bytes : List UInt8}
    (src : SocketAddr) (hslot : pool.liveSlots idx = some slot)
    (hfits : bytes.length ≤ slot.iovLen) : ∃ filled, pool.fill idx src bytes = some filled ∧
      filled.freeList = pool.freeList ∧
      ∀ other old, pool.liveSlots other = some old →
        ∃ new, filled.liveSlots other = some new ∧ new.iovLen = old.iovLen := by
  refine ⟨{ pool.insertSlot idx { slot with addr := (writeSocketAddr src).1 } with
    memory := writeBytes pool.memory slot.iovBase bytes },
    by simp only [BufferPool.fill, hslot, if_pos hfits], rfl, fun other old hold => ?_⟩
  by_cases heq : other = idx
  · subst heq
    cases hslot.symm.trans hold
    exact ⟨_, Function.update_self .., rfl⟩
  · exact ⟨old, by simpa [BufferPool.insertSlot, Function.update_of_ne heq] using hold, rfl⟩

namespace Unattended

variable {server : Server cfg}

/-- What is not heard is submitted, in progress, or completed. -/
theorem held_eq (h : Unattended server) (hsq : server.sq.entries = [])
    (hoperations : server.operations = []) (hcompleted : server.completed = []) :
    server.held = 0 := by
  have htransit : server.relay.inTransit = 0 := by
    rw [h.relay]
    simp [Relay.inTransit, Relay.new, Shard.buffers, Shard.new]
  simp [Server.held, Server.home, Server.away, Server.submitted, h.free, hsq, hoperations,
    hcompleted, htransit]

/-- The kernel takes an entry, -/
theorem submit (h : Unattended server) {sqe : Sqe} {rest : List Sqe}
    (hsq : server.sq.entries = sqe :: rest) : ∃ next,
      server.step .submit = some (next, []) ∧ Unattended next ∧ next.toHear < server.toHear := by
  have hpublished : server.sq.published = sqe :: rest := by
    rwa [SubmissionRing.entries, h.published, List.append_nil] at hsq
  have hstep : server.step .submit = some ({ server with
      sq := { server.sq with taken := server.sq.taken + 1, published := rest }
      operations := server.operations ++ [sqe] }, []) := by
    simp [Server.step, SubmissionRing.take, hpublished]
  refine ⟨_, hstep, ⟨h.relay, h.control, h.free, h.published, fun other hmem => ?_, h.arrivals,
    h.point⟩, ?_⟩
  · refine h.receives other ?_
    simp only [Server.submitted, SubmissionRing.entries, hpublished, List.mem_append,
      List.mem_cons] at hmem ⊢
    tauto
  · simp only [Server.toHear, Server.completed, SubmissionRing.entries, hpublished,
      List.length_append, List.length_cons, List.length_nil]
    omega

/-- receives a packet, -/
theorem receive (h : Unattended server) {sqe : Sqe} {rest : List Sqe}
    (hoperations : server.operations = sqe :: rest) (src : SocketAddr) {bytes : List UInt8}
    (hbytes : bytes.length ≤ bufferSize) : ∃ next events,
      server.step (.receive 0 src bytes 0) = some (next, events) ∧ Unattended next ∧
        next.toHear < server.toHear := by
  have hsubmitted : sqe ∈ server.submitted :=
    List.mem_append_right _ (hoperations ▸ List.mem_cons_self)
  obtain ⟨hopcode, slot, hslot, hlen⟩ := h.receives sqe hsubmitted
  have hop : server.operation .recvMsg 0 = some sqe := by
    simp [Server.operation, hoperations, hopcode]
  obtain ⟨pool, hfill, hfree, hslots⟩ := exists_fill src hslot (hlen ▸ hbytes)
  have hstep : server.step (.receive 0 src bytes 0) =
      some ({ server with pool := pool }.finish 0 sqe bytes.length 0,
        [.received sqe.bufIdx bytes]) := by
    simp [Server.step, Server.receive, hop, hfill]
  have htask : (Cqe.mk sqe.userData bytes.length 0).task = .arrival sqe.bufIdx bytes.length := by
    rw [Cqe.task_mk, hopcode]
    simp
  have hcompleted : ({ server with pool := pool }.finish 0 sqe bytes.length 0).completed =
      server.completed ++ [.arrival sqe.bufIdx bytes.length] := by
    rw [Server.finish, Server.completed_post, htask]
    rfl
  refine ⟨_, _, hstep, ⟨h.relay, h.control, hfree.trans h.free, h.published, fun other hmem => ?_,
    fun task hmem => ?_, h.point⟩, ?_⟩
  · have hother : other ∈ server.submitted := by
      simp only [Server.finish, Server.post, Server.submitted, hoperations,
        List.eraseIdx_cons_zero, List.mem_append] at hmem ⊢
      exact hmem.imp_right (List.mem_cons_of_mem _)
    obtain ⟨hopcode', old, hold, hlen'⟩ := h.receives other hother
    obtain ⟨new, hnew, hsame⟩ := hslots other.bufIdx old hold
    exact ⟨hopcode', new, hnew, hsame.trans hlen'⟩
  · rw [hcompleted] at hmem
    rcases List.mem_append.mp hmem with hold | hnew
    · exact h.arrivals task hold
    · exact ⟨_, _, List.mem_singleton.mp hnew⟩
  · simp only [Server.toHear, hcompleted]
    simp only [Server.finish, Server.post, CompletionRing.post, hoperations,
      List.eraseIdx_cons_zero, List.length_append, List.length_cons, List.length_nil]
    omega

/-- and the loop goes on to what it has received. -/
theorem loop (h : Unattended server) (hcompleted : server.completed ≠ []) : ∃ next events,
      server.step (.loop 0 0) = some (next, events) ∧ Unattended next ∧
        next.toHear < server.toHear := by
  have hentries : server.cq.entries ≠ [] := by
    simpa [Server.completed] using hcompleted
  obtain ⟨hrelay, hcontrol, hfree, hpublished, hreceives, harrivals, hpoint⟩ := h
  have htxOut : server.relay.txOut = [] := by rw [hrelay]; rfl
  rcases hpoint with hpoint | hpoint | hpoint | hpoint | hpoint
  · refine ⟨{ server with sq := server.sq.refresh, point := .control }, [],
      by simp only [Server.step, Server.loop, hpoint],
      ⟨hrelay, hcontrol, hfree, hpublished, hreceives, harrivals, by simp⟩, ?_⟩
    simp [Server.toHear, Server.completed, LoopPoint.distance, hpoint]
  · refine ⟨{ server with point := .sending 0 }, [],
      by simp only [Server.step, Server.loop, hpoint, Server.takeControl, hcontrol],
      ⟨hrelay, hcontrol, hfree, hpublished, hreceives, harrivals, by simp⟩, ?_⟩
    simp [Server.toHear, Server.completed, LoopPoint.distance, hpoint]
  · refine ⟨{ server with point := .polling }, [],
      by simp [Server.step, Server.loop, hpoint, Server.takeSend, htxOut],
      ⟨hrelay, hcontrol, hfree, hpublished, hreceives, harrivals, by simp⟩, ?_⟩
    simp [Server.toHear, Server.completed, LoopPoint.distance, hpoint]
  · have hvisible : server.cq.sync.visible.isEmpty = false := by
      simpa [CompletionRing.sync] using hentries
    refine ⟨{ server with cq := server.cq.sync, point := .completing }, [],
      by simp [Server.step, Server.loop, hpoint, Server.poll, hvisible],
      ⟨hrelay, hcontrol, hfree, hpublished, hreceives, ?_, by simp⟩, ?_⟩
    · simpa [Server.completed] using harrivals
    · simp [Server.toHear, Server.completed, LoopPoint.distance, hpoint, hvisible]
  · cases hnext : server.cq.next with
    | none =>
        have hvisible : server.cq.visible = [] := by
          unfold CompletionRing.next at hnext
          split at hnext
          · assumption
          · cases hnext
        refine ⟨{ server with point := .control }, [],
          by simp [Server.step, Server.loop, hpoint, Server.takeCompletion, hnext],
          ⟨hrelay, hcontrol, hfree, hpublished, hreceives, harrivals, by simp⟩, ?_⟩
        simp [Server.toHear, Server.completed, LoopPoint.distance, hpoint, hvisible]
    | some result =>
        obtain ⟨cqe, cq⟩ := result
        have hsplit := CompletionRing.entries_next hnext
        obtain ⟨idx, len, htask⟩ := harrivals cqe.task (by simp [Server.completed, hsplit])
        refine ⟨({ server with cq := cq }.completeRecv idx len 0 0).1, _,
          (step_arrival hpoint hnext htask).trans rfl, ⟨?_, hcontrol, hfree, hpublished, hreceives,
          fun task hmem => harrivals task ?_, by simp [Server.completeRecv, hpoint]⟩, ?_⟩
        · simp only [Server.completeRecv, hrelay, route_new]
        · simp only [Server.completed, hsplit, List.map_cons]
          exact List.mem_cons_of_mem _ hmem
        · have hnear : ∀ visible : Bool, LoopPoint.completing.distance visible ≤ 4 := by
            simp [LoopPoint.distance]
          have hafter := hnear (!cq.visible.isEmpty)
          simp only [Server.toHear, Server.completed, Server.completeRecv, hsplit, hpoint,
            List.map_cons, List.length_cons]
          omega

end Unattended

/-- A server that still hears something has less to hear after the next step. -/
theorem canReach_less {src : SocketAddr} {bytes : List UInt8} (hbytes : bytes.length ≤ bufferSize)
    {c : Server cfg × List (ServerEvent cfg)}
    (hc : (serverMachine cfg).Reachable c ∧ Unattended c.1) (hdeaf : ¬ Deaf c) :
    (serverMachine cfg).CanReach (FromStranger src bytes) c fun d =>
      ((serverMachine cfg).Reachable d ∧ Unattended d.1) ∧ d.1.toHear < c.1.toHear := by
  obtain ⟨hc, h⟩ := hc
  have hone : ∀ {action : ServerAction cfg} {next : Server cfg} {events : List (ServerEvent cfg)},
      c.1.step action = some (next, events) → Unattended next → next.toHear < c.1.toHear →
      FromStranger src bytes action →
      (serverMachine cfg).CanReach (FromStranger src bytes) c fun d =>
        ((serverMachine cfg).Reachable d ∧ Unattended d.1) ∧ d.1.toHear < c.1.toHear := by
    intro action next events hstep hnext hless hallowed
    have hmachine : (serverMachine cfg).step c action = some (next, c.2 ++ events) :=
      Machine.traced_step.mpr ⟨next, events, hstep, rfl⟩
    exact .one hallowed hmachine ⟨⟨hc.step hmachine, hnext⟩, hless⟩
  cases hsq : c.1.sq.entries with
  | cons sqe rest =>
      obtain ⟨next, hstep, hnext, hless⟩ := h.submit hsq
      exact hone hstep hnext hless trivial
  | nil =>
      cases hoperations : c.1.operations with
      | cons sqe rest =>
          obtain ⟨next, events, hstep, hnext, hless⟩ := h.receive hoperations src hbytes
          exact hone hstep hnext hless ⟨rfl, rfl⟩
      | nil =>
          have hcompleted : c.1.completed ≠ [] := fun hnone =>
            hdeaf (deaf_of_held hc (h.held_eq hsq hoperations hnone))
          obtain ⟨next, events, hstep, hnext, hless⟩ := h.loop hcompleted
          exact hone hstep hnext hless trivial

/-- One source that no session names, whatever it sends, can make the server deaf. -/
theorem stranger_deafens (cfg : Config) (src : SocketAddr) {bytes : List UInt8}
    (hbytes : bytes.length ≤ bufferSize) :
    (serverMachine cfg).CanReach (FromStranger src bytes) (serverMachine cfg).init Deaf := by
  have hstart : (serverMachine cfg).Reachable (serverMachine cfg).init ∧
      Unattended (serverMachine cfg).init.1 :=
    ⟨Machine.reachable_init _, by rw [serverMachine_init]; exact unattended_started cfg⟩
  exact Machine.CanReach.of_measure (fun c => c.1.toHear) (fun c => canReach_less hbytes) hstart

theorem stranger_deafens_main :
    (serverMachine .main).CanReach (FromStranger (.v4 9 9) [1]) (serverMachine .main).init Deaf :=
  stranger_deafens .main (.v4 9 9) (by decide)

end P2PNetworking.TurnServer
