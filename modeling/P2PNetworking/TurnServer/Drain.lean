/-
# Nothing waits for ever in the relay

The loop and the shards never wait for each other: whatever is in the queues between them, the
threads of the server by themselves work it off, without the kernel and without the control
service, whatever the clock reads and whatever ids the sessions draw.  A session in the control
channel and a completion weigh more than the message for a shard that may come of them, and that
weighs more than what the shard may send.
-/

import P2PNetworking.TurnServer.ClientOrder
import P2PNetworking.TurnServer.Panics

namespace P2PNetworking.TurnServer

open P2PNetworking.Net P2PNetworking.Lib

variable {cfg : Config}

/-! ## What a shard has been given -/

/-- The packets that the loop has put into the queue of a shard. -/
def routedTo (shard : Fin cfg.shardNum) (trace : List (RelayEvent cfg)) : List Packet :=
  trace.filterMap fun
    | .routed packet (some target) => if target = shard then some packet else none
    | _ => none

@[simp]
theorem routedTo_append (shard : Fin cfg.shardNum) (first second : List (RelayEvent cfg)) :
    routedTo shard (first ++ second) = routedTo shard first ++ routedTo shard second :=
  List.filterMap_append

/-- A shard deals with its packets in order, and the others wait. -/
def InQueue (c : Relay cfg × List (RelayEvent cfg)) : Prop :=
  ∀ shard, routedTo shard c.2 =
    (handledBy shard c.2).map Prod.fst ++ (c.1.shards shard).waiting

namespace InQueue

variable {relay next : Relay cfg} {trace : List (RelayEvent cfg)}

theorem route (h : InQueue (relay, trace)) (packet : Packet) :
    InQueue ((relay.route packet).1, trace ++ [.routed packet (relay.route packet).2]) := by
  intro shard
  have hold := h shard
  have hdropped : routedTo shard (trace ++ [.routed packet none]) =
      (handledBy shard (trace ++ [.routed packet none])).map Prod.fst ++
        (relay.shards shard).waiting := by
    simpa [routedTo, handledBy] using hold
  unfold Relay.route
  split
  · exact hdropped
  · next idx hlookup =>
    by_cases hroom : relay.HasRoom idx
    · simp only [Relay.enqueue, if_pos hroom]
      by_cases heq : shard = idx
      · subst heq
        rw [Relay.shards_setShard_self, Shard.waiting_push, routedTo_append, hold]
        simp [routedTo, handledBy, MessageType.packet]
      · rw [Relay.shards_setShard_of_ne _ _ heq]
        simpa [routedTo, handledBy, Ne.symm heq] using hold
    · simp only [Relay.enqueue, if_neg hroom]
      exact hdropped

theorem handle (h : InQueue (relay, trace)) {shard : Fin cfg.shardNum}
    {events : List (RelayEvent cfg)} (hstep : relay.handle shard = some (next, events)) :
    InQueue (next, trace ++ events) := by
  intro other
  have hold := h other
  unfold Relay.handle at hstep
  split at hstep
  · cases hstep
  · next packet hhandling =>
    cases hstep
    by_cases heq : other = shard
    · subst heq
      simpa [routedTo, handledBy, Shard.waiting, hhandling] using hold
    · simpa [routedTo, handledBy, Relay.shards_setShard_of_ne _ _ heq, Ne.symm heq] using hold

theorem step (h : InQueue (relay, trace)) {action : RelayAction cfg}
    {events : List (RelayEvent cfg)} (hstep : relay.step action = some (next, events)) :
    InQueue (next, trace ++ events) := by
  cases action with
  | addSession session =>
      cases hstep
      intro shard
      rw [Relay.waiting_addSession]
      simpa [routedTo, handledBy] using h shard
  | route packet =>
      cases hstep
      exact h.route packet
  | dequeue shard sessionId =>
      obtain ⟨after, hdequeue, heq⟩ := Option.map_eq_some_iff.mp hstep
      cases heq
      intro other
      rw [List.append_nil, Relay.waiting_dequeue hdequeue]
      exact h other
  | handle shard => exact h.handle hstep
  | take =>
      simp only [Relay.step] at hstep
      split at hstep
      · cases hstep
      · cases hstep
        intro shard
        rw [List.append_nil]
        exact h shard

end InQueue

theorem inQueue_of_reachable {c : Relay cfg × List (RelayEvent cfg)}
    (hc : (relayMachine cfg).Reachable c) : InQueue c := by
  refine Machine.Reachable.induct (P := InQueue) (fun _ => rfl) ?_ hc
  rintro ⟨relay, trace⟩ action d - h hstep
  obtain ⟨next, events, hnext, rfl⟩ := Machine.traced_step.mp hstep
  exact h.step hnext

/-! ## The load of the relay -/

def Shard.load (shard : Shard) : ℕ := 3 * shard.recv.length + 2 * shard.handling.toList.length

theorem Shard.load_push (shard : Shard) (msg : MessageType) :
    (shard.push msg).load = shard.load + 3 := by
  simp only [load, push, recv_withQueue, handling_withQueue, List.length_append,
    List.length_singleton]
  omega

namespace Relay

variable {relay next : Relay cfg}

def load (relay : Relay cfg) : ℕ := ∑ shard, (relay.shards shard).load + relay.txOut.length

theorem load_setShard (relay : Relay cfg) (shard : Fin cfg.shardNum) (state : Shard) :
    (relay.setShard shard state).load + (relay.shards shard).load = relay.load + state.load := by
  have hsum : ∑ other, ((relay.setShard shard state).shards other).load +
      (relay.shards shard).load = ∑ other, (relay.shards other).load + state.load := by
    have hupdate : (fun other => ((relay.setShard shard state).shards other).load) =
        Function.update (fun other => (relay.shards other).load) shard state.load := by
      funext other
      by_cases heq : other = shard
      · subst heq
        simp
      · rw [shards_setShard_of_ne _ _ heq, Function.update_of_ne heq]
    rw [hupdate]
    exact sum_update_add _ _ _
  rw [load, load, txOut_setShard]
  omega

theorem load_enqueue {shard : Fin cfg.shardNum} {msg : MessageType}
    (h : relay.enqueue shard msg = some next) : next.load = relay.load + 3 := by
  unfold enqueue at h
  split at h
  · cases h
    have hset := relay.load_setShard shard ((relay.shards shard).push msg)
    rw [Shard.load_push] at hset
    omega
  · cases h

theorem load_addSession (relay : Relay cfg) (session : Session) :
    (relay.addSession session).load ≤ relay.load + 3 := by
  have hload : (relay.addSession session).load =
      ((relay.enqueue relay.router.next (.addSession session)).getD relay).load := rfl
  rw [hload]
  cases henqueue : relay.enqueue relay.router.next (.addSession session) with
  | none => exact Nat.le_add_right _ _
  | some queued => exact Nat.le_of_eq (load_enqueue henqueue)

theorem load_route (relay : Relay cfg) (packet : Packet) :
    (relay.route packet).1.load ≤ relay.load + 3 := by
  unfold route
  split
  · exact Nat.le_add_right _ _
  · split
    · exact Nat.le_add_right _ _
    · next henqueue => exact Nat.le_of_eq (load_enqueue henqueue)

theorem load_dequeue {shard : Fin cfg.shardNum} {sessionId : Uuid}
    (h : relay.dequeue shard sessionId = some next) : next.load < relay.load := by
  unfold dequeue at h
  split at h
  · next session rest hhandling hrecv =>
    cases h
    have hset := relay.load_setShard shard
      (((relay.shards shard).withQueue rest none).addSession sessionId session)
    simp only [Shard.load, Shard.recv_addSession, Shard.handling_addSession, Shard.recv_withQueue,
      Shard.handling_withQueue, hhandling, hrecv, List.length_cons] at hset
    omega
  · next packet rest hhandling hrecv =>
    cases h
    have hset := relay.load_setShard shard ((relay.shards shard).withQueue rest (some packet))
    simp only [Shard.load, Shard.recv_withQueue, Shard.handling_withQueue, hhandling, hrecv,
      List.length_cons, Option.toList_some, Option.toList_none, List.length_nil] at hset
    omega
  · cases h

theorem load_handle {shard : Fin cfg.shardNum} {events : List (RelayEvent cfg)}
    (h : relay.handle shard = some (next, events)) : next.load < relay.load := by
  unfold handle at h
  split at h
  · cases h
  · next packet hhandling =>
    cases h
    have hset := relay.load_setShard shard
      ((relay.shards shard).withQueue (relay.shards shard).recv none)
    have hsent : (relay.sends shard packet).toList.length ≤ 1 := by
      cases relay.sends shard packet <;> simp
    simp only [Shard.load, Shard.recv_withQueue, Shard.handling_withQueue, hhandling,
      Option.toList_some, Option.toList_none, List.length_nil, List.length_cons] at hset
    simp only [load, txOut_setShard, List.length_append] at hset ⊢
    omega

/-- A shard with nothing to do. -/
def Idle (relay : Relay cfg) : Prop :=
  ∀ shard, (relay.shards shard).recv = [] ∧ (relay.shards shard).handling = none

theorem load_of_idle (h : relay.Idle) : relay.load = relay.txOut.length := by
  have hshard : ∀ shard, (relay.shards shard).load = 0 := by
    intro shard
    obtain ⟨hrecv, hhandling⟩ := h shard
    simp [Shard.load, hrecv, hhandling]
  simp [load, hshard]

theorem idle_or_busy (relay : Relay cfg) : relay.Idle ∨ ∃ shard,
    (∀ sessionId, ∃ next, relay.dequeue shard sessionId = some next) ∨
      ∃ next events, relay.handle shard = some (next, events) := by
  by_cases hidle : relay.Idle
  · exact .inl hidle
  · obtain ⟨shard, hbusy⟩ := not_forall.mp hidle
    refine .inr ⟨shard, ?_⟩
    cases hhandling : (relay.shards shard).handling with
    | some packet => exact .inr ⟨_, _, by simp only [handle, hhandling]; rfl⟩
    | none =>
        left
        cases hrecv : (relay.shards shard).recv with
        | nil => exact absurd ⟨hrecv, hhandling⟩ hbusy
        | cons msg rest =>
            intro sessionId
            cases msg <;> exact ⟨_, by simp only [dequeue, hhandling, hrecv]; rfl⟩

end Relay

/-! ## The loop goes round -/

namespace Server

variable {server next : Server cfg}

/-- What is left for the threads of the server. -/
def load (server : Server cfg) : ℕ :=
  5 * server.control.length + 5 * server.completed.length + server.relay.load

/-- The same is left. -/
structure SameWork (server next : Server cfg) : Prop where
  control : next.control = server.control
  completed : next.completed = server.completed
  relay : next.relay = server.relay

theorem SameWork.load (h : SameWork server next) : next.load = server.load := by
  rw [Server.load, Server.load, h.control, h.completed, h.relay]

/-- The loop goes on to the next of its places, with less or with as much to do, whatever the
clock reads. -/
def GoesOn (server : Server cfg) (after : Server cfg → Prop) : Prop :=
  ∀ first second, ∃ next events, server.step (.loop first second) = some (next, events) ∧
    (next.load < server.load ∨ SameWork server next ∧ after next)

theorem goesOn_seeded (hpoint : server.point = .seeded) :
    server.GoesOn fun next => next.point = .control :=
  fun _ _ => ⟨{ server with sq := server.sq.refresh, point := .control }, [],
    by simp only [step, loop, hpoint], .inr ⟨⟨rfl, rfl, rfl⟩, rfl⟩⟩

theorem goesOn_published (hpoint : server.point = .published) :
    server.GoesOn fun next => next.point = .polling :=
  fun _ _ => ⟨{ server with sq := server.sq.refresh, point := .polling }, [],
    by simp only [step, loop, hpoint], .inr ⟨⟨rfl, rfl, rfl⟩, rfl⟩⟩

theorem goesOn_control (hpoint : server.point = .control) :
    server.GoesOn fun next => server.control = [] ∧ next.point = .sending 0 := by
  intro _ _
  refine ⟨server.takeControl.1, server.takeControl.2, by simp only [step, loop, hpoint], ?_⟩
  unfold takeControl
  split
  · next session rest hcontrol =>
    have hrelay := server.relay.load_addSession session
    refine .inl ?_
    simp only [load, completed, hcontrol, List.length_cons]
    omega
  · next packet rest hcontrol =>
    refine .inl ?_
    simp only [load, completed, hcontrol, List.length_cons]
    omega
  · next hcontrol => exact .inr ⟨⟨rfl, rfl, rfl⟩, hcontrol, rfl⟩

theorem goesOn_sending {pushed : ℕ} (hpoint : server.point = .sending pushed) :
    server.GoesOn fun next => server.relay.txOut = [] ∧
      (next.point = .polling ∨ 0 < pushed ∧ next.point = .published) := by
  intro first second
  refine ⟨(server.takeSend pushed first second).1, (server.takeSend pushed first second).2,
    by simp only [step, loop, hpoint], ?_⟩
  cases htxOut : server.relay.txOut with
  | cons entry rest =>
      left
      simp only [takeSend, htxOut, load, completed, Relay.load, List.length_cons]
      omega
  | nil =>
      right
      simp only [takeSend, htxOut]
      split
      · next hpushed => exact ⟨⟨rfl, rfl, rfl⟩, trivial, .inr ⟨hpushed, rfl⟩⟩
      · exact ⟨⟨rfl, rfl, rfl⟩, trivial, .inl rfl⟩

theorem goesOn_polling (hpoint : server.point = .polling) :
    server.GoesOn fun next => next.point = .control ∧ server.completed = [] ∨
      next.point = .completing ∧ next.cq.visible ≠ [] := by
  intro _ _
  refine ⟨server.poll, [], by simp only [step, loop, hpoint], .inr ⟨⟨rfl, ?_, rfl⟩, ?_⟩⟩
  · simp [completed, poll]
  · cases hentries : server.cq.entries with
    | nil =>
        refine .inl ⟨?_, by simp [completed, hentries]⟩
        simp [poll, CompletionRing.sync, hentries]
    | cons cqe rest =>
        refine .inr ⟨?_, ?_⟩
        · simp [poll, CompletionRing.sync, hentries]
        · simp [poll, CompletionRing.sync, hentries]

/-- A completion leaves a message for a shard at most. -/
theorem work_takeCompletion {cqe : Cqe} {cq : CompletionRing Cqe}
    (hnext : server.cq.next = some (cqe, cq)) (first second : ℕ) :
    (server.takeCompletion first second).1.control = server.control ∧
      (server.takeCompletion first second).1.cq = cq ∧
      (server.takeCompletion first second).1.relay.load ≤ server.relay.load + 3 := by
  cases hdecode : decodeToken cqe.userData with
  | mk op idx =>
      simp only [takeCompletion, hnext, hdecode]
      cases op with
      | recv => exact ⟨rfl, rfl, Relay.load_route _ _⟩
      | send => cases more cqe.flags <;> exact ⟨rfl, rfl, Nat.le_add_right _ _⟩
      | sendNotif => exact ⟨rfl, rfl, Nat.le_add_right _ _⟩

theorem goesOn_completing (hpoint : server.point = .completing) :
    server.GoesOn fun next => server.cq.visible = [] ∧ next.point = .control := by
  intro first second
  refine ⟨(server.takeCompletion first second).1, (server.takeCompletion first second).2,
    by simp only [step, loop, hpoint], ?_⟩
  cases hnext : server.cq.next with
  | none =>
      right
      have hvisible : server.cq.visible = [] := by
        unfold CompletionRing.next at hnext
        split at hnext
        · assumption
        · cases hnext
      simp only [takeCompletion, hnext]
      exact ⟨⟨rfl, rfl, rfl⟩, hvisible, trivial⟩
  | some result =>
      left
      obtain ⟨cqe, cq⟩ := result
      have hsplit := CompletionRing.entries_next hnext
      obtain ⟨hcontrol, hcq, hrelay⟩ := work_takeCompletion hnext first second
      simp only [load, completed, hcontrol, hcq, hsplit, List.map_cons, List.length_cons]
      omega

end Server

/-- What the threads of the server do by themselves, -/
inductive ThreadStep (cfg : Config)
  | loop
  | dequeue (shard : Fin cfg.shardNum)
  | handle (shard : Fin cfg.shardNum)

/-- and what is not up to them: what the clock reads and which id a session draws. -/
structure Draw where
  first : ℕ
  second : ℕ
  sessionId : Uuid

def ThreadStep.action : ThreadStep cfg → Draw → ServerAction cfg
  | .loop, draw => .loop draw.first draw.second
  | .dequeue shard, draw => .dequeue shard draw.sessionId
  | .handle shard, _ => .handle shard

section Round

variable {c : Server cfg × List (ServerEvent cfg)} {n : ℕ}

/-- There will be less to do than there was. -/
def Less (n : ℕ) (c : Server cfg × List (ServerEvent cfg)) : Prop :=
  (serverMachine cfg).Ensures ThreadStep.action (fun d => d.1.load < n) c

/-- It is enough to look where the loop goes. -/
theorem less_of_goesOn {after : Server cfg → Prop} (h : c.1.GoesOn after) (hload : c.1.load = n)
    (hafter : ∀ d : Server cfg × List (ServerEvent cfg), Server.SameWork c.1 d.1 → d.1.load = n →
      after d.1 → Less n d) : Less n c := by
  refine .of_forall .loop fun draw => ?_
  obtain ⟨next, events, hstep, hcase⟩ := h draw.first draw.second
  refine ⟨(next, c.2 ++ events), Machine.traced_step.mpr ⟨next, events, hstep, rfl⟩, ?_⟩
  rcases hcase with hless | ⟨hsame, hnext⟩
  · exact .here (hload ▸ hless)
  · exact hafter (next, c.2 ++ events) hsame (hsame.load.trans hload) hnext

/-- A whole round does something if there is anything to do, -/
theorem less_of_control (hidle : c.1.relay.Idle) (hload : c.1.load = n) (hn : 0 < n)
    (hpoint : c.1.point = .control) : Less n c := by
  refine less_of_goesOn (Server.goesOn_control hpoint) hload fun d hd hdload hdpoint => ?_
  obtain ⟨hcontrol, hdpoint⟩ := hdpoint
  refine less_of_goesOn (Server.goesOn_sending hdpoint) hdload fun e he heload hepoint => ?_
  obtain ⟨htxOut, hepoint⟩ := hepoint
  have hepolling : e.1.point = .polling :=
    hepoint.resolve_right fun hmore => Nat.lt_irrefl 0 hmore.1
  refine less_of_goesOn (Server.goesOn_polling hepolling) heload fun f hf hfload hfpoint => ?_
  rcases hfpoint with ⟨-, hcompleted⟩ | ⟨hfpoint, hvisible⟩
  · have hnothing : e.1.load = 0 := by
      have hrelay : e.1.relay.load = 0 := by
        rw [he.relay, Relay.load_of_idle (hd.relay ▸ hidle), htxOut]
        rfl
      simp [Server.load, hcompleted, hrelay, he.control, hd.control, hcontrol]
    omega
  · exact less_of_goesOn (Server.goesOn_completing hfpoint) hfload
      fun g _ _ hgpoint => absurd hgpoint.1 hvisible

/-- and from everywhere the loop comes to the start of a round. -/
theorem less_of_idle (hidle : c.1.relay.Idle) (hload : c.1.load = n) (hn : 0 < n)
    (hrunning : c.1.point ≠ .panicked) : Less n c := by
  have hcompleting : ∀ d : Server cfg × List (ServerEvent cfg), d.1.relay = c.1.relay →
      d.1.load = n → d.1.point = .completing → Less n d := by
    intro d hrelay hdload hpoint
    exact less_of_goesOn (Server.goesOn_completing hpoint) hdload fun e he heload hepoint =>
      less_of_control (he.relay ▸ hrelay ▸ hidle) heload hn hepoint.2
  have hpolling : ∀ d : Server cfg × List (ServerEvent cfg), d.1.relay = c.1.relay →
      d.1.load = n → d.1.point = .polling → Less n d := by
    intro d hrelay hdload hpoint
    refine less_of_goesOn (Server.goesOn_polling hpoint) hdload fun e he heload hepoint => ?_
    rcases hepoint with ⟨hepoint, -⟩ | ⟨hepoint, -⟩
    · exact less_of_control (he.relay ▸ hrelay ▸ hidle) heload hn hepoint
    · exact hcompleting e (he.relay.trans hrelay) heload hepoint
  have hpublished : ∀ d : Server cfg × List (ServerEvent cfg), d.1.relay = c.1.relay →
      d.1.load = n → d.1.point = .published → Less n d := by
    intro d hrelay hdload hpoint
    exact less_of_goesOn (Server.goesOn_published hpoint) hdload fun e he heload hepoint =>
      hpolling e (he.relay.trans hrelay) heload hepoint
  cases hpoint : c.1.point with
  | seeded =>
      exact less_of_goesOn (Server.goesOn_seeded hpoint) hload fun d hd hdload hdpoint =>
        less_of_control (hd.relay ▸ hidle) hdload hn hdpoint
  | control => exact less_of_control hidle hload hn hpoint
  | sending pushed =>
      refine less_of_goesOn (Server.goesOn_sending hpoint) hload fun d hd hdload hdpoint => ?_
      rcases hdpoint with ⟨-, hdpoint | ⟨-, hdpoint⟩⟩
      · exact hpolling d hd.relay hdload hdpoint
      · exact hpublished d hd.relay hdload hdpoint
  | published => exact hpublished c rfl hload hpoint
  | polling => exact hpolling c rfl hload hpoint
  | completing => exact hcompleting c rfl hload hpoint
  | panicked => exact absurd hpoint hrunning

/-- Whoever has something to do can do it. -/
theorem less_of_pos (hc : (serverMachine cfg).Reachable c) (hload : 0 < c.1.load) :
    Less c.1.load c := by
  rcases c.1.relay.idle_or_busy with hidle | ⟨shard, hdequeue | ⟨next, events, hhandle⟩⟩
  · exact less_of_idle hidle rfl hload (loopInv_of_reachable hc).running
  · refine .of_forall (.dequeue shard) fun draw => ?_
    obtain ⟨next, hnext⟩ := hdequeue draw.sessionId
    have hstep : c.1.step (.dequeue shard draw.sessionId) =
        some ({ c.1 with relay := next }, []) := by
      simp only [Server.step, hnext, Option.map_some]
    exact ⟨_, Machine.traced_step.mpr ⟨_, _, hstep, rfl⟩,
      .here (Nat.add_lt_add_left (Relay.load_dequeue hnext) _)⟩
  · have hstep : c.1.step (.handle shard) =
        some ({ c.1 with relay := next }, events.map .relay) := by
      simp only [Server.step, hhandle, Option.map_some]
    exact .of_forall (.handle shard) fun _ => ⟨_, Machine.traced_step.mpr ⟨_, _, hstep, rfl⟩,
      .here (Nat.add_lt_add_left (Relay.load_handle hhandle) _)⟩

end Round

/-! ## Everything is worked off -/

/-- Nothing is left for the threads of the server. -/
structure WorkedOff (c : Server cfg × List (ServerEvent cfg)) : Prop where
  control : c.1.control = []
  completed : c.1.completed = []
  idle : c.1.relay.Idle
  txOut : c.1.relay.txOut = []
  /-- Every shard has dealt with all that it was given, in order, -/
  handled : ∀ shard, (handledBy shard (relayTrace c.2)).map Prod.fst =
    routedTo shard (relayTrace c.2)
  /-- and all that the shards have sent has been given to `post_send_sqe`, in order. -/
  posted : posted c.2 = (sent (relayTrace c.2)).map Packet.bufIdx

theorem workedOff_of_load {c : Server cfg × List (ServerEvent cfg)}
    (hc : (serverMachine cfg).Reachable c) (hload : c.1.load = 0) : WorkedOff c := by
  have hqueue := inQueue_of_reachable ((relayComponent cfg).reachable_view hc)
  have hsent := sent_eq_posted hc
  simp only [Server.load, Relay.load, Nat.add_eq_zero_iff, Nat.mul_eq_zero, List.length_eq_zero_iff,
    OfNat.ofNat_ne_zero, false_or, Finset.sum_eq_zero_iff, Finset.mem_univ, true_imp_iff] at hload
  obtain ⟨⟨hcontrol, hcompleted⟩, hshards, htxOut⟩ := hload
  have hidle : c.1.relay.Idle := by
    intro shard
    have hshard := hshards shard
    simp only [Shard.load, Nat.add_eq_zero_iff, Nat.mul_eq_zero, List.length_eq_zero_iff,
      OfNat.ofNat_ne_zero, false_or, Option.toList_eq_nil_iff] at hshard
    exact hshard
  refine ⟨hcontrol, hcompleted, hidle, htxOut, fun shard => ?_, ?_⟩
  · have hshard : routedTo shard (relayTrace c.2) = _ := hqueue shard
    obtain ⟨hrecv, hhandling⟩ := hidle shard
    rw [hshard]
    simp [relayComponent, Shard.waiting, hrecv, hhandling]
  · rw [hsent, Relay.leaving, htxOut]
    simp

/-- In whatever state the queues are, and whatever has been lost, the threads of the server by
themselves can work off everything that they have been given, whatever they draw on the way. -/
theorem ensures_workedOff {c : Server cfg × List (ServerEvent cfg)}
    (hc : (serverMachine cfg).Reachable c) :
    (serverMachine cfg).Ensures ThreadStep.action WorkedOff c := by
  refine Machine.Ensures.of_measure (fun c : Server cfg × List (ServerEvent cfg) => c.1.load)
    (fun d own draw e hd hstep => hd.step hstep) (fun d hd hleft => ?_) hc
  refine less_of_pos hd ?_
  rw [Nat.pos_iff_ne_zero]
  exact fun hzero => hleft (workedOff_of_load hd hzero)

/-- The first session and its first packet have come, and the loop has not begun. -/
def firstPacket : List (ServerAction .main) := relayOnce.take 3

theorem ensures_workedOff_firstPacket : ∃ c,
    (serverMachine .main).exec (serverMachine .main).init firstPacket = some c ∧
      c.1.load = 10 ∧ (serverMachine .main).Ensures ThreadStep.action WorkedOff c ∧
      ∀ draw : Draw, (serverMachine .main).CanReach
        (fun action => ∃ own, action = ThreadStep.action own draw) c WorkedOff := by
  obtain ⟨c, hexec, hload⟩ : ∃ c ∈
      (serverMachine .main).exec (serverMachine .main).init firstPacket, c.1.load = 10 := by
    rw [serverMachine_init]
    decide +kernel
  have hensures := ensures_workedOff ⟨firstPacket, hexec⟩
  exact ⟨c, hexec, hload, hensures, fun draw =>
    hensures.canReach (fun _ _ => draw) fun _ own => ⟨own, rfl⟩⟩

end P2PNetworking.TurnServer
