/-
# First come, first served

All packets of the first implementation go through shard 0, and every queue on the way keeps its
order.  Seen from outside the server is therefore one first-in-first-out channel: what it posts
are the answers to the packets that have come, in the order of their completions, without a
gap, and the answers it still owes are those to the packets that are on their way.
-/

import P2PNetworking.TurnServer.FirstImpl.Stranded

namespace P2PNetworking.TurnServer.FirstImpl

open P2PNetworking.Net P2PNetworking.Lib

/-! ## Histories -/

/-- The packets that have come, in the order of their completions; a failed receive leaves no
address behind. -/
def arrivals (trace : List ServerEvent) : List Packet :=
  trace.filterMap fun
    | .received idx src bytes => some ⟨idx, bytes.length, unscoped src⟩
    | .receiveFailed idx => some ⟨idx, 0, .unspecified⟩
    | _ => none

/-- The packets given to a shard. -/
def routed (trace : List ServerEvent) : List Packet :=
  trace.filterMap fun
    | .routed packet => some packet
    | _ => none

/-- The packets that a shard has dealt with. -/
def handled (trace : List ServerEvent) : List Packet :=
  trace.filterMap fun
    | .handled packet _ => some packet
    | _ => none

/-- The sends that have been posted. -/
def posted (trace : List ServerEvent) : List SqeType :=
  trace.filterMap fun
    | .postedSend entry _ => some entry
    | _ => none

@[simp]
theorem arrivals_append (first second : List ServerEvent) :
    arrivals (first ++ second) = arrivals first ++ arrivals second := List.filterMap_append

@[simp]
theorem routed_append (first second : List ServerEvent) :
    routed (first ++ second) = routed first ++ routed second := List.filterMap_append

@[simp]
theorem handled_append (first second : List ServerEvent) :
    handled (first ++ second) = handled first ++ handled second := List.filterMap_append

@[simp]
theorem posted_append (first second : List ServerEvent) :
    posted (first ++ second) = posted first ++ posted second := List.filterMap_append

/-- The packet that a completion is about. -/
def taskPacket (pool : BufferPool) : Task → Option Packet
  | .arrival idx len => some ⟨idx, len, pool.getPeerAddr idx⟩
  | _ => none

/-- Pools with the same addresses make the same packets. -/
theorem filterMap_taskPacket {pool other : BufferPool} {tasks : List Task}
    (h : ∀ idx ∈ tasks.filterMap taskBuffer, pool.getPeerAddr idx = other.getPeerAddr idx) :
    tasks.filterMap (taskPacket pool) = tasks.filterMap (taskPacket other) := by
  apply List.filterMap_congr
  intro task htask
  cases task with
  | arrival idx len =>
      have hidx : idx ∈ tasks.filterMap taskBuffer :=
        List.mem_filterMap.mpr ⟨_, htask, rfl⟩
      simp only [taskPacket, h idx hidx]
  | _ => rfl

namespace Server

variable {cfg : Config} {server next : Server cfg} {action : ServerAction cfg}
  {events : List ServerEvent}

/-- The packets that the loop has not given to a shard. -/
def waiting (server : Server cfg) : List Packet :=
  server.completed.filterMap (taskPacket server.io.pool)

/-- The packets of shard 0. -/
def pending (server : Server cfg) : List Packet :=
  (server.workers cfg.firstShard).handling.toList ++ (server.workers cfg.firstShard).recv

/-! ## Addresses -/

/-- A buffer is in one of the places only. -/
theorem places_disjoint (h : server.held.Nodup) :
    (∀ idx ∈ server.completed.filterMap taskBuffer, idx ∉ server.submitted.map Sqe.bufIdx) ∧
      (∀ idx ∈ server.inTransit, idx ∉ server.submitted.map Sqe.bufIdx ∧
        idx ∉ server.completed.filterMap taskBuffer) := by
  obtain ⟨hring, -, htransit⟩ := Multiset.nodup_add.mp h
  obtain ⟨-, -, hcompleted⟩ := Multiset.nodup_add.mp hring
  refine ⟨fun idx hmem hsubmitted => ?_, fun idx hmem => ⟨fun hsubmitted => ?_, fun hdone => ?_⟩⟩
  · exact Multiset.disjoint_left.mp hcompleted (Multiset.mem_add.mpr (.inr hsubmitted)) hmem
  · refine Multiset.disjoint_left.mp htransit ?_ hmem
    exact Multiset.mem_add.mpr (.inl (Multiset.mem_add.mpr (.inr hsubmitted)))
  · exact Multiset.disjoint_left.mp htransit (Multiset.mem_add.mpr (.inr hdone)) hmem

/-- A new message header concerns its buffer only. -/
theorem getPeerAddr_insertSlot (pool : BufferPool) {idx other : UInt16} (slot : MsgHdrSlot)
    (hne : idx ≠ other) :
    (pool.insertSlot other slot).getPeerAddr idx = pool.getPeerAddr idx := by
  simp only [BufferPool.getPeerAddr, BufferPool.insertSlot, Function.update_of_ne hne]

/-- The receives that the kernel has not finished have empty message headers. -/
def Fresh (server : Server cfg) : Prop :=
  ∀ sqe ∈ server.submitted, sqe.opcode = .recvMsg →
    server.io.pool.getPeerAddr sqe.bufIdx = .unspecified

/-- What is there in each place, and the addresses in the pool, is as before. -/
theorem waiting_congr (hcompleted : next.completed = server.completed)
    (hpeer : ∀ idx ∈ server.completed.filterMap taskBuffer,
      next.io.pool.getPeerAddr idx = server.io.pool.getPeerAddr idx) :
    next.waiting = server.waiting := by
  rw [waiting, waiting, hcompleted]
  exact filterMap_taskPacket hpeer

/-- A posted operation changes the message header of its buffer. -/
theorem getPeerAddr_postSend (entry : SqeType) (rest : List SqeType) (pushed now : ℕ)
    {idx : UInt16} (hne : idx ≠ entry.2.2) :
    (server.postSend entry rest pushed now).io.pool.getPeerAddr idx =
      server.io.pool.getPeerAddr idx :=
  getPeerAddr_insertSlot server.io.pool _ hne

theorem getPeerAddr_release {idx other : UInt16} (hne : idx ≠ other) :
    (server.release other).1.io.pool.getPeerAddr idx = server.io.pool.getPeerAddr idx :=
  getPeerAddr_insertSlot server.io.pool _ hne

/-- A completion that sets a buffer free brings no packet, and the others keep theirs. -/
theorem waiting_repost {cqe : Cqe} {rest : List Cqe} {idx : UInt16}
    (hnodup : server.held.Nodup) (hpoint : server.point = .completing (cqe :: rest))
    (htask : taskBuffer cqe.task = some idx) (hfreed : taskPacket server.io.pool cqe.task = none)
    (hcq : next.io.cq = server.io.cq) (hinHand : next.point.inHand = rest)
    (hpeer : ∀ other, other ≠ idx →
      next.io.pool.getPeerAddr other = server.io.pool.getPeerAddr other) :
    next.waiting = server.waiting := by
  have hcompleted : server.completed = cqe.task :: next.completed := by
    rw [completed, completed, hpoint, hinHand, hcq]
    rfl
  have hnodup' : (server.completed.filterMap taskBuffer).Nodup := by
    obtain ⟨hring, -, -⟩ := Multiset.nodup_add.mp hnodup
    exact Multiset.coe_nodup.mp (Multiset.nodup_add.mp hring).2.1
  rw [hcompleted, List.filterMap_cons_some htask, List.nodup_cons] at hnodup'
  rw [waiting, waiting, hcompleted, List.filterMap_cons_none hfreed]
  apply filterMap_taskPacket
  intro other hother
  apply hpeer
  rintro rfl
  exact hnodup'.1 hother

/-- An operation of the kernel is a submitted one. -/
theorem mem_submitted_of_operation {opcode : Opcode} {position : ℕ} {sqe : Sqe}
    (hop : server.io.operation opcode position = some sqe) : sqe ∈ server.submitted := by
  obtain ⟨hsome, -⟩ := Option.filter_eq_some_iff.mp hop
  exact List.mem_append_right _ (List.mem_of_getElem? hsome)

/-- A completion that the kernel posts comes after those there are. -/
theorem waiting_post (io : IoRing) (sqe : Sqe) (result : ℤ) (flags : UInt32)
    (hcq : io.cq = server.io.cq)
    (hpeer : ∀ idx ∈ server.completed.filterMap taskBuffer,
      io.pool.getPeerAddr idx = server.io.pool.getPeerAddr idx) :
    ({ server with io := io.post sqe result flags } : Server cfg).waiting =
      server.waiting ++ (taskPacket io.pool (Cqe.mk sqe.userData result flags).task).toList := by
  rw [waiting, completed_post server io sqe result flags hcq, List.filterMap_append, waiting,
    ← filterMap_taskPacket hpeer]
  congr 1

theorem waiting_kernel {io : IoRing} (h : server.io.Kernel io events)
    (hnodup : server.held.Nodup) (hfresh : server.Fresh) :
    ({ server with io := io } : Server cfg).waiting = server.waiting ++ arrivals events ∧
      routed events = [] := by
  cases h with
  | submit htake => exact ⟨(waiting_congr rfl fun _ _ => rfl).trans (List.append_nil _).symm, rfl⟩
  | @receive position src bytes flags sqe pool hop hfill =>
      refine ⟨(waiting_post { server.io with
        pool := pool, operations := server.io.operations.eraseIdx position } sqe _ flags rfl
          ?_).trans ?_, rfl⟩
      · intro idx hidx
        obtain ⟨slot, -, -, rfl⟩ := BufferPool.fill_eq_some hfill
        apply getPeerAddr_insertSlot
        rintro rfl
        exact (places_disjoint hnodup).1 _ hidx
          (List.mem_map_of_mem (mem_submitted_of_operation hop))
      · have hpeer := (peer_of_fill hfill).1
        rw [Cqe.task_mk, IoRing.opcode_of_operation hop]
        have hlen : (max (bytes.length : ℤ) 0).toNat = bytes.length := by omega
        simp only [taskPacket, hlen]
        rw [show pool.getPeerAddr sqe.bufIdx = unscoped src from hpeer]
        rfl
  | @failReceive position result flags sqe hop hresult =>
      refine ⟨(waiting_post { server.io with
        operations := server.io.operations.eraseIdx position } sqe _ flags rfl
          fun _ _ => rfl).trans ?_, rfl⟩
      have hopcode := IoRing.opcode_of_operation hop
      have hlen : (max result 0).toNat = 0 := by omega
      rw [Cqe.task_mk, hopcode]
      simp only [taskPacket, hlen, hfresh sqe (mem_submitted_of_operation hop) hopcode]
      rfl
  | @progressSend position result flags sqe hop hmore =>
      refine ⟨(waiting_post server.io sqe result flags rfl fun _ _ => rfl).trans ?_, rfl⟩
      rw [Cqe.task_mk, IoRing.opcode_of_operation hop, hmore]
      rfl
  | @finishSend position result flags sqe hop hmore =>
      refine ⟨(waiting_post { server.io with
        operations := server.io.operations.eraseIdx position } sqe result flags rfl
          fun _ _ => rfl).trans ?_, rfl⟩
      rw [Cqe.task_mk, IoRing.opcode_of_operation hop, hmore]
      rfl

/-- Packets leave the completions as they have come to them. -/
theorem Transition.waiting (h : server.Transition action next events)
    (hnodup : server.held.Nodup) (hfresh : server.Fresh) :
    server.waiting ++ arrivals events = routed events ++ next.waiting := by
  have hsame : ∀ {next : Server cfg}, next.waiting = server.waiting →
      server.waiting ++ [] = [] ++ next.waiting := by
    intro next hnext
    rw [hnext, List.append_nil, List.nil_append]
  cases h with
  | @readHead first second point hreads hpoint =>
      apply hsame
      have hbefore : server.point.inHand = [] := by
        rcases hreads with h | h <;> rw [h] <;> rfl
      have hafter : point.inHand = [] := by rcases hpoint with h | h <;> rw [h] <;> rfl
      exact waiting_congr (by simp only [completed, hbefore, hafter]) fun _ _ => rfl
  | @postSend first second pushed entry rest hpoint htxOut =>
      apply hsame
      apply waiting_congr
      · simp only [completed, hpoint, Server.postSend, LoopPoint.inHand]
      · intro idx hidx
        apply getPeerAddr_postSend
        rintro rfl
        exact ((places_disjoint hnodup).2 entry.2.2 (by simp [inTransit, htxOut])).2 hidx
  | @endBatch first second pushed hpoint =>
      apply hsame
      unfold Server.endBatch
      split
      · exact waiting_congr (by simp only [completed, hpoint, LoopPoint.inHand]) fun _ _ => rfl
      · exact waiting_congr (by simp only [completed, hpoint, LoopPoint.inHand]) fun _ _ => rfl
  | @sync first second point hpoint hnext =>
      apply hsame
      have hbefore : server.point.inHand = [] := by
        rcases hpoint with h | h <;> rw [h] <;> rfl
      have hafter : point.inHand = [] := by rcases hnext with h | h <;> rw [h] <;> rfl
      exact waiting_congr (by simp [completed, Server.sync, hbefore, hafter]) fun _ _ => rfl
  | collect hpoint =>
      apply hsame
      exact waiting_congr (by simp only [completed, hpoint, Server.collect, LoopPoint.inHand,
        List.nil_append, CompletionRing.entries_drain]) fun _ _ => rfl
  | finished hpoint =>
      apply hsame
      exact waiting_congr (by simp only [completed, hpoint, LoopPoint.inHand]) fun _ _ => rfl
  | progressed hpoint htask =>
      apply hsame
      simp only [Server.waiting, completed, hpoint, LoopPoint.inHand, List.cons_append,
        List.map_cons, htask, List.filterMap_cons]
      rfl
  | @arrival first second cqe rest idx len next events hpoint htask hnext =>
      simp only [completeRecv, Option.map_eq_some_iff, Prod.mk.injEq] at hnext
      obtain ⟨routed, hroute, rfl, rfl⟩ := hnext
      obtain ⟨-, -, hafter⟩ := frame_route hroute
      have hinHand : routed.point.inHand = rest := congrArg LoopPoint.inHand hafter
      show server.waiting ++ [] = [⟨idx, len, server.io.pool.getPeerAddr idx⟩] ++ _
      rw [List.append_nil, Server.waiting, Server.waiting, completed, completed, hpoint, hinHand,
        LoopPoint.inHand, List.cons_append, List.map_cons, htask]
      rfl
  | @sent first second cqe rest idx hpoint htask =>
      apply hsame
      refine waiting_repost hnodup hpoint (by rw [htask]; rfl) (by rw [htask]; rfl) rfl ?_ ?_
      · simp only [completeSend]
        split <;> rfl
      · exact fun other hother => getPeerAddr_release hother
  | @notified first second cqe rest idx hpoint htask =>
      apply hsame
      refine waiting_repost hnodup hpoint (by rw [htask]; rfl) (by rw [htask]; rfl) rfl rfl ?_
      exact fun other hother => getPeerAddr_release hother
  | recv => exact hsame rfl
  | drop => exact hsame rfl
  | send => exact hsame rfl
  | kernel hkernel =>
      obtain ⟨hwaiting, hrouted⟩ := waiting_kernel hkernel hnodup hfresh
      rw [hwaiting, hrouted]
      rfl

/-- A receive is posted with an empty header, which only its completion fills. -/
theorem fresh_repost {cqe : Cqe} {rest : List Cqe} {idx : UInt16} (hfresh : server.Fresh)
    (hnodup : server.held.Nodup) (hpoint : server.point = .completing (cqe :: rest))
    (htask : taskBuffer cqe.task = some idx)
    (hsubmitted : next.submitted = (server.release idx).1.submitted)
    (hpeer : ∀ other, next.io.pool.getPeerAddr other =
      (server.release idx).1.io.pool.getPeerAddr other) : next.Fresh := by
  intro sqe hmem hopcode
  rw [hpeer]
  rw [hsubmitted] at hmem
  have hnew : (server.release idx).1.io.pool.getPeerAddr idx = .unspecified := by
    simp [Server.release, BufferPool.release, BufferPool.postRecvSqe, BufferPool.getPeerAddr,
      BufferPool.insertSlot, MsgHdrSlot.new, extractSrcAddr]
  rcases @mem_submitted_push _ server (server.release idx).1 .recvMsg idx sqe rfl rfl hmem with
    hold | rfl
  · have hne : sqe.bufIdx ≠ idx := by
      rintro rfl
      have hhand : sqe.bufIdx ∈ server.completed.filterMap taskBuffer := by
        rw [completed, hpoint, LoopPoint.inHand, List.cons_append, List.map_cons,
          List.filterMap_cons_some htask]
        exact List.mem_cons_self
      exact (places_disjoint hnodup).1 _ hhand (List.mem_map_of_mem hold)
    rw [getPeerAddr_release hne]
    exact hfresh sqe hold hopcode
  · exact hnew

theorem Fresh.started (cfg : Config) : (started cfg).Fresh := by
  intro sqe hmem _
  have hmem : sqe ∈ (indicesBelow cfg.poolSize).map Opcode.recvMsg.build := by
    simpa [submitted, Server.started, SubmissionRing.entries] using hmem
  obtain ⟨idx, hidx, rfl⟩ := List.mem_map.mp hmem
  have hlt := (mem_indicesBelow cfg.poolSize_le).mp hidx
  show (Option.map _ (if idx.toNat < cfg.poolSize then _ else none)).getD _ = _
  rw [if_pos hlt]
  rfl

theorem fresh_kernel {io : IoRing} (h : server.io.Kernel io events) (hfresh : server.Fresh)
    (hnodup : ({ server with io := io } : Server cfg).held.Nodup) :
    ({ server with io := io } : Server cfg).Fresh := by
  have hrest : ∀ position, ∀ entry ∈
      server.io.sq.entries ++ server.io.operations.eraseIdx position,
        entry ∈ server.submitted := by
    intro position entry hmem
    rcases List.mem_append.mp hmem with hentry | hoperation
    · exact List.mem_append_left _ hentry
    · exact List.mem_append_right _ (List.mem_of_mem_eraseIdx hoperation)
  intro entry hmem hopcode
  cases h with
  | submit htake =>
      apply hfresh entry _ hopcode
      simp only [submitted, SubmissionRing.entries_take htake, List.mem_append, List.mem_cons,
        List.not_mem_nil, or_false] at hmem ⊢
      tauto
  | @receive position src bytes flags sqe pool hop hfill =>
      have hne : entry.bufIdx ≠ sqe.bufIdx := by
        intro heq
        refine (places_disjoint hnodup).1 sqe.bufIdx ?_ (heq ▸ List.mem_map_of_mem hmem)
        have hcompleted := completed_post server { server.io with
          pool := pool, operations := server.io.operations.eraseIdx position } sqe
          (bytes.length : ℤ) flags rfl
        rw [IoRing.finish, hcompleted, List.filterMap_append, Cqe.task_mk,
          IoRing.opcode_of_operation hop]
        exact List.mem_append_right _ List.mem_cons_self
      obtain ⟨slot, -, -, rfl⟩ := BufferPool.fill_eq_some hfill
      exact (getPeerAddr_insertSlot server.io.pool _ hne).trans
        (hfresh entry (hrest position entry hmem) hopcode)
  | failReceive => exact hfresh entry (hrest _ entry hmem) hopcode
  | progressSend => exact hfresh entry hmem hopcode
  | finishSend => exact hfresh entry (hrest _ entry hmem) hopcode

theorem Transition.fresh (h : server.Transition action next events) (hfresh : server.Fresh)
    (hnodup : server.held.Nodup) (hnodup' : next.held.Nodup) : next.Fresh := by
  cases h with
  | @postSend first second pushed entry rest hpoint htxOut =>
      intro sqe hmem hopcode
      rcases @mem_submitted_push _ server (server.postSend entry rest pushed first) .sendMsgZc _ sqe
        rfl rfl hmem with hold | rfl
      · rw [getPeerAddr_postSend]
        · exact hfresh sqe hold hopcode
        · intro heq
          have htransit : entry.2.2 ∈ server.inTransit := by simp [inTransit, htxOut]
          exact ((places_disjoint hnodup).2 _ htransit).1 (heq ▸ List.mem_map_of_mem hold)
      · cases hopcode
  | @endBatch first second pushed hpoint =>
      unfold Server.endBatch
      split
      · intro sqe hmem
        exact hfresh sqe (by simpa [submitted] using hmem)
      · exact hfresh
  | arrival hpoint htask hnext =>
      simp only [completeRecv, Option.map_eq_some_iff, Prod.mk.injEq] at hnext
      obtain ⟨routed, -, rfl, -⟩ := hnext
      exact hfresh
  | sent hpoint htask =>
      exact fresh_repost hfresh hnodup hpoint (by rw [htask]; rfl) rfl fun _ => rfl
  | notified hpoint htask =>
      exact fresh_repost hfresh hnodup hpoint (by rw [htask]; rfl) rfl fun _ => rfl
  | kernel hkernel => exact fresh_kernel hkernel hfresh hnodup'
  | readHead => exact hfresh
  | sync => exact hfresh
  | collect => exact hfresh
  | finished => exact hfresh
  | progressed => exact hfresh
  | recv => exact hfresh
  | drop => exact hfresh
  | send => exact hfresh

/-! ## Shard 0 -/

/-- Shard 0 has taken what was routed, and answered what it has taken. -/
structure Pipeline (server : Server cfg) (trace : List ServerEvent) : Prop where
  table : (server.workers cfg.firstShard).shard = cfg.table
  idle : ∀ shard, shard ≠ cfg.firstShard →
    (server.workers shard).recv = [] ∧ (server.workers shard).handling = none
  dealt : routed trace = handled trace ++ server.pending
  answered : (handled trace).filterMap cfg.table.handlePacket = posted trace ++ server.txOut

theorem Pipeline.started (cfg : Config) : Pipeline (started cfg) [] where
  table := by simp [Server.started, Worker.new]
  idle _ _ := ⟨rfl, rfl⟩
  dealt := rfl
  answered := rfl

/-- A step that concerns neither shards nor channels. -/
theorem Pipeline.same {trace : List ServerEvent} (h : Pipeline server trace)
    (hworkers : next.workers = server.workers) (htxOut : next.txOut = server.txOut)
    (hrouted : routed events = []) (hhandled : handled events = []) (hposted : posted events = []) :
    Pipeline next (trace ++ events) where
  table := hworkers ▸ h.table
  idle := hworkers ▸ h.idle
  dealt := by
    rw [routed_append, handled_append, hrouted, hhandled, pending, hworkers, List.append_nil,
      List.append_nil]
    exact h.dealt
  answered := by
    rw [handled_append, posted_append, hhandled, hposted, htxOut, List.append_nil,
      List.append_nil]
    exact h.answered

/-- The shard of a step that finds something is shard 0. -/
theorem Pipeline.eq_firstShard {trace : List ServerEvent} (h : Pipeline server trace)
    {shard : Fin cfg.numShards}
    (hbusy : (server.workers shard).recv ≠ [] ∨ (server.workers shard).handling ≠ none) :
    shard = cfg.firstShard := by
  by_contra hne
  obtain ⟨hrecv, hhandling⟩ := h.idle shard hne
  rcases hbusy with hbusy | hbusy
  · exact hbusy hrecv
  · exact hbusy hhandling

/-- Another state of shard 0. -/
theorem Pipeline.setWorker {trace : List ServerEvent} (h : Pipeline server trace)
    {worker : Worker} {io : IoRing} {txOut : List SqeType} {point : LoopPoint}
    (htable : worker.shard = cfg.table)
    (hdealt : routed (trace ++ events) =
      handled (trace ++ events) ++ (worker.handling.toList ++ worker.recv))
    (hanswered : (handled (trace ++ events)).filterMap cfg.table.handlePacket =
      posted (trace ++ events) ++ txOut) :
    Pipeline { server.setWorker cfg.firstShard worker with
      io := io, txOut := txOut, point := point } (trace ++ events) where
  table := by simpa [Server.setWorker] using htable
  idle shard hne := by
    simp only [Server.setWorker, Function.update_of_ne hne]
    exact h.idle shard hne
  dealt := by simpa [pending, Server.setWorker] using hdealt
  answered := hanswered

/-- Every packet moves on in its turn. -/
theorem Transition.pipeline (h : server.Transition action next events)
    {trace : List ServerEvent} (hpipeline : Pipeline server trace) :
    Pipeline next (trace ++ events) := by
  have hdealt := hpipeline.dealt
  have hanswered := hpipeline.answered
  cases h with
  | @postSend first second pushed entry rest hpoint htxOut =>
      refine ⟨hpipeline.table, hpipeline.idle, ?_, ?_⟩
      · rw [routed_append, handled_append]
        show routed trace ++ [] = handled trace ++ [] ++ server.pending
        rw [List.append_nil, List.append_nil, hdealt]
      · rw [handled_append, posted_append]
        show (handled trace ++ []).filterMap cfg.table.handlePacket =
          posted trace ++ [entry] ++ rest
        rw [List.append_nil, hanswered, htxOut, List.append_assoc]
        rfl
  | @endBatch first second pushed hpoint =>
      unfold Server.endBatch
      split
      · exact hpipeline.same rfl rfl rfl rfl rfl
      · exact hpipeline.same rfl rfl rfl rfl rfl
  | @arrival first second cqe rest idx len next events hpoint htask hnext =>
      simp only [completeRecv, Option.map_eq_some_iff, Prod.mk.injEq] at hnext
      obtain ⟨later, hroute, rfl, rfl⟩ := hnext
      simp only [route] at hroute
      split at hroute
      · cases hroute
        refine hpipeline.setWorker hpipeline.table ?_ ?_
        · rw [routed_append, handled_append, hdealt]
          show handled trace ++ server.pending ++ [_] = handled trace ++ [] ++ (_ ++ (_ ++ [_]))
          rw [List.append_nil, List.append_assoc, pending, List.append_assoc]
          rfl
        · rw [handled_append, posted_append]
          show (handled trace ++ []).filterMap _ = posted trace ++ [] ++ server.txOut
          rw [List.append_nil, List.append_nil, hanswered]
      · cases hroute
  | @recv shard packet rest hidle hrecv =>
      obtain rfl := hpipeline.eq_firstShard (.inl (by rw [hrecv]; exact List.cons_ne_nil _ _))
      refine hpipeline.setWorker hpipeline.table ?_ ?_
      · rw [List.append_nil, hdealt, pending, hidle, hrecv]
        rfl
      · rw [List.append_nil, hanswered]
  | @drop shard packet hhandling hunknown =>
      obtain rfl := hpipeline.eq_firstShard (.inr (by rw [hhandling]; exact Option.some_ne_none _))
      rw [hpipeline.table] at hunknown
      refine hpipeline.setWorker hpipeline.table ?_ ?_
      · rw [routed_append, handled_append, hdealt, pending, hhandling]
        show handled trace ++ (_ ++ _) ++ [] = handled trace ++ [packet] ++ ([] ++ _)
        rw [List.append_nil, List.append_assoc]
        rfl
      · rw [handled_append, posted_append, List.filterMap_append, hanswered]
        show _ ++ [packet].filterMap _ = posted trace ++ [] ++ server.txOut
        rw [List.filterMap_cons_none hunknown, List.append_nil]
        exact List.append_nil _
  | @send shard packet entry hhandling hknown hroom =>
      obtain rfl := hpipeline.eq_firstShard (.inr (by rw [hhandling]; exact Option.some_ne_none _))
      rw [hpipeline.table] at hknown
      refine hpipeline.setWorker hpipeline.table ?_ ?_
      · rw [routed_append, handled_append, hdealt, pending, hhandling]
        show handled trace ++ (_ ++ _) ++ [] = handled trace ++ [packet] ++ ([] ++ _)
        rw [List.append_nil, List.append_assoc]
        rfl
      · rw [handled_append, posted_append, List.filterMap_append, hanswered]
        show _ ++ [packet].filterMap _ = posted trace ++ [] ++ (server.txOut ++ [entry])
        rw [List.filterMap_cons_some hknown, List.append_nil, List.append_assoc]
        rfl
  | readHead => exact hpipeline.same rfl rfl rfl rfl rfl
  | sync => exact hpipeline.same rfl rfl rfl rfl rfl
  | collect => exact hpipeline.same rfl rfl rfl rfl rfl
  | finished => exact hpipeline.same rfl rfl rfl rfl rfl
  | progressed => exact hpipeline.same rfl rfl rfl rfl rfl
  | sent => exact hpipeline.same rfl rfl rfl rfl rfl
  | notified => exact hpipeline.same rfl rfl rfl rfl rfl
  | kernel hkernel =>
      cases hkernel with
      | submit => exact hpipeline.same rfl rfl rfl rfl rfl
      | receive => exact hpipeline.same rfl rfl rfl rfl rfl
      | failReceive => exact hpipeline.same rfl rfl rfl rfl rfl
      | progressSend => exact hpipeline.same rfl rfl rfl rfl rfl
      | finishSend => exact hpipeline.same rfl rfl rfl rfl rfl

end Server

/-! ## Runs -/

variable {cfg : Config} {c : Server cfg × List ServerEvent}

/-- What holds of the packets after a run. -/
structure OrderInv (c : Server cfg × List ServerEvent) : Prop where
  fresh : c.1.Fresh
  arrived : arrivals c.2 = routed c.2 ++ c.1.waiting
  pipeline : c.1.Pipeline c.2

theorem orderInv_of_reachable (hc : (serverMachine cfg).Reachable c) : OrderInv c := by
  refine Machine.Reachable.induct (P := OrderInv) ?_ ?_ hc
  · rw [serverMachine_init]
    exact ⟨.started cfg, rfl, .started cfg⟩
  · intro c action d hc ih hstep
    have hd := nodup_held (hc.step hstep)
    obtain ⟨next, events, hnext, rfl⟩ := Machine.traced_step.mp hstep
    have htransition := Server.transition_of_step hnext
    refine ⟨htransition.fresh ih.fresh (nodup_held hc) hd, ?_, htransition.pipeline ih.pipeline⟩
    rw [arrivals_append, routed_append, ih.arrived, List.append_assoc, List.append_assoc,
      htransition.waiting (nodup_held hc) ih.fresh]

/-- The answers that the server still owes, in order. -/
def owed (server : Server cfg) : List SqeType :=
  server.txOut ++ (server.pending ++ server.waiting).filterMap cfg.table.handlePacket

/-- The server posts the answers to the packets that have come, in the order in which they have
come and none left out, and owes the rest. -/
theorem first_come_first_served (hc : (serverMachine cfg).Reachable c) :
    (arrivals c.2).filterMap (Known.ofSessions cfg.sessions).answer = posted c.2 ++ owed c.1 := by
  have hanswer : (Known.ofSessions cfg.sessions).answer = cfg.table.handlePacket := by
    funext packet
    rw [Shard.handlePacket_eq_answer, cfg.known_table]
  have h := orderInv_of_reachable hc
  rw [hanswer, h.arrived, h.pipeline.dealt, List.filterMap_append, List.filterMap_append,
    h.pipeline.answered, owed, List.filterMap_append, List.append_assoc, List.append_assoc]

theorem first_come_first_served_twoPackets :
    ∃ server, (serverMachine .main).exec (serverMachine .main).init twoPackets =
      some (server, twoPacketsTrace) ∧
      (arrivals twoPacketsTrace).filterMap (Known.ofSessions [mainSession]).answer =
        [(.v4 0x7f000001 9002, 1, 1023)] ++ owed server := by
  obtain ⟨server, hexec⟩ := exec_twoPackets
  exact ⟨server, hexec, first_come_first_served ⟨twoPackets, hexec⟩⟩

end P2PNetworking.TurnServer.FirstImpl
