/-
# The server of the first implementation

`first_impl` has the pool, the tokens and the message headers of the server, word for word,
and relays with other means.  Its channels block: the loop waits for room in the channel of
a shard, and a shard for room in the channel to the loop.  `shard_for` sends every packet to
shard 0, whose table is made before its thread takes anything.  The loop takes at most
`MAX_SQE_BATCH` messages at a time, copies out all completions that it can see, and then
deals with them one by one.

As in the model of the server, the kernel takes a published entry at any moment; here it
really does so only when the loop calls `submit` or `submit_and_wait`.
-/

import P2PNetworking.TurnServer.EventLoop

namespace P2PNetworking.TurnServer.FirstImpl

open P2PNetworking.Net P2PNetworking.Lib

/-- The numbers that `main` fixes, and the sessions that it gives to shard 0. -/
structure Config where
  /-- `NUM_SHARDS`. -/
  numShards : ℕ
  /-- The capacity of the channel to a shard. -/
  queueCapacity : ℕ
  /-- The capacity of the channel to the loop. -/
  txCapacity : ℕ
  /-- `POOL_SIZE`. -/
  poolSize : ℕ
  /-- The entries of the submission queue. -/
  ringEntries : ℕ
  sessions : List Session
  numShards_pos : 0 < numShards
  /-- Buffer indices are 16-bit. -/
  poolSize_le : poolSize ≤ 2 ^ 16
  /-- Every receive of the seeding finds room. -/
  poolSize_le_ringEntries : poolSize ≤ ringEntries

/-- The session of 127.0.0.1:9001 and 127.0.0.1:9002. -/
def mainSession : Session := ⟨.v4 0x7f000001 9001, .v4 0x7f000001 9002⟩

/-- The configuration of `main`. -/
def Config.main : Config where
  numShards := 4
  queueCapacity := 1024
  txCapacity := 1024
  poolSize := 1024
  ringEntries := 2048
  sessions := [mainSession]
  numShards_pos := by decide
  poolSize_le := TurnServer.Config.main.poolSize_le
  poolSize_le_ringEntries := by decide

/-- Shard 0. -/
def Config.firstShard (cfg : Config) : Fin cfg.numShards := ⟨0, cfg.numShards_pos⟩

/-- `MAX_SQE_BATCH`. -/
def maxSqeBatch : ℕ := 32

/-- `shard_for` returns 0; the hash after the `return` is never reached. -/
def Config.shardFor (cfg : Config) (_addr : SocketAddr) : Fin cfg.numShards := cfg.firstShard

/-- The table of shard 0 once `main` has added its sessions. -/
def Config.table (cfg : Config) : Shard := cfg.sessions.foldl Shard.addSession .new

theorem Config.known_table (cfg : Config) : cfg.table.known = .ofSessions cfg.sessions :=
  Shard.known_foldl _ _

/-! ## State -/

/-- A shard's thread: its channel, the packet it has taken from it, and its table. -/
structure Worker where
  recv : List Packet
  handling : Option Packet
  shard : Shard

/-- The ring, and the pool that the loop shares with the kernel. -/
structure IoRing where
  pool : BufferPool
  sq : SubmissionRing Sqe
  /-- The entries that the kernel has taken and not finished. -/
  operations : List Sqe
  cq : CompletionRing Cqe

/-- What the loop does next. -/
inductive LoopPoint
  /-- Read the head of the submission queue again after seeding. -/
  | seeded
  /-- `sqe_rx.try_recv()`, after so many sends. -/
  | sending (pushed : ℕ)
  /-- Read the head of the submission queue again after the sends. -/
  | published
  /-- `cq.sync()`. -/
  | polling
  /-- `cq.sync()` once more, the queue having been empty. -/
  | waiting
  /-- Copy out what the completion queue shows. -/
  | collecting
  /-- Deal with the completions that have been copied out. -/
  | completing (completed : List Cqe)
  /-- Nothing: an `unwrap` has failed, with these completions left. -/
  | panicked (completed : List Cqe)
  deriving DecidableEq

/-- The completions that the loop has copied out and not dealt with. -/
def LoopPoint.inHand : LoopPoint → List Cqe
  | completing completed | panicked completed => completed
  | seeded | sending _ | published | polling | waiting | collecting => []

/-- The loop, the ring and the shards. -/
structure Server (cfg : Config) where
  io : IoRing
  workers : Fin cfg.numShards → Worker
  txOut : List SqeType
  point : LoopPoint

inductive ServerEvent
  /-- The kernel has received a packet into the buffer. -/
  | received (idx : UInt16) (src : SocketAddr) (bytes : List UInt8)
  /-- A receive into the buffer has failed. -/
  | receiveFailed (idx : UInt16)
  /-- The loop has given the packet to a shard. -/
  | routed (packet : Packet)
  /-- A shard has dealt with the packet; `sent` is what went into the channel. -/
  | handled (packet : Packet) (sent : Option SqeType)
  /-- The loop called `post_recv_sqe`; the queue took the entry or was full. -/
  | postedRecv (idx : UInt16) (pushed : Bool)
  /-- The loop called `post_send_sqe` for the message. -/
  | postedSend (entry : SqeType) (pushed : Bool)
  deriving DecidableEq

inductive KernelAction
  /-- The kernel takes the next entry. -/
  | submit
  /-- It completes one of its receives with a packet, -/
  | receive (position : ℕ) (src : SocketAddr) (bytes : List UInt8) (flags : UInt32)
  /-- or with an error. -/
  | failReceive (position : ℕ) (result : ℤ) (flags : UInt32)
  /-- It posts a completion for one of its sends, with more to follow, -/
  | progressSend (position : ℕ) (result : ℤ) (flags : UInt32)
  /-- or the last one. -/
  | finishSend (position : ℕ) (result : ℤ) (flags : UInt32)
  deriving DecidableEq

inductive ServerAction (cfg : Config)
  /-- The loop goes on; the clock is read at most twice. -/
  | loop (first second : ℕ)
  /-- A shard thread takes a packet from its channel. -/
  | recv (shard : Fin cfg.numShards)
  /-- A shard thread deals with the packet it has taken. -/
  | handle (shard : Fin cfg.numShards)
  | kernel (action : KernelAction)
  deriving DecidableEq

/-! ## The kernel -/

namespace IoRing

/-- The kernel's operation at a position, if it is of the kind. -/
def operation (io : IoRing) (opcode : Opcode) (position : ℕ) : Option Sqe :=
  io.operations[position]?.filter fun sqe => sqe.opcode = opcode

/-- A completion for an operation. -/
def post (io : IoRing) (sqe : Sqe) (result : ℤ) (flags : UInt32) : IoRing :=
  { io with cq := io.cq.post ⟨sqe.userData, result, flags⟩ }

/-- The last completion for an operation. -/
def finish (io : IoRing) (position : ℕ) (sqe : Sqe) (result : ℤ) (flags : UInt32) : IoRing :=
  { io with operations := io.operations.eraseIdx position }.post sqe result flags

/-- One step of the kernel. -/
def kernel (io : IoRing) : KernelAction → Option (IoRing × List ServerEvent)
  | .submit =>
      io.sq.take.map fun (sqe, sq) =>
        ({ io with sq := sq, operations := io.operations ++ [sqe] }, [])
  | .receive position src bytes flags =>
      (io.operation .recvMsg position).bind fun sqe =>
        (io.pool.fill sqe.bufIdx src bytes).map fun pool =>
          ({ io with pool := pool }.finish position sqe bytes.length flags,
            [.received sqe.bufIdx src bytes])
  | .failReceive position result flags =>
      (io.operation .recvMsg position).bind fun sqe =>
        if result < 0 then
          some (io.finish position sqe result flags, [.receiveFailed sqe.bufIdx])
        else none
  | .progressSend position result flags =>
      (io.operation .sendMsgZc position).bind fun sqe =>
        if more flags then some (io.post sqe result flags, []) else none
  | .finishSend position result flags =>
      (io.operation .sendMsgZc position).bind fun sqe =>
        if more flags then none else some (io.finish position sqe result flags, [])

/-- Every kind of kernel step, with what it changes. -/
inductive Kernel (io : IoRing) : IoRing → List ServerEvent → Prop
  | submit {sqe : Sqe} {sq : SubmissionRing Sqe} (htake : io.sq.take = some (sqe, sq)) :
      Kernel io { io with sq := sq, operations := io.operations ++ [sqe] } []
  | receive {position : ℕ} {src : SocketAddr} {bytes : List UInt8} {flags : UInt32} {sqe : Sqe}
      {pool : BufferPool} (hop : io.operation .recvMsg position = some sqe)
      (hfill : io.pool.fill sqe.bufIdx src bytes = some pool) :
      Kernel io ({ io with pool := pool }.finish position sqe bytes.length flags)
        [.received sqe.bufIdx src bytes]
  | failReceive {position : ℕ} {result : ℤ} {flags : UInt32} {sqe : Sqe}
      (hop : io.operation .recvMsg position = some sqe) (hresult : result < 0) :
      Kernel io (io.finish position sqe result flags) [.receiveFailed sqe.bufIdx]
  | progressSend {position : ℕ} {result : ℤ} {flags : UInt32} {sqe : Sqe}
      (hop : io.operation .sendMsgZc position = some sqe) (hmore : more flags = true) :
      Kernel io (io.post sqe result flags) []
  | finishSend {position : ℕ} {result : ℤ} {flags : UInt32} {sqe : Sqe}
      (hop : io.operation .sendMsgZc position = some sqe) (hmore : more flags = false) :
      Kernel io (io.finish position sqe result flags) []

theorem kernel_of_step {io next : IoRing} {action : KernelAction} {events : List ServerEvent}
    (hstep : io.kernel action = some (next, events)) : io.Kernel next events := by
  cases action with
  | submit =>
      simp only [kernel, Option.map_eq_some_iff, Prod.exists, Prod.mk.injEq] at hstep
      obtain ⟨sqe, sq, htake, rfl, rfl⟩ := hstep
      exact .submit htake
  | receive position src bytes flags =>
      simp only [kernel, Option.bind_eq_some_iff, Option.map_eq_some_iff, Prod.mk.injEq] at hstep
      obtain ⟨sqe, hop, pool, hfill, rfl, rfl⟩ := hstep
      exact .receive hop hfill
  | failReceive position result flags =>
      simp only [kernel, Option.bind_eq_some_iff] at hstep
      obtain ⟨sqe, hop, hresult⟩ := hstep
      split at hresult
      · next hnegative =>
        cases hresult
        exact .failReceive hop hnegative
      · cases hresult
  | progressSend position result flags =>
      simp only [kernel, Option.bind_eq_some_iff] at hstep
      obtain ⟨sqe, hop, hresult⟩ := hstep
      split at hresult
      · next hmore =>
        cases hresult
        exact .progressSend hop hmore
      · cases hresult
  | finishSend position result flags =>
      simp only [kernel, Option.bind_eq_some_iff] at hstep
      obtain ⟨sqe, hop, hresult⟩ := hstep
      split at hresult
      · cases hresult
      · next hmore =>
        cases hresult
        exact .finishSend hop (by simpa using hmore)

end IoRing

/-! ## Start -/

/-- The configuration of the later server with the same numbers; it has no control service
here. -/
def Config.later (cfg : Config) : TurnServer.Config where
  shardNum := cfg.numShards
  queueSize := cfg.queueCapacity + 1
  txCapacity := cfg.txCapacity
  controlCapacity := 0
  poolSize := cfg.poolSize
  ringEntries := cfg.ringEntries
  shardNum_pos := cfg.numShards_pos
  poolSize_le := cfg.poolSize_le
  poolSize_le_ringEntries := cfg.poolSize_le_ringEntries

/-- The thread of a shard before it takes anything. -/
def Worker.new (cfg : Config) (shard : Fin cfg.numShards) : Worker :=
  ⟨[], none, if shard = cfg.firstShard then cfg.table else .new⟩

namespace Server

variable {cfg : Config}

/-- The server when it has published its first receives; it seeds as the later one does. -/
def new (cfg : Config) : Server cfg :=
  let (pool, sq) := TurnServer.Server.seed cfg.later cfg.poolSize
    (BufferPool.default.register cfg.poolSize, .empty)
  { io := ⟨pool, sq.publish, [], .empty⟩
    workers := .new cfg
    txOut := []
    point := .seeded }

/-- The state after seeding, written out: every buffer has a published receive. -/
def started (cfg : Config) : Server cfg where
  io :=
    { pool := (TurnServer.Server.started cfg.later).pool
      sq := ⟨0, (indicesBelow cfg.poolSize).map Opcode.recvMsg.build, []⟩
      operations := []
      cq := .empty }
  workers := .new cfg
  txOut := []
  point := .seeded

theorem new_eq_started (cfg : Config) : new cfg = started cfg := by
  have hroom : (.empty : SubmissionRing Sqe).length + cfg.poolSize ≤ cfg.later.ringEntries := by
    rw [SubmissionRing.length, SubmissionRing.empty, List.length_nil, Nat.zero_add]
    exact cfg.poolSize_le_ringEntries
  have hseed : TurnServer.Server.seed cfg.later cfg.poolSize
      (BufferPool.default.register cfg.poolSize, .empty) = _ :=
    TurnServer.Server.seed_eq cfg.poolSize_le (by simp [BufferPool.register, BufferPool.default])
      hroom
  simp only [new, hseed]
  rfl

/-! ## The shards -/

/-- One thread changes. -/
def setWorker (server : Server cfg) (shard : Fin cfg.numShards) (worker : Worker) : Server cfg :=
  { server with workers := Function.update server.workers shard worker }

/-- `channel.send(packet)` in `ShardRouter::route`, which waits for room. -/
def route (server : Server cfg) (packet : Packet) : Option (Server cfg) :=
  let shard := cfg.shardFor packet.src
  let worker := server.workers shard
  if worker.recv.length < cfg.queueCapacity then
    some (server.setWorker shard { worker with recv := worker.recv ++ [packet] })
  else none

/-- `recv` in `Shard::run`, which waits for a packet. -/
def recv (server : Server cfg) (shard : Fin cfg.numShards) : Option (Server cfg) :=
  let worker := server.workers shard
  match worker.handling, worker.recv with
  | none, packet :: rest =>
      some (server.setWorker shard { worker with recv := rest, handling := some packet })
  | _, _ => none

/-- `handle_packet`; `tx_out.send` waits for room. -/
def handle (server : Server cfg) (shard : Fin cfg.numShards) :
    Option (Server cfg × List ServerEvent) :=
  let worker := server.workers shard
  match worker.handling with
  | none => none
  | some packet =>
      let done := server.setWorker shard { worker with handling := none }
      match worker.shard.handlePacket packet with
      | none => some (done, [.handled packet none])
      | some entry =>
          if server.txOut.length < cfg.txCapacity then
            some ({ done with txOut := server.txOut ++ [entry] }, [.handled packet (some entry)])
          else none

/-! ## The loop -/

/-- The queue has room for one more entry. -/
def HasRoom (server : Server cfg) : Prop := server.io.sq.HasRoom cfg.ringEntries

instance (server : Server cfg) : Decidable server.HasRoom :=
  inferInstanceAs (Decidable (server.io.sq.HasRoom cfg.ringEntries))

/-- The end of the batch of sends. -/
def endBatch (server : Server cfg) (pushed : ℕ) : Server cfg :=
  if pushed > 0 then
    { server with io := { server.io with sq := server.io.sq.publish }, point := .published }
  else { server with point := .polling }

/-- `post_send_sqe` and `mark_send_sqe_at` for a message taken from the channel. -/
def postSend (server : Server cfg) (entry : SqeType) (rest : List SqeType) (pushed now : ℕ) :
    Server cfg :=
  let (pool, sq) :=
    server.io.pool.postSendSqe cfg.ringEntries server.io.sq entry.2.1 entry.2.2 entry.1
  { server with
    io := { server.io with pool := pool.markSendSqeAt entry.2.2 now, sq := sq }
    txOut := rest
    point := .sending (pushed + 1) }

/-- One round of the loop over messages from the shards. -/
def takeSend (server : Server cfg) (pushed now : ℕ) : Server cfg × List ServerEvent :=
  if pushed < maxSqeBatch then
    match server.txOut with
    | entry :: rest =>
        (server.postSend entry rest pushed now, [.postedSend entry server.HasRoom])
    | [] => (server.endBatch pushed, [])
  else (server.endBatch pushed, [])

/-- `cq.sync()`. -/
def sync (server : Server cfg) (point : LoopPoint) : Server cfg :=
  { server with io := { server.io with cq := server.io.cq.sync }, point := point }

/-- The completions that can be seen are copied out. -/
def collect (server : Server cfg) : Server cfg :=
  { server with
    io := { server.io with cq := server.io.cq.drain.2 }
    point := .completing server.io.cq.drain.1 }

/-- The arm for `OpType::Recv`, which waits until the shard's channel takes the packet. -/
def completeRecv (server : Server cfg) (bufIdx : UInt16) (len first second : ℕ) :
    Option (Server cfg × List ServerEvent) :=
  let marked := server.io.pool.markRecvFor bufIdx first
  let packet : Packet := ⟨bufIdx, len, marked.getPeerAddr bufIdx⟩
  (server.route packet).map fun routed =>
    ({ routed with io := { server.io with pool := marked.markShardDoneAt bufIdx second } },
      [.routed packet])

/-- `release` on the server. -/
def release (server : Server cfg) (bufIdx : UInt16) : Server cfg × List ServerEvent :=
  let (pool, sq) := server.io.pool.release cfg.ringEntries server.io.sq bufIdx
  ({ server with io := { server.io with pool := pool, sq := sq } },
    [.postedRecv bufIdx server.HasRoom])

/-- The arm for `OpType::Send` without the flag for more. -/
def completeSend (server : Server cfg) (bufIdx : UInt16) : Server cfg × List ServerEvent :=
  let (released, events) := server.release bufIdx
  let (timing, pool) := released.io.pool.takeRecvFor bufIdx
  ({ released with
    io := { released.io with pool := pool }
    point :=
      if TurnServer.Server.reportable timing then released.point
      else .panicked released.point.inHand }, events)

/-- One round of the loop over the copied completions. -/
def complete (server : Server cfg) (cqe : Cqe) (first second : ℕ) :
    Option (Server cfg × List ServerEvent) :=
  let (op, bufIdx) := decodeToken cqe.userData
  match op with
  | .recv => server.completeRecv bufIdx (max cqe.result 0).toNat first second
  | .send => some (if !more cqe.flags then server.completeSend bufIdx else (server, []))
  | .sendNotif => some (server.release bufIdx)

/-- One step of `io_uring_loop`. -/
def loop (server : Server cfg) (first second : ℕ) : Option (Server cfg × List ServerEvent) :=
  match server.point with
  | .seeded =>
      some ({ server with
        io := { server.io with sq := server.io.sq.refresh }, point := .sending 0 }, [])
  | .sending pushed => some (server.takeSend pushed first)
  | .published =>
      some ({ server with
        io := { server.io with sq := server.io.sq.refresh }, point := .polling }, [])
  | .polling =>
      some (server.sync (if server.io.cq.sync.visible.isEmpty then .waiting else .collecting), [])
  | .waiting => some (server.sync .collecting, [])
  | .collecting => some (server.collect, [])
  | .completing [] => some ({ server with point := .sending 0 }, [])
  | .completing (cqe :: rest) => { server with point := .completing rest }.complete cqe first second
  | .panicked _ => none

/-- One step of the server or of the kernel. -/
def step (server : Server cfg) : ServerAction cfg → Option (Server cfg × List ServerEvent)
  | .loop first second => server.loop first second
  | .recv shard => (server.recv shard).map fun next => (next, [])
  | .handle shard => server.handle shard
  | .kernel action =>
      (server.io.kernel action).map fun (io, events) => ({ server with io := io }, events)

/-! ## What a step does -/

/-- The loop is about to read the head of the submission queue again. -/
def ReadsHead (server : Server cfg) : Prop :=
  server.point = .seeded ∨ server.point = .published

/-- Every kind of step, with what it changes. -/
inductive Transition (server : Server cfg) :
    ServerAction cfg → Server cfg → List ServerEvent → Prop
  | readHead {first second : ℕ} {point : LoopPoint} (hreads : server.ReadsHead)
      (hpoint : point = .sending 0 ∨ point = .polling) :
      Transition server (.loop first second)
        { server with io := { server.io with sq := server.io.sq.refresh }, point := point } []
  | postSend {first second pushed : ℕ} {entry : SqeType} {rest : List SqeType}
      (hpoint : server.point = .sending pushed) (htxOut : server.txOut = entry :: rest) :
      Transition server (.loop first second) (server.postSend entry rest pushed first)
        [.postedSend entry server.HasRoom]
  | endBatch {first second pushed : ℕ} (hpoint : server.point = .sending pushed) :
      Transition server (.loop first second) (server.endBatch pushed) []
  | sync {first second : ℕ} {point : LoopPoint}
      (hpoint : server.point = .polling ∨ server.point = .waiting)
      (hnext : point = .waiting ∨ point = .collecting) :
      Transition server (.loop first second) (server.sync point) []
  | collect {first second : ℕ} (hpoint : server.point = .collecting) :
      Transition server (.loop first second) server.collect []
  | finished {first second : ℕ} (hpoint : server.point = .completing []) :
      Transition server (.loop first second) { server with point := .sending 0 } []
  | progressed {first second : ℕ} {cqe : Cqe} {rest : List Cqe}
      (hpoint : server.point = .completing (cqe :: rest)) (htask : cqe.task = .rest) :
      Transition server (.loop first second) { server with point := .completing rest } []
  | arrival {first second : ℕ} {cqe : Cqe} {rest : List Cqe} {idx : UInt16} {len : ℕ}
      {next : Server cfg} {events : List ServerEvent}
      (hpoint : server.point = .completing (cqe :: rest)) (htask : cqe.task = .arrival idx len)
      (hnext : { server with point := .completing rest }.completeRecv idx len first second =
        some (next, events)) :
      Transition server (.loop first second) next events
  | sent {first second : ℕ} {cqe : Cqe} {rest : List Cqe} {idx : UInt16}
      (hpoint : server.point = .completing (cqe :: rest)) (htask : cqe.task = .sent idx) :
      Transition server (.loop first second)
        ({ server with point := .completing rest }.completeSend idx).1
        [.postedRecv idx server.HasRoom]
  | notified {first second : ℕ} {cqe : Cqe} {rest : List Cqe} {idx : UInt16}
      (hpoint : server.point = .completing (cqe :: rest)) (htask : cqe.task = .notified idx) :
      Transition server (.loop first second)
        ({ server with point := .completing rest }.release idx).1
        [.postedRecv idx server.HasRoom]
  | recv {shard : Fin cfg.numShards} {packet : Packet} {rest : List Packet}
      (hidle : (server.workers shard).handling = none)
      (hrecv : (server.workers shard).recv = packet :: rest) :
      Transition server (.recv shard)
        (server.setWorker shard
          { server.workers shard with recv := rest, handling := some packet }) []
  | drop {shard : Fin cfg.numShards} {packet : Packet}
      (hhandling : (server.workers shard).handling = some packet)
      (hunknown : (server.workers shard).shard.handlePacket packet = none) :
      Transition server (.handle shard)
        (server.setWorker shard { server.workers shard with handling := none })
        [.handled packet none]
  | send {shard : Fin cfg.numShards} {packet : Packet} {entry : SqeType}
      (hhandling : (server.workers shard).handling = some packet)
      (hknown : (server.workers shard).shard.handlePacket packet = some entry)
      (hroom : server.txOut.length < cfg.txCapacity) :
      Transition server (.handle shard)
        { server.setWorker shard { server.workers shard with handling := none } with
          txOut := server.txOut ++ [entry] } [.handled packet (some entry)]
  | kernel {action : KernelAction} {io : IoRing} {events : List ServerEvent}
      (hkernel : server.io.Kernel io events) :
      Transition server (.kernel action) { server with io := io } events

/-- A round over the copied completions. -/
theorem transition_complete {server next : Server cfg} {cqe : Cqe} {rest : List Cqe}
    {first second : ℕ} {events : List ServerEvent}
    (hpoint : server.point = .completing (cqe :: rest))
    (hstep : { server with point := .completing rest }.complete cqe first second =
      some (next, events)) : Transition server (.loop first second) next events := by
  unfold complete at hstep
  cases hdecode : decodeToken cqe.userData with
  | mk op idx =>
      simp only [hdecode] at hstep
      cases op with
      | recv =>
          have htask : cqe.task = .arrival idx (max cqe.result 0).toNat := by
            simp only [Cqe.task, hdecode]
          exact .arrival hpoint htask hstep
      | send =>
          cases hmore : more cqe.flags with
          | true =>
              simp only [hmore, Bool.not_true, Bool.false_eq_true, if_false] at hstep
              cases hstep
              exact .progressed hpoint (by simp [Cqe.task, hdecode, hmore])
          | false =>
              simp only [hmore, Bool.not_false, if_true] at hstep
              cases hstep
              exact .sent hpoint (by simp [Cqe.task, hdecode, hmore])
      | sendNotif =>
          cases hstep
          exact .notified hpoint (by simp only [Cqe.task, hdecode])

/-- A round over messages from the shards. -/
theorem transition_takeSend {server : Server cfg} {pushed : ℕ}
    (hpoint : server.point = .sending pushed) (first second : ℕ) :
    Transition server (.loop first second) (server.takeSend pushed first).1
      (server.takeSend pushed first).2 := by
  unfold takeSend
  split
  · split
    · next entry rest htxOut => exact .postSend hpoint htxOut
    · exact .endBatch hpoint
  · exact .endBatch hpoint

/-- Every step is of one of these kinds. -/
theorem transition_of_step {server next : Server cfg} {action : ServerAction cfg}
    {events : List ServerEvent} (hstep : server.step action = some (next, events)) :
    Transition server action next events := by
  cases action with
  | loop first second =>
      simp only [step, loop] at hstep
      split at hstep
      · next hpoint =>
        cases hstep
        exact .readHead (.inl hpoint) (.inl rfl)
      · next pushed hpoint =>
        have hround := transition_takeSend hpoint first second
        rw [Option.some.injEq] at hstep
        rwa [hstep] at hround
      · next hpoint =>
        cases hstep
        exact .readHead (.inr hpoint) (.inr rfl)
      · next hpoint =>
        cases hstep
        refine .sync (.inl hpoint) ?_
        split
        · exact .inl rfl
        · exact .inr rfl
      · next hpoint =>
        cases hstep
        exact .sync (.inr hpoint) (.inr rfl)
      · next hpoint =>
        cases hstep
        exact .collect hpoint
      · next hpoint =>
        cases hstep
        exact .finished hpoint
      · next cqe rest hpoint => exact transition_complete hpoint hstep
      · cases hstep
  | recv shard =>
      simp only [step, recv, Option.map_eq_some_iff, Prod.mk.injEq] at hstep
      obtain ⟨done, hrecv, rfl, rfl⟩ := hstep
      split at hrecv
      · next packet rest hidle hqueue =>
        cases hrecv
        exact .recv hidle hqueue
      · cases hrecv
  | handle shard =>
      simp only [step, handle] at hstep
      split at hstep
      · cases hstep
      · next packet hhandling =>
        split at hstep
        · next hunknown =>
          cases hstep
          exact .drop hhandling hunknown
        · next entry hknown =>
          split at hstep
          · next hroom =>
            cases hstep
            exact .send hhandling hknown hroom
          · cases hstep
  | kernel action =>
      simp only [step, Option.map_eq_some_iff, Prod.exists, Prod.mk.injEq] at hstep
      obtain ⟨io, kernelEvents, hkernel, rfl, rfl⟩ := hstep
      exact .kernel (IoRing.kernel_of_step hkernel)

end Server

/-- The server with its kernel, under any schedule. -/
def serverMachine (cfg : Config) : Machine (Server cfg × List ServerEvent) (ServerAction cfg) :=
  .traced (.new cfg) Server.step

theorem serverMachine_init (cfg : Config) :
    (serverMachine cfg).init = (Server.started cfg, []) := by
  rw [serverMachine, Machine.traced_init, Server.new_eq_started]

end P2PNetworking.TurnServer.FirstImpl
