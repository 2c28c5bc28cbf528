/-
# The event loop, its ring, and the shards

The whole TURN server as one machine.  The loop takes control messages, then
messages from the shards, then completions; each access to something it shares
with another thread or with the kernel is one step, and the shards, the control
service and the kernel may act between any two.

The kernel takes submitted entries in order and completes them in any order: a
receive once, a zero-copy send with any number of completions that carry the flag
for more, and then one without it.  It works from the message header of the
operation, which is the live slot of its buffer.
-/

import P2PNetworking.TurnServer.Relay
import P2PNetworking.TurnServer.BufferPool

namespace P2PNetworking.TurnServer

open P2PNetworking.Net P2PNetworking.Lib

/-! ## State -/

/-- What the loop does next. -/
inductive LoopPoint
  /-- Read the head of the submission queue again after seeding. -/
  | seeded
  /-- `controller_rx.try_recv()`. -/
  | control
  /-- `sqe_rx.try_recv()`, after so many sends. -/
  | sending (pushed : ℕ)
  /-- Read the head of the submission queue again after the sends. -/
  | published
  /-- `cq.sync()`. -/
  | polling
  /-- `cq.next()`. -/
  | completing
  /-- Nothing: an `unwrap` has failed. -/
  | panicked
  deriving DecidableEq, Repr

/-- Everything the loop owns or shares. -/
structure Server (cfg : Config) where
  pool : BufferPool
  sq : SubmissionRing Sqe
  /-- The entries that the kernel has taken and not finished. -/
  operations : List Sqe
  cq : CompletionRing Cqe
  relay : Relay cfg
  control : List MessageType
  point : LoopPoint

/-- What happens to buffers, and what the relay does. -/
inductive ServerEvent (cfg : Config)
  | relay (event : RelayEvent cfg)
  /-- The kernel has received a packet into the buffer. -/
  | received (idx : UInt16) (bytes : List UInt8)
  /-- A receive into the buffer has failed. -/
  | receiveFailed (idx : UInt16)
  /-- The loop called `post_recv_sqe`. -/
  | postedRecv (idx : UInt16)
  /-- The loop called `post_send_sqe`; the queue took the entry or was full, and the
  message header names these bytes. -/
  | postedSend (idx : UInt16) (pushed : Bool) (bytes : List UInt8)
  deriving DecidableEq

inductive ServerAction (cfg : Config)
  /-- The control service sends a message to the loop. -/
  | request (msg : MessageType)
  /-- The loop goes on; the clock is read at most twice. -/
  | loop (first second : ℕ)
  /-- A shard thread takes a message off its queue. -/
  | dequeue (shard : Fin cfg.shardNum) (sessionId : Uuid)
  /-- A shard thread deals with the packet it has taken. -/
  | handle (shard : Fin cfg.shardNum)
  /-- The kernel takes the next entry. -/
  | submit
  /-- The kernel completes one of its receives with a packet, -/
  | receive (position : ℕ) (src : SocketAddr) (bytes : List UInt8) (flags : UInt32)
  /-- or with an error. -/
  | failReceive (position : ℕ) (result : ℤ) (flags : UInt32)
  /-- The kernel posts a completion for one of its sends, with more to follow, -/
  | progressSend (position : ℕ) (result : ℤ) (flags : UInt32)
  /-- or the last one. -/
  | finishSend (position : ℕ) (result : ℤ) (flags : UInt32)
  deriving DecidableEq

/-- The buffer indices below a bound, from the last on. -/
def indicesBelow : ℕ → List UInt16
  | 0 => []
  | n + 1 => .ofNat n :: indicesBelow n

theorem toNat_ofNat_of_lt {n : ℕ} (hn : n < 2 ^ 16) : (UInt16.ofNat n).toNat = n := by
  rw [UInt16.toNat_ofNat', Nat.mod_eq_of_lt hn]

theorem mem_indicesBelow {n : ℕ} (hn : n ≤ 2 ^ 16) {idx : UInt16} :
    idx ∈ indicesBelow n ↔ idx.toNat < n := by
  induction n with
  | zero => simp [indicesBelow]
  | succ n ih =>
      rw [indicesBelow, List.mem_cons, ih (by omega), ← UInt16.toNat_inj,
        toNat_ofNat_of_lt (by omega)]
      omega

theorem nodup_indicesBelow {n : ℕ} (hn : n ≤ 2 ^ 16) : (indicesBelow n).Nodup := by
  induction n with
  | zero => exact List.nodup_nil
  | succ n ih =>
      refine List.nodup_cons.mpr ⟨?_, ih (by omega)⟩
      rw [mem_indicesBelow (by omega), toNat_ofNat_of_lt (by omega)]
      omega

@[simp]
theorem length_indicesBelow (n : ℕ) : (indicesBelow n).length = n := by
  induction n with
  | zero => rfl
  | succ n ih => rw [indicesBelow, List.length_cons, ih]

/-! ## Tasks -/

/-- What the loop has in hand. -/
inductive Task
  /-- A session from the control channel. -/
  | addSession (session : Session)
  /-- A message from a shard. -/
  | postSend (dst : SocketAddr) (len : ℕ) (idx : UInt16)
  /-- The completion of a receive. -/
  | arrival (idx : UInt16) (len : ℕ)
  /-- The last completion of a send. -/
  | sent (idx : UInt16)
  /-- A notification. -/
  | notified (idx : UInt16)
  /-- Nothing that concerns a session or a buffer. -/
  | rest
  deriving DecidableEq, Repr

/-- What a completion is about; one with more to follow is about nothing yet. -/
def Cqe.task (cqe : Cqe) : Task :=
  match decodeToken cqe.userData with
  | (.recv, idx) => .arrival idx (max cqe.result 0).toNat
  | (.send, idx) => if more cqe.flags then .rest else .sent idx
  | (.sendNotif, idx) => .notified idx

/-- A completion is about the operation whose user data it carries. -/
theorem Cqe.task_mk (sqe : Sqe) (result : ℤ) (flags : UInt32) :
    (Cqe.mk sqe.userData result flags).task =
      match sqe.opcode with
      | .recvMsg => .arrival sqe.bufIdx (max result 0).toNat
      | .sendMsgZc => if more flags then .rest else .sent sqe.bufIdx := by
  obtain ⟨opcode, bufIdx, userData, rfl⟩ := sqe
  cases opcode <;> simp [Cqe.task, Opcode.opType]

namespace Server

variable {cfg : Config}

/-! ## Start -/

/-- The loop that posts a receive for every acquired buffer. -/
def seed (cfg : Config) : ℕ → BufferPool × SubmissionRing Sqe → BufferPool × SubmissionRing Sqe
  | 0, state => state
  | n + 1, (pool, sq) =>
      match pool.acquire with
      | none => seed cfg n (pool, sq)
      | some (idx, rest) => seed cfg n (rest.postRecvSqe cfg.ringEntries sq idx none)

/-- The server when it has published its first receives. -/
def new (cfg : Config) : Server cfg :=
  let (pool, sq) := seed cfg cfg.poolSize (BufferPool.default.register cfg.poolSize, .empty)
  { pool := pool
    sq := sq.publish
    operations := []
    cq := .empty
    relay := .new cfg
    control := []
    point := .seeded }

/-- Seeding acquires every free buffer and posts a receive for it, as long as the
queue has room. -/
theorem seed_eq {n : ℕ} (hn : n ≤ 2 ^ 16) {pool : BufferPool} {sq : SubmissionRing Sqe}
    (hfree : pool.freeList = (List.range n).map UInt16.ofNat)
    (hroom : sq.length + n ≤ cfg.ringEntries) :
    seed cfg n (pool, sq) =
      ({ pool with
        freeList := []
        liveSlots := fun idx =>
          if idx.toNat < n then some (.new (bufferStart idx) none) else pool.liveSlots idx },
        { sq with
          unpublished := sq.unpublished ++ (indicesBelow n).map Opcode.recvMsg.build }) := by
  induction n generalizing pool sq with
  | zero =>
      obtain ⟨memory, freeList, timestamp, liveSlots⟩ := pool
      obtain rfl : freeList = [] := hfree
      simp [seed, indicesBelow]
  | succ n ih =>
      have hidx : (UInt16.ofNat n).toNat = n := toNat_ofNat_of_lt (by omega)
      have hacquire : pool.acquire = some (.ofNat n,
          { pool with freeList := (List.range n).map UInt16.ofNat }) := by
        simp [BufferPool.acquire, hfree, List.range_succ]
      have hpush : sq.push cfg.ringEntries (Opcode.recvMsg.build (.ofNat n)) =
          some { sq with
            unpublished := sq.unpublished ++ [Opcode.recvMsg.build (.ofNat n)] } := by
        rw [SubmissionRing.push, if_pos]
        unfold SubmissionRing.HasRoom
        omega
      simp only [seed, hacquire, BufferPool.postRecvSqe, hpush, Option.getD_some]
      rw [ih (by omega) rfl]
      · simp only [BufferPool.insertSlot, indicesBelow, List.map_cons, List.append_assoc,
          List.singleton_append]
        congr 2
        funext idx
        by_cases heq : idx = .ofNat n
        · subst heq
          simp [hidx]
        · have hne : idx.toNat ≠ n := by
            rw [← hidx]
            exact fun h => heq (UInt16.toNat_inj.mp h)
          rw [Function.update_of_ne heq]
          congr 1
          apply propext
          omega
      · simp only [SubmissionRing.length, List.length_append, List.length_singleton] at hroom ⊢
        omega

/-- The state after seeding, written out: every buffer has a published receive. -/
def started (cfg : Config) : Server cfg where
  pool :=
    { BufferPool.default with
      liveSlots := fun idx =>
        if idx.toNat < cfg.poolSize then some (.new (bufferStart idx) none) else none }
  sq := ⟨0, (indicesBelow cfg.poolSize).map Opcode.recvMsg.build, []⟩
  operations := []
  cq := .empty
  relay := .new cfg
  control := []
  point := .seeded

/-- The headers of the seeding name their buffers. -/
theorem slotsInPlace_started (cfg : Config) : (started cfg).pool.SlotsInPlace := by
  intro idx slot hslot
  simp only [started, BufferPool.default] at hslot
  split at hslot
  · cases hslot
    simp
  · cases hslot

theorem new_eq_started (cfg : Config) : new cfg = started cfg := by
  have hseed : seed cfg cfg.poolSize (BufferPool.default.register cfg.poolSize, .empty) = _ :=
    seed_eq cfg.poolSize_le (by simp [BufferPool.register, BufferPool.default])
      (by simpa [SubmissionRing.empty, SubmissionRing.length] using cfg.poolSize_le_ringEntries)
  simp only [new, hseed]
  rfl

/-! ## The loop -/

/-- One round of the loop over control messages. -/
def takeControl (server : Server cfg) : Server cfg × List (ServerEvent cfg) :=
  match server.control with
  | .addSession session :: rest =>
      ({ server with relay := server.relay.addSession session, control := rest },
        [.relay (.added session)])
  | .transmit _ :: rest => ({ server with control := rest }, [])
  | [] => ({ server with point := .sending 0 }, [])

/-- One round of the loop over messages from the shards. -/
def takeSend (server : Server cfg) (pushed first second : ℕ) :
    Server cfg × List (ServerEvent cfg) :=
  match server.relay.txOut with
  | (addr, len, idx) :: rest =>
      let marked := server.pool.markShardDoneAt idx first
      let (pool, sq) := marked.postSendSqe cfg.ringEntries server.sq len idx addr
      ({ server with
        pool := pool.markSendSqeAt idx second
        sq := sq
        relay := { server.relay with txOut := rest }
        point := .sending (pushed + 1) },
        [.postedSend idx (server.sq.HasRoom cfg.ringEntries) (pool.described idx)])
  | [] =>
      if pushed > 0 then ({ server with sq := server.sq.publish, point := .published }, [])
      else ({ server with point := .polling }, [])

/-- `cq.sync()` and the test for an empty queue. -/
def poll (server : Server cfg) : Server cfg :=
  let cq := server.cq.sync
  { server with cq := cq, point := if cq.visible.isEmpty then .control else .completing }

/-- The arm for `OpType::Recv`. -/
def completeRecv (server : Server cfg) (bufIdx : UInt16) (len first second : ℕ) :
    Server cfg × List (ServerEvent cfg) :=
  let marked := server.pool.markRecvFor bufIdx first
  let src := marked.getPeerAddr bufIdx
  let (relay, target) := server.relay.route ⟨bufIdx, len, src⟩
  ({ server with pool := marked.markRecvFor bufIdx second, relay := relay },
    [.relay (.routed ⟨bufIdx, len, src⟩ target)])

/-- `release` on the server. -/
def release (server : Server cfg) (bufIdx : UInt16) : Server cfg × List (ServerEvent cfg) :=
  let (pool, sq) := server.pool.release cfg.ringEntries server.sq bufIdx
  ({ server with pool := pool, sq := sq }, [.postedRecv bufIdx])

/-- Every `unwrap` in the report on a packet succeeds. -/
def reportable (timing : Option PacketTiming) : Bool :=
  match timing with
  | none => true
  | some t => t.shardDoneAt.isSome && t.sendSqeAt.isSome

/-- The arm for `OpType::Send` without the flag for more. -/
def completeSend (server : Server cfg) (bufIdx : UInt16) :
    Server cfg × List (ServerEvent cfg) :=
  let (released, events) := server.release bufIdx
  let (timing, pool) := released.pool.takeRecvFor bufIdx
  ({ released with
    pool := pool
    point := if reportable timing then released.point else .panicked }, events)

/-- One round of the loop over completions. -/
def takeCompletion (server : Server cfg) (first second : ℕ) :
    Server cfg × List (ServerEvent cfg) :=
  match server.cq.next with
  | none => ({ server with point := .control }, [])
  | some (cqe, cq) =>
      let (op, bufIdx) := decodeToken cqe.userData
      let len := (max cqe.result 0).toNat
      match op with
      | .recv => { server with cq := cq }.completeRecv bufIdx len first second
      | .send =>
          if !more cqe.flags then { server with cq := cq }.completeSend bufIdx
          else ({ server with cq := cq }, [])
      | .sendNotif => { server with cq := cq }.release bufIdx

/-- One step of `io_uring_loop`. -/
def loop (server : Server cfg) (first second : ℕ) :
    Option (Server cfg × List (ServerEvent cfg)) :=
  match server.point with
  | .seeded => some ({ server with sq := server.sq.refresh, point := .control }, [])
  | .control => some server.takeControl
  | .sending pushed => some (server.takeSend pushed first second)
  | .published => some ({ server with sq := server.sq.refresh, point := .polling }, [])
  | .polling => some (server.poll, [])
  | .completing => some (server.takeCompletion first second)
  | .panicked => none

/-! ## The kernel -/

/-- The kernel's operation at a position, if it is of the kind. -/
def operation (server : Server cfg) (opcode : Opcode) (position : ℕ) : Option Sqe :=
  server.operations[position]?.filter fun sqe => sqe.opcode = opcode

/-- A completion for an operation. -/
def post (server : Server cfg) (sqe : Sqe) (result : ℤ) (flags : UInt32) : Server cfg :=
  { server with cq := server.cq.post ⟨sqe.userData, result, flags⟩ }

/-- The last completion for an operation. -/
def finish (server : Server cfg) (position : ℕ) (sqe : Sqe) (result : ℤ) (flags : UInt32) :
    Server cfg :=
  { server with operations := server.operations.eraseIdx position }.post sqe result flags

def receive (server : Server cfg) (position : ℕ) (src : SocketAddr) (bytes : List UInt8)
    (flags : UInt32) : Option (Server cfg × List (ServerEvent cfg)) :=
  (server.operation .recvMsg position).bind fun sqe =>
    (server.pool.fill sqe.bufIdx src bytes).map fun pool =>
      ({ server with pool := pool }.finish position sqe bytes.length flags,
        [.received sqe.bufIdx bytes])

def failReceive (server : Server cfg) (position : ℕ) (result : ℤ) (flags : UInt32) :
    Option (Server cfg × List (ServerEvent cfg)) :=
  (server.operation .recvMsg position).bind fun sqe =>
    if result < 0 then
      some (server.finish position sqe result flags, [.receiveFailed sqe.bufIdx])
    else none

def progressSend (server : Server cfg) (position : ℕ) (result : ℤ) (flags : UInt32) :
    Option (Server cfg × List (ServerEvent cfg)) :=
  (server.operation .sendMsgZc position).bind fun sqe =>
    if more flags then some (server.post sqe result flags, []) else none

def finishSend (server : Server cfg) (position : ℕ) (result : ℤ) (flags : UInt32) :
    Option (Server cfg × List (ServerEvent cfg)) :=
  (server.operation .sendMsgZc position).bind fun sqe =>
    if more flags then none else some (server.finish position sqe result flags, [])

/-- One step of the server or of its surroundings. -/
def step (server : Server cfg) : ServerAction cfg → Option (Server cfg × List (ServerEvent cfg))
  | .request msg =>
      if server.control.length < cfg.controlCapacity then
        some ({ server with control := server.control ++ [msg] }, [])
      else none
  | .loop first second => server.loop first second
  | .dequeue shard sessionId =>
      (server.relay.dequeue shard sessionId).map fun relay => ({ server with relay := relay }, [])
  | .handle shard =>
      (server.relay.handle shard).map fun (relay, events) =>
        ({ server with relay := relay }, events.map .relay)
  | .submit =>
      server.sq.take.map fun (sqe, sq) =>
        ({ server with sq := sq, operations := server.operations ++ [sqe] }, [])
  | .receive position src bytes flags => server.receive position src bytes flags
  | .failReceive position result flags => server.failReceive position result flags
  | .progressSend position result flags => server.progressSend position result flags
  | .finishSend position result flags => server.finishSend position result flags

/-! ## What a step does -/

/-- The task in hand. -/
def task (server : Server cfg) : Task :=
  match server.point with
  | .control =>
      match server.control with
      | .addSession session :: _ => .addSession session
      | _ => .rest
  | .sending _ =>
      match server.relay.txOut with
      | (dst, len, idx) :: _ => .postSend dst len idx
      | [] => .rest
  | .completing =>
      match server.cq.next with
      | some (cqe, _) => cqe.task
      | none => .rest
  | _ => .rest

/-- Every kind of step, with what it changes. -/
inductive Transition (server : Server cfg) :
    ServerAction cfg → Server cfg → List (ServerEvent cfg) → Prop
  | request {msg : MessageType} :
      Transition server (.request msg) { server with control := server.control ++ [msg] } []
  | rest {first second : ℕ} {next : Server cfg} (htask : server.task = .rest)
      (hpool : next.pool = server.pool) (hsq : next.sq.entries = server.sq.entries)
      (hoperations : next.operations = server.operations)
      (hcq : next.cq.entries.map Cqe.task = server.cq.entries.map Cqe.task ∨
        server.cq.entries.map Cqe.task = .rest :: next.cq.entries.map Cqe.task)
      (hrelay : next.relay = server.relay) : Transition server (.loop first second) next []
  | addSession {first second : ℕ} {session : Session} {rest : List MessageType}
      (htask : server.task = .addSession session) :
      Transition server (.loop first second)
        { server with relay := server.relay.addSession session, control := rest }
        [.relay (.added session)]
  | postSend {first second pushed : ℕ} {dst : SocketAddr} {len : ℕ} {idx : UInt16}
      {rest : List SqeType} (htask : server.task = .postSend dst len idx)
      (htxOut : server.relay.txOut = (dst, len, idx) :: rest) :
      Transition server (.loop first second) (server.takeSend pushed first second).1
        [.postedSend idx (server.sq.HasRoom cfg.ringEntries)
          (readBytes server.pool.memory (bufferStart idx) bufferSize)]
  | arrival {first second : ℕ} {idx : UInt16} {len : ℕ} {cqe : Cqe} {cq : CompletionRing Cqe}
      (htask : server.task = .arrival idx len) (hnext : server.cq.next = some (cqe, cq))
      (hcqe : cqe.task = .arrival idx len) :
      Transition server (.loop first second)
        ({ server with cq := cq }.completeRecv idx len first second).1
        [.relay (.routed ⟨idx, len, server.pool.getPeerAddr idx⟩
          (server.relay.route ⟨idx, len, server.pool.getPeerAddr idx⟩).2)]
  | sent {first second : ℕ} {idx : UInt16} {cqe : Cqe} {cq : CompletionRing Cqe}
      (htask : server.task = .sent idx) (hnext : server.cq.next = some (cqe, cq))
      (hcqe : cqe.task = .sent idx) :
      Transition server (.loop first second) ({ server with cq := cq }.completeSend idx).1
        [.postedRecv idx]
  | notified {first second : ℕ} {idx : UInt16} {cqe : Cqe} {cq : CompletionRing Cqe}
      (htask : server.task = .notified idx) (hnext : server.cq.next = some (cqe, cq))
      (hcqe : cqe.task = .notified idx) :
      Transition server (.loop first second) ({ server with cq := cq }.release idx).1
        [.postedRecv idx]
  | dequeue {shard : Fin cfg.shardNum} {sessionId : Uuid} {relay : Relay cfg}
      (hstep : server.relay.dequeue shard sessionId = some relay) :
      Transition server (.dequeue shard sessionId) { server with relay := relay } []
  | handle {shard : Fin cfg.shardNum} {relay : Relay cfg} {events : List (RelayEvent cfg)}
      (hstep : server.relay.handle shard = some (relay, events)) :
      Transition server (.handle shard) { server with relay := relay } (events.map .relay)
  | submit {sqe : Sqe} {sq : SubmissionRing Sqe} (htake : server.sq.take = some (sqe, sq)) :
      Transition server .submit
        { server with sq := sq, operations := server.operations ++ [sqe] } []
  | receive {position : ℕ} {src : SocketAddr} {bytes : List UInt8} {flags : UInt32} {sqe : Sqe}
      {pool : BufferPool} (hop : server.operation .recvMsg position = some sqe)
      (hfill : server.pool.fill sqe.bufIdx src bytes = some pool) :
      Transition server (.receive position src bytes flags)
        ({ server with pool := pool }.finish position sqe bytes.length flags)
        [.received sqe.bufIdx bytes]
  | failReceive {position : ℕ} {result : ℤ} {flags : UInt32} {sqe : Sqe}
      (hop : server.operation .recvMsg position = some sqe) :
      Transition server (.failReceive position result flags)
        (server.finish position sqe result flags) [.receiveFailed sqe.bufIdx]
  | progressSend {position : ℕ} {result : ℤ} {flags : UInt32} {sqe : Sqe}
      (hop : server.operation .sendMsgZc position = some sqe) (hmore : more flags = true) :
      Transition server (.progressSend position result flags) (server.post sqe result flags) []
  | finishSend {position : ℕ} {result : ℤ} {flags : UInt32} {sqe : Sqe}
      (hop : server.operation .sendMsgZc position = some sqe) (hmore : more flags = false) :
      Transition server (.finishSend position result flags)
        (server.finish position sqe result flags) []

/-- A round over control messages. -/
theorem transition_takeControl {server : Server cfg} (hpoint : server.point = .control)
    (first second : ℕ) :
    Transition server (.loop first second) server.takeControl.1 server.takeControl.2 := by
  unfold takeControl
  split
  · next session rest hcontrol =>
    exact .addSession (by simp only [task, hpoint, hcontrol])
  · next packet rest hcontrol =>
    exact .rest (by simp only [task, hpoint, hcontrol]) rfl rfl rfl (.inl rfl) rfl
  · next hcontrol =>
    exact .rest (by simp only [task, hpoint, hcontrol]) rfl rfl rfl (.inl rfl) rfl

/-- A round over messages from the shards. -/
theorem transition_takeSend {server : Server cfg} {pushed : ℕ}
    (hpoint : server.point = .sending pushed) (first second : ℕ) :
    Transition server (.loop first second) (server.takeSend pushed first second).1
      (server.takeSend pushed first second).2 := by
  cases htxOut : server.relay.txOut with
  | nil =>
      have htask : server.task = .rest := by simp only [task, hpoint, htxOut]
      simp only [takeSend, htxOut]
      split
      · exact .rest htask rfl (by simp) rfl (.inl rfl) rfl
      · exact .rest htask rfl rfl rfl (.inl rfl) rfl
  | cons entry rest =>
      obtain ⟨dst, len, idx⟩ := entry
      have hevents : (server.takeSend pushed first second).2 =
          [.postedSend idx (server.sq.HasRoom cfg.ringEntries)
            (readBytes server.pool.memory (bufferStart idx) bufferSize)] := by
        simp only [takeSend, htxOut, BufferPool.described_postSendSqe]
        rfl
      rw [hevents]
      exact .postSend (by simp only [task, hpoint, htxOut]) htxOut

/-- A round over completions. -/
theorem transition_takeCompletion {server : Server cfg} (hpoint : server.point = .completing)
    (first second : ℕ) :
    Transition server (.loop first second) (server.takeCompletion first second).1
      (server.takeCompletion first second).2 := by
  cases hnext : server.cq.next with
  | none =>
      simp only [takeCompletion, hnext]
      exact .rest (by simp only [task, hpoint, hnext]) rfl rfl rfl (.inl rfl) rfl
  | some result =>
      obtain ⟨cqe, cq⟩ := result
      have htask : server.task = cqe.task := by simp only [task, hpoint, hnext]
      have hentries := CompletionRing.entries_next hnext
      cases hdecode : decodeToken cqe.userData with
      | mk op idx =>
          cases op with
          | recv =>
              have hcqe : cqe.task = .arrival idx (max cqe.result 0).toNat := by
                simp only [Cqe.task, hdecode]
              simp only [takeCompletion, hnext, hdecode]
              exact .arrival (htask.trans hcqe) hnext hcqe
          | send =>
              cases hmore : more cqe.flags with
              | true =>
                  have hcqe : cqe.task = .rest := by simp [Cqe.task, hdecode, hmore]
                  simp only [takeCompletion, hnext, hdecode, hmore]
                  refine .rest (htask.trans hcqe) rfl rfl rfl (.inr ?_) rfl
                  rw [hentries, List.map_cons, hcqe]
                  rfl
              | false =>
                  have hcqe : cqe.task = .sent idx := by simp [Cqe.task, hdecode, hmore]
                  simp only [takeCompletion, hnext, hdecode, hmore]
                  exact .sent (htask.trans hcqe) hnext hcqe
          | sendNotif =>
              have hcqe : cqe.task = .notified idx := by simp only [Cqe.task, hdecode]
              simp only [takeCompletion, hnext, hdecode]
              exact .notified (htask.trans hcqe) hnext hcqe

/-- Every step is of one of these kinds. -/
theorem transition_of_step {server next : Server cfg} {action : ServerAction cfg}
    {events : List (ServerEvent cfg)} (hstep : server.step action = some (next, events)) :
    Transition server action next events := by
  cases action with
  | request msg =>
      simp only [step] at hstep
      split at hstep
      · cases hstep
        exact .request
      · cases hstep
  | loop first second =>
      simp only [step, loop] at hstep
      cases hpoint : server.point with
      | seeded =>
          simp only [hpoint] at hstep
          cases hstep
          exact .rest (by simp only [task, hpoint]) rfl (by simp) rfl (.inl rfl) rfl
      | control =>
          simp only [hpoint, Option.some.injEq] at hstep
          have hround := transition_takeControl hpoint first second
          rwa [hstep] at hround
      | sending pushed =>
          simp only [hpoint, Option.some.injEq] at hstep
          have hround := transition_takeSend hpoint first second
          rwa [hstep] at hround
      | published =>
          simp only [hpoint] at hstep
          cases hstep
          exact .rest (by simp only [task, hpoint]) rfl (by simp) rfl (.inl rfl) rfl
      | polling =>
          simp only [hpoint] at hstep
          cases hstep
          exact .rest (by simp only [task, hpoint]) rfl rfl rfl
            (.inl (by simp [poll])) rfl
      | completing =>
          simp only [hpoint, Option.some.injEq] at hstep
          have hround := transition_takeCompletion hpoint first second
          rwa [hstep] at hround
      | panicked =>
          simp only [hpoint] at hstep
          cases hstep
  | dequeue shard sessionId =>
      simp only [step, Option.map_eq_some_iff, Prod.mk.injEq] at hstep
      obtain ⟨relay, hdequeue, rfl, rfl⟩ := hstep
      exact .dequeue hdequeue
  | handle shard =>
      simp only [step, Option.map_eq_some_iff, Prod.exists, Prod.mk.injEq] at hstep
      obtain ⟨relay, relayEvents, hhandle, rfl, rfl⟩ := hstep
      exact .handle hhandle
  | submit =>
      simp only [step, Option.map_eq_some_iff, Prod.exists, Prod.mk.injEq] at hstep
      obtain ⟨sqe, sq, htake, rfl, rfl⟩ := hstep
      exact .submit htake
  | receive position src bytes flags =>
      simp only [step, receive, Option.bind_eq_some_iff, Option.map_eq_some_iff,
        Prod.mk.injEq] at hstep
      obtain ⟨sqe, hop, pool, hfill, rfl, rfl⟩ := hstep
      exact .receive hop hfill
  | failReceive position result flags =>
      simp only [step, failReceive, Option.bind_eq_some_iff] at hstep
      obtain ⟨sqe, hop, hresult⟩ := hstep
      split at hresult
      · cases hresult
        exact .failReceive hop
      · cases hresult
  | progressSend position result flags =>
      simp only [step, progressSend, Option.bind_eq_some_iff] at hstep
      obtain ⟨sqe, hop, hresult⟩ := hstep
      split at hresult
      · next hmore =>
        cases hresult
        exact .progressSend hop hmore
      · cases hresult
  | finishSend position result flags =>
      simp only [step, finishSend, Option.bind_eq_some_iff] at hstep
      obtain ⟨sqe, hop, hresult⟩ := hstep
      split at hresult
      · cases hresult
      · next hmore =>
        cases hresult
        exact .finishSend hop (by simpa using hmore)

end Server

/-- The server with its kernel, under any schedule. -/
def serverMachine (cfg : Config) :
    Machine (Server cfg × List (ServerEvent cfg)) (ServerAction cfg) :=
  .traced (.new cfg) Server.step

theorem serverMachine_init (cfg : Config) :
    (serverMachine cfg).init = (Server.started cfg, []) := by
  rw [serverMachine, Machine.traced_init, Server.new_eq_started]

end P2PNetworking.TurnServer
