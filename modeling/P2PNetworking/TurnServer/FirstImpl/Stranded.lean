/-
# A server without receives

What the loop pushes it publishes only after a batch of sends.  A receive that it posts for a
buffer whose send is over therefore waits for the next send, and the next send for a packet.
When all sends are over at once, no receive is left with the kernel, no packet can come, and
the server is silent for ever, although it has lost no buffer.
-/

import P2PNetworking.TurnServer.FirstImpl.Submissions
import P2PNetworking.TurnServer.Panics

namespace P2PNetworking.TurnServer.FirstImpl

open P2PNetworking.Net P2PNetworking.Lib

namespace Server

variable {cfg : Config} {server next : Server cfg} {action : ServerAction cfg}
  {events : List ServerEvent}

/-! ## Silence -/

/-- Nothing is with the kernel, with a shard or in a channel. -/
structure Quiet (server : Server cfg) : Prop where
  published : server.io.sq.published = []
  operations : server.io.operations = []
  entries : server.io.cq.entries = []
  recv : ∀ shard, (server.workers shard).recv = []
  handling : ∀ shard, (server.workers shard).handling = none
  txOut : server.txOut = []

/-- Nor has the loop a completion in hand, or begun a batch. -/
structure Stranded (server : Server cfg) : Prop extends Quiet server where
  inHand : server.point.inHand = []
  noBatch : ∀ pushed, server.point = .sending pushed → pushed = 0

/-- The loop has nothing to deal with. -/
theorem Stranded.not_completing (h : server.Stranded) {cqe : Cqe} {rest : List Cqe} :
    server.point ≠ .completing (cqe :: rest) := by
  intro hpoint
  have hinHand := h.inHand
  rw [hpoint] at hinHand
  cases hinHand

/-- The loop moves on with empty hands. -/
theorem Stranded.goOn (h : server.Stranded) {point : LoopPoint} {sq : SubmissionRing Sqe}
    {cq : CompletionRing Cqe} (hpublished : sq.published = []) (hinHand : point.inHand = [])
    (hentries : cq.entries = []) (hbatch : ∀ pushed, point = .sending pushed → pushed = 0) :
    ({ server with
      io := { server.io with sq := sq, cq := cq }, point := point } : Server cfg).Stranded :=
  { h with
    published := hpublished
    entries := hentries
    inHand := hinHand
    noBatch := hbatch }

theorem operation_of_stranded (h : server.Stranded) {opcode : Opcode} {position : ℕ} {sqe : Sqe} :
    server.io.operation opcode position ≠ some sqe := by
  simp [IoRing.operation, h.operations]

/-- A stranded server stays so, and nothing happens. -/
theorem Transition.stranded (h : server.Transition action next events)
    (hstranded : server.Stranded) : next.Stranded ∧ events = [] := by
  have hentries := hstranded.entries
  cases h with
  | readHead _ hpoint =>
      refine ⟨hstranded.goOn hstranded.published ?_ hentries ?_, rfl⟩
      · rcases hpoint with rfl | rfl <;> rfl
      · rintro pushed rfl
        rcases hpoint with hpoint | hpoint
        · cases hpoint
          rfl
        · cases hpoint
  | postSend _ htxOut => cases htxOut.symm.trans hstranded.txOut
  | @endBatch first second pushed hpoint =>
      cases hstranded.noBatch pushed hpoint
      exact ⟨hstranded.goOn hstranded.published rfl hentries nofun, rfl⟩
  | sync _ hnext =>
      refine ⟨hstranded.goOn hstranded.published ?_ (by simp [hentries]) ?_, rfl⟩
      · rcases hnext with rfl | rfl <;> rfl
      · rintro pushed rfl
        rcases hnext with hnext | hnext <;> cases hnext
  | collect hpoint =>
      obtain ⟨hvisible, hposted⟩ := List.append_eq_nil_iff.mp hentries
      exact ⟨hstranded.goOn hstranded.published hvisible (by
        simp [CompletionRing.drain, CompletionRing.entries, hposted]) nofun, rfl⟩
  | finished =>
      refine ⟨hstranded.goOn hstranded.published rfl hentries ?_, rfl⟩
      intro pushed hpoint
      cases hpoint
      rfl
  | progressed hpoint => exact absurd hpoint hstranded.not_completing
  | arrival hpoint => exact absurd hpoint hstranded.not_completing
  | sent hpoint => exact absurd hpoint hstranded.not_completing
  | notified hpoint => exact absurd hpoint hstranded.not_completing
  | @recv shard _ _ _ hrecv => cases hrecv.symm.trans (hstranded.recv shard)
  | @drop shard _ hhandling => cases hhandling.symm.trans (hstranded.handling shard)
  | @send shard _ _ hhandling => cases hhandling.symm.trans (hstranded.handling shard)
  | kernel hkernel =>
      cases hkernel with
      | submit htake =>
          unfold SubmissionRing.take at htake
          rw [hstranded.published] at htake
          cases htake
      | receive hop => exact absurd hop (operation_of_stranded hstranded)
      | failReceive hop => exact absurd hop (operation_of_stranded hstranded)
      | progressSend hop => exact absurd hop (operation_of_stranded hstranded)
      | finishSend hop => exact absurd hop (operation_of_stranded hstranded)

/-! ## A client and a kernel that behave well -/

/-- The loop is in `submit`, having published a batch, or in `submit_and_wait`. -/
def Submits (submitting : Bool) (server : Server cfg) : Prop :=
  submitting = true ∧ server.point = .polling ∨ server.point = .waiting

instance (submitting : Bool) (server : Server cfg) : Decidable (server.Submits submitting) :=
  inferInstanceAs (Decidable (_ ∨ _))

/-- Whether the loop's last step has been `sq.sync()` after a batch. -/
def noteSubmit (submitting : Bool) (server : Server cfg) : ServerAction cfg → Bool
  | .loop _ _ => server.point = .published
  | .recv _ | .handle _ | .kernel _ => submitting

/-- The kernel takes entries when the loop submits them, and then all of them; there are no packets
but the client's; and sends go out whole and are notified. -/
def Regular (src : SocketAddr) (bytes : List UInt8) (submitting : Bool) (server : Server cfg) :
    ServerAction cfg → Prop
  | .loop _ _ => server.Submits submitting → server.io.sq.published = []
  | .recv _ | .handle _ => True
  | .kernel .submit => server.Submits submitting
  | .kernel (.receive _ other packet _) => other = src ∧ packet = bytes
  | .kernel (.failReceive _ _ _) => False
  | .kernel (.progressSend _ result _) => result = bufferSize
  | .kernel (.finishSend _ result _) => result = 0

instance (src : SocketAddr) (bytes : List UInt8) (submitting : Bool) (server : Server cfg) :
    ∀ action, Decidable (server.Regular src bytes submitting action)
  | .loop _ _ => inferInstanceAs (Decidable (_ → _))
  | .recv _ | .handle _ => .isTrue trivial
  | .kernel .submit => inferInstanceAs (Decidable (_ ∨ _))
  | .kernel (.receive _ _ _ _) => inferInstanceAs (Decidable (_ ∧ _))
  | .kernel (.failReceive _ _ _) => .isFalse id
  | .kernel (.progressSend _ _ _) => inferInstanceAs (Decidable (_ = _))
  | .kernel (.finishSend _ _ _) => inferInstanceAs (Decidable (_ = _))

end Server

/-- The server, as long as all goes well. -/
def regularMachine (cfg : Config) (src : SocketAddr) (bytes : List UInt8) :
    Machine ((Server cfg × List ServerEvent) × Bool) (ServerAction cfg) :=
  ((serverMachine cfg).remembering false fun submitting c action =>
    c.1.noteSubmit submitting action).guarded fun c action =>
      c.1.1.Regular src bytes c.2 action

/-- The kernel posts a completion for a send. -/
def ServerAction.CompletesSend {cfg : Config} : ServerAction cfg → Prop
  | .kernel (.progressSend _ _ _) | .kernel (.finishSend _ _ _) => True
  | _ => False

/-- A packet has come. -/
def ServerEvent.isReceived : ServerEvent → Bool
  | .received _ _ _ => true
  | _ => false

/-- A send has been posted. -/
def ServerEvent.isPostedSend : ServerEvent → Bool
  | .postedSend _ pushed => pushed
  | _ => false

namespace Server

variable {cfg : Config} {server next : Server cfg} {events : List ServerEvent}
  {src : SocketAddr} {bytes : List UInt8}

/-- All going well and no send being completed, some run leads there. -/
def Leads (src : SocketAddr) (bytes : List UInt8) (c : (Server cfg × List ServerEvent) × Bool)
    (goal : (Server cfg × List ServerEvent) × Bool → Prop) : Prop :=
  (regularMachine cfg src bytes).CanReach (fun action => ¬ action.CompletesSend) c goal

/-- So many packets have come in the meantime, and as many have been sent on. -/
structure Relayed (n : ℕ) (trace later : List ServerEvent) : Prop where
  received : later.countP ServerEvent.isReceived = trace.countP ServerEvent.isReceived + n
  posted : later.countP ServerEvent.isPostedSend = trace.countP ServerEvent.isPostedSend + n

theorem Relayed.trans {first second : ℕ} {trace middle later : List ServerEvent}
    (hfirst : Relayed first trace middle) (hsecond : Relayed second middle later) :
    Relayed (first + second) trace later where
  received := by rw [hsecond.received, hfirst.received, Nat.add_assoc]
  posted := by rw [hsecond.posted, hfirst.posted, Nat.add_assoc]

theorem regularMachine_step {trace : List ServerEvent} {submitting : Bool}
    {action : ServerAction cfg} (hstep : server.step action = some (next, events))
    (hregular : server.Regular src bytes submitting action) :
    (regularMachine cfg src bytes).step ((server, trace), submitting) action =
      some ((next, trace ++ events), server.noteSubmit submitting action) :=
  Machine.guarded_step.mpr ⟨hregular, Machine.remembering_step.mpr
    ⟨Machine.traced_step.mpr ⟨next, events, hstep, rfl⟩, rfl⟩⟩

theorem Leads.step {trace : List ServerEvent} {submitting : Bool}
    {goal : (Server cfg × List ServerEvent) × Bool → Prop} (action : ServerAction cfg)
    (hother : ¬ action.CompletesSend) (hregular : server.Regular src bytes submitting action)
    (hstep : server.step action = some (next, events))
    (hrest : Leads src bytes ((next, trace ++ events), server.noteSubmit submitting action) goal) :
    Leads src bytes ((server, trace), submitting) goal :=
  Machine.CanReach.cons hother (regularMachine_step hstep hregular) hrest

/-- Where the loop does not submit, it may go on. -/
theorem regular_loop {submitting : Bool} {first second : ℕ} (hwaiting : server.point ≠ .waiting)
    (hpolling : submitting = true → server.point ≠ .polling) :
    server.Regular src bytes submitting (.loop first second) := by
  rintro (⟨hbatch, hpoint⟩ | hpoint)
  · exact absurd hpoint (hpolling hbatch)
  · exact absurd hpoint hwaiting

/-! ## One packet on its way -/

/-- Only shard 0 has anything, and no completion is left. -/
def serving (cfg : Config) (io : IoRing) (recv : List Packet) (handling : Option Packet)
    (txOut : List SqeType) (point : LoopPoint) : Server cfg :=
  ⟨io, Function.update (.new cfg) cfg.firstShard ⟨recv, handling, cfg.table⟩, txOut, point⟩

theorem new_eq_update (cfg : Config) : Worker.new cfg =
    Function.update (.new cfg) cfg.firstShard ⟨[], none, cfg.table⟩ := by
  rw [eq_comm, Function.update_eq_self_iff]
  simp [Worker.new]

theorem step_arrival {io : IoRing} {idx : UInt16} {src : SocketAddr} {len : ℕ}
    (hpeer : (io.pool.markRecvFor idx 0).getPeerAddr idx = src) (hqueue : 0 < cfg.queueCapacity) :
    (serving cfg io [] none [] (.completing [⟨encodeToken .recv idx, len, 0⟩])).step (.loop 0 0) =
      some (serving cfg { io with pool := (io.pool.markRecvFor idx 0).markShardDoneAt idx 0 }
        [⟨idx, len, src⟩] none [] (.completing []), [.routed ⟨idx, len, src⟩]) := by
  simp [serving, step, loop, complete, completeRecv, route, Config.shardFor, setWorker, hpeer,
    hqueue]

theorem step_recv (io : IoRing) (packet : Packet) (point : LoopPoint) :
    (serving cfg io [packet] none [] point).step (.recv cfg.firstShard) =
      some (serving cfg io [] (some packet) [] point, []) := by
  simp [serving, step, recv, setWorker]

theorem step_handle (io : IoRing) {packet : Packet} {entry : SqeType} (point : LoopPoint)
    (hknown : cfg.table.handlePacket packet = some entry) (htx : 0 < cfg.txCapacity) :
    (serving cfg io [] (some packet) [] point).step (.handle cfg.firstShard) =
      some (serving cfg io [] none [entry] point, [.handled packet (some entry)]) := by
  simp [serving, step, handle, setWorker, hknown, htx]

theorem step_postSend (io : IoRing) (dst : SocketAddr) (len : ℕ) (idx : UInt16)
    (hroom : io.sq.HasRoom cfg.ringEntries) :
    (serving cfg io [] none [(dst, len, idx)] (.sending 0)).step (.loop 0 0) =
      some (serving cfg { io with
        pool := (io.pool.insertSlot idx (.new (bufferStart idx) (some dst))).markSendSqeAt idx 0
        sq := { io.sq with
          unpublished := io.sq.unpublished ++ [Opcode.sendMsgZc.build idx] } } [] none []
            (.sending 1), [.postedSend (dst, len, idx) true]) := by
  have hserving : (serving cfg io [] none [(dst, len, idx)] (.sending 0)).HasRoom := hroom
  have hround : (serving cfg io [] none [(dst, len, idx)] (.sending 0)).takeSend 0 0 =
      ((serving cfg io [] none [(dst, len, idx)] (.sending 0)).postSend (dst, len, idx) [] 0 0,
        [.postedSend (dst, len, idx) true]) := by
    rw [← decide_eq_true hserving]
    rfl
  have hpost : (io.sq.push cfg.ringEntries (Opcode.sendMsgZc.build idx)).getD io.sq =
      { io.sq with unpublished := io.sq.unpublished ++ [Opcode.sendMsgZc.build idx] } :=
    SubmissionRing.getD_push (SubmissionRing.isSome_push_iff.mpr hroom)
  show some ((serving cfg io [] none [(dst, len, idx)] (.sending 0)).takeSend 0 0) = _
  rw [hround, ← hpost]
  rfl

/-! ## All sends over at once -/

/-- The loop looks for completions, and these operations are with the kernel. -/
def awaiting (cfg : Config) (pool : BufferPool) (taken : ℕ) (operations : List Sqe) : Server cfg :=
  serving cfg ⟨pool, ⟨taken, [], []⟩, operations, .empty⟩ [] none [] .polling

/-- The source of a packet is read back without its scope. -/
theorem peer_of_fill {pool filled : BufferPool} {idx : UInt16} {src : SocketAddr}
    {bytes : List UInt8} (h : pool.fill idx src bytes = some filled) :
    (filled.markRecvFor idx 0).getPeerAddr idx = unscoped src ∧
      ∀ other, (pool.liveSlots other).isSome → (filled.liveSlots other).isSome := by
  obtain ⟨slot, -, -, rfl⟩ := BufferPool.fill_eq_some h
  refine ⟨?_, fun other hother => BufferPool.isSome_insertSlot.mpr (.inl hother)⟩
  simp [BufferPool.markRecvFor, BufferPool.getPeerAddr, BufferPool.insertSlot]

/-- Every buffer of the pool has its header. -/
structure Primed (cfg : Config) (pool : BufferPool) : Prop where
  live : ∀ idx, idx.toNat < cfg.poolSize → (pool.liveSlots idx).isSome
  inPlace : pool.SlotsInPlace

theorem Primed.insertSlot {pool : BufferPool} (h : Primed cfg pool) {idx : UInt16}
    {slot : MsgHdrSlot} (hbase : slot.iovBase = bufferStart idx)
    (hlen : slot.iovLen = bufferSize) : Primed cfg (pool.insertSlot idx slot) where
  live other hother := BufferPool.isSome_insertSlot.mpr (.inl (h.live other hother))
  inPlace := h.inPlace.insertSlot hbase hlen

/-- A packet fits. -/
theorem Primed.fill {pool : BufferPool} (h : Primed cfg pool) {idx : UInt16}
    (hidx : idx.toNat < cfg.poolSize) (src : SocketAddr) {bytes : List UInt8}
    (hbytes : bytes.length ≤ bufferSize) :
    ∃ filled, pool.fill idx src bytes = some filled ∧
      (filled.markRecvFor idx 0).getPeerAddr idx = unscoped src ∧ Primed cfg filled := by
  obtain ⟨slot, hslot⟩ := Option.isSome_iff_exists.mp (h.live idx hidx)
  obtain ⟨hbase, hlen⟩ := h.inPlace idx slot hslot
  have hfill : pool.fill idx src bytes =
      some { pool.insertSlot idx { slot with addr := (writeSocketAddr src).1 } with
        memory := writeBytes pool.memory slot.iovBase bytes } := by
    rw [BufferPool.fill, hslot]
    exact if_pos (hlen ▸ hbytes)
  have hprimed : Primed cfg (pool.insertSlot idx { slot with addr := (writeSocketAddr src).1 }) :=
    h.insertSlot hbase hlen
  exact ⟨_, hfill, (peer_of_fill hfill).1, hprimed.live, hprimed.inPlace⟩

/-- A packet comes and is sent on, and the kernel takes the send. -/
theorem leads_relay {pool : BufferPool} {taken : ℕ} {idx : UInt16} {operations : List Sqe}
    {src dst : SocketAddr} {bytes : List UInt8} (hprimed : Primed cfg pool)
    (hidx : idx.toNat < cfg.poolSize) (hbytes : bytes.length ≤ bufferSize)
    (hknown : cfg.table.handlePacket ⟨idx, bytes.length, unscoped src⟩ =
      some (dst, bytes.length, idx))
    (hqueue : 0 < cfg.queueCapacity) (htx : 0 < cfg.txCapacity)
    (hroom : taken < cfg.ringEntries) (trace : List ServerEvent) (submitting : Bool) :
    Leads src bytes ((awaiting cfg pool taken (Opcode.recvMsg.build idx :: operations), trace),
        submitting) fun d => ∃ filled,
      d.1.1 = awaiting cfg filled 1 (operations ++ [Opcode.sendMsgZc.build idx]) ∧
        Primed cfg filled ∧ Relayed 1 trace d.1.2 := by
  obtain ⟨filled, hfilled, hpeer, hafter⟩ := hprimed.fill hidx src hbytes
  have hreceive : (awaiting cfg pool taken (Opcode.recvMsg.build idx :: operations)).step
      (.kernel (.receive 0 src bytes 0)) =
        some (serving cfg ⟨filled, ⟨taken, [], []⟩, operations,
          ⟨[], [⟨encodeToken .recv idx, bytes.length, 0⟩]⟩⟩ [] none [] .polling,
            [.received idx src bytes]) := by
    have hop : (awaiting cfg pool taken (Opcode.recvMsg.build idx :: operations)).io.operation
        .recvMsg 0 = some (Opcode.recvMsg.build idx) := rfl
    simp only [step, IoRing.kernel, hop, Option.bind_some, Opcode.bufIdx_build]
    simp only [awaiting, serving, hfilled]
    rfl
  have hsq : (⟨taken, [], []⟩ : SubmissionRing Sqe).HasRoom cfg.ringEntries :=
    Nat.ne_of_lt hroom
  -- the loop copies the completion out
  apply Leads.step (.kernel (.receive 0 src bytes 0)) id ⟨rfl, rfl⟩ hreceive
  apply Leads.step (.loop 0 0) id (fun _ => rfl) rfl
  apply Leads.step (.loop 0 0) id (fun _ => rfl) rfl
  -- the packet goes to the shard and comes back
  apply Leads.step (.loop 0 0) id (fun _ => rfl) (step_arrival hpeer hqueue)
  apply Leads.step (.recv cfg.firstShard) id trivial (step_recv _ _ _)
  apply Leads.step (.handle cfg.firstShard) id trivial (step_handle _ _ hknown htx)
  apply Leads.step (.loop 0 0) id (fun _ => rfl) rfl
  -- the send is a batch of its own
  apply Leads.step (.loop 0 0) id (fun _ => rfl) (step_postSend _ _ _ _ hsq)
  apply Leads.step (.loop 0 0) id (fun _ => rfl) rfl
  apply Leads.step (.loop 0 0) id (regular_loop (fun h => by cases h) fun _ h => by cases h) rfl
  apply Leads.step (.kernel .submit) id (.inl ⟨rfl, rfl⟩) rfl
  have hposted := hafter.insertSlot (MsgHdrSlot.iovBase_new (bufferStart idx) (some dst))
    (MsgHdrSlot.iovLen_new (bufferStart idx) (some dst))
  refine .here ⟨_, rfl, ⟨hposted.live, hposted.inPlace⟩, ?_⟩
  constructor <;> simp only [List.countP_append] <;> rfl

/-- The kernel takes all entries when the loop has found no completion. -/
theorem leads_takeAll (cfg : Config) (entries operations : List Sqe) (pool : BufferPool) (taken : ℕ)
    (trace : List ServerEvent) (submitting : Bool) :
    Leads src bytes ((serving cfg ⟨pool, ⟨taken, entries, []⟩, operations, .empty⟩ [] none []
        .waiting, trace), submitting)
      (· = ((serving cfg ⟨pool, ⟨taken + entries.length, [], []⟩, operations ++ entries, .empty⟩
        [] none [] .waiting, trace), submitting)) := by
  induction entries generalizing taken operations trace with
  | nil => exact .here (by simp)
  | cons entry rest ih =>
      apply Leads.step (.kernel .submit) id (.inr rfl) rfl
      refine (ih (operations ++ [entry]) (taken + 1) (trace ++ [])).mono fun d hd => ?_
      rw [hd, List.append_nil, List.append_assoc, List.length_cons, Nat.add_right_comm,
        Nat.add_assoc]
      rfl

/-- At first the kernel has a receive of every buffer. -/
theorem leads_awaiting (cfg : Config) :
    Leads src bytes (regularMachine cfg src bytes).init fun d => ∃ pool,
      d.1.1 = awaiting cfg pool cfg.poolSize
        ((indicesBelow cfg.poolSize).map Opcode.recvMsg.build) ∧
        Primed cfg pool ∧ Relayed 0 [] d.1.2 := by
  have hinit : (regularMachine cfg src bytes).init = ((serving cfg
      ⟨(TurnServer.Server.started cfg.later).pool,
        ⟨0, (indicesBelow cfg.poolSize).map Opcode.recvMsg.build, []⟩, [], .empty⟩ [] none []
          .seeded, []), false) := by
    show ((serverMachine cfg).init, false) = _
    rw [serverMachine_init, serving, ← new_eq_update]
    rfl
  have htake := @leads_takeAll src bytes cfg
    ((indicesBelow cfg.poolSize).map Opcode.recvMsg.build) []
    (TurnServer.Server.started cfg.later).pool 0 [] false
  simp only [List.length_map, length_indicesBelow, Nat.zero_add, List.nil_append] at htake
  rw [hinit]
  apply Leads.step (.loop 0 0) id (regular_loop (fun h => by cases h) fun _ h => by cases h) rfl
  apply Leads.step (.loop 0 0) id (regular_loop (fun h => by cases h) fun _ h => by cases h) rfl
  apply Leads.step (.loop 0 0) id (regular_loop (fun h => by cases h) fun h => by cases h) rfl
  apply htake.trans
  rintro d rfl
  apply Leads.step (.loop 0 0) id (fun _ => rfl) rfl
  apply Leads.step (.loop 0 0) id (fun _ => rfl) rfl
  apply Leads.step (.loop 0 0) id (fun _ => rfl) rfl
  apply Leads.step (.loop 0 0) id (fun _ => rfl) rfl
  refine .here ⟨_, rfl, ⟨?_, TurnServer.Server.slotsInPlace_started cfg.later⟩, ⟨rfl, rfl⟩⟩
  intro idx hidx
  show (if idx.toNat < cfg.poolSize then _ else none).isSome
  rw [if_pos hidx]
  rfl

/-- All buffers go out with a packet before any send is over. -/
theorem leads_relayAll {src dst : SocketAddr} {bytes : List UInt8}
    (hring : 2 * cfg.poolSize ≤ cfg.ringEntries) (hbytes : bytes.length ≤ bufferSize)
    (hknown : ∀ idx len, cfg.table.handlePacket ⟨idx, len, unscoped src⟩ = some (dst, len, idx))
    (hqueue : 0 < cfg.queueCapacity) (htx : 0 < cfg.txCapacity) {pool : BufferPool}
    {taken n : ℕ} (htaken : taken ≤ cfg.poolSize) (hn : n ≤ cfg.poolSize)
    (hprimed : Primed cfg pool) (sends : List UInt16) (trace : List ServerEvent)
    (submitting : Bool) :
    Leads src bytes ((awaiting cfg pool taken ((indicesBelow n).map Opcode.recvMsg.build ++
        sends.map Opcode.sendMsgZc.build), trace), submitting) fun d =>
      ∃ (filled : BufferPool) (taken : ℕ),
        d.1.1 = awaiting cfg filled taken
          ((sends ++ indicesBelow n).map Opcode.sendMsgZc.build) ∧ Relayed n trace d.1.2 := by
  induction n generalizing pool taken sends trace submitting with
  | zero =>
      refine .here ⟨pool, taken, ?_, rfl, rfl⟩
      rw [show indicesBelow 0 = [] from rfl, List.append_nil]
      rfl
  | succ n ih =>
      have hlt := cfg.poolSize_le
      have hidx : (UInt16.ofNat n).toNat < cfg.poolSize := by
        rw [toNat_ofNat_of_lt (by omega)]
        omega
      apply (leads_relay hprimed hidx hbytes (hknown _ _) hqueue htx (by omega) trace
        submitting).trans
      rintro ⟨⟨server, later⟩, submitting⟩ ⟨filled, hserver, hfilled, hlater⟩
      obtain rfl : server = _ := hserver
      have hrest :=
        @ih filled 1 (by omega) (by omega) hfilled (sends ++ [.ofNat n]) later submitting
      rw [List.map_append, ← List.append_assoc] at hrest
      refine hrest.mono fun d hd => ?_
      obtain ⟨filled, taken, hserver, hrelayed⟩ := hd
      rw [List.append_assoc] at hserver
      exact ⟨filled, taken, hserver, Nat.add_comm n 1 ▸ hlater.trans hrelayed⟩

/-- `IORING_CQE_F_MORE`. -/
def moreFlag : UInt32 := 2

/-- `IORING_CQE_F_NOTIF`. -/
def notifFlag : UInt32 := 8

@[simp]
theorem more_moreFlag : more moreFlag = true := by decide

@[simp]
theorem more_notifFlag : more notifFlag = false := by decide

/-- What the kernel posts for a send that goes out. -/
def sendCqes (idx : UInt16) : List Cqe :=
  [⟨encodeToken .send idx, bufferSize, moreFlag⟩, ⟨encodeToken .send idx, 0, notifFlag⟩]

/-- The kernel completes so many sends, one after the other. -/
def completeAll (cfg : Config) : ℕ → List (ServerAction cfg)
  | 0 => []
  | n + 1 => .kernel (.progressSend 0 bufferSize moreFlag) ::
      .kernel (.finishSend 0 0 notifFlag) :: completeAll cfg n

/-- A server that looks for completions while the kernel has these sends. -/
def completing (cfg : Config) (pool : BufferPool) (taken : ℕ) (idxs : List UInt16)
    (posted : List Cqe) : Server cfg :=
  serving cfg ⟨pool, ⟨taken, [], []⟩, idxs.map Opcode.sendMsgZc.build, ⟨[], posted⟩⟩ [] none []
    .polling

theorem exec_completeAll (pool : BufferPool) (taken : ℕ) (idxs : List UInt16) (posted : List Cqe)
    (trace : List ServerEvent) (submitting : Bool) :
    (regularMachine cfg src bytes).exec ((completing cfg pool taken idxs posted, trace), submitting)
        (completeAll cfg idxs.length) =
      some ((completing cfg pool taken [] (posted ++ idxs.flatMap sendCqes), trace),
        submitting) := by
  induction idxs generalizing posted with
  | nil => simp [completeAll]
  | cons idx idxs ih =>
      have hprogress : (completing cfg pool taken (idx :: idxs) posted).step
          (.kernel (.progressSend 0 bufferSize moreFlag)) =
            some (completing cfg pool taken (idx :: idxs)
              (posted ++ [⟨encodeToken .send idx, bufferSize, moreFlag⟩]), []) := rfl
      have hfinish : (completing cfg pool taken (idx :: idxs)
          (posted ++ [⟨encodeToken .send idx, bufferSize, moreFlag⟩])).step
            (.kernel (.finishSend 0 0 notifFlag)) =
              some (completing cfg pool taken idxs
                (posted ++ [⟨encodeToken .send idx, bufferSize, moreFlag⟩] ++
                  [⟨encodeToken .send idx, 0, notifFlag⟩]), []) := rfl
      have hrest := ih (posted ++ [⟨encodeToken .send idx, bufferSize, moreFlag⟩] ++
        [⟨encodeToken .send idx, 0, notifFlag⟩])
      rw [List.length_cons, completeAll, Machine.exec_cons, regularMachine_step hprogress rfl,
        Option.bind_some, Machine.exec_cons, regularMachine_step hfinish rfl, Option.bind_some,
        List.append_nil, List.append_nil]
      refine hrest.trans ?_
      rw [List.flatMap_cons, List.append_assoc posted, List.append_assoc posted]
      rfl

/-- The loop copies the completions out. -/
theorem leads_collect (pool : BufferPool) (taken : ℕ) (posted : List Cqe)
    (trace : List ServerEvent) (submitting : Bool) :
    Leads src bytes ((serving cfg ⟨pool, ⟨taken, [], []⟩, [], ⟨[], posted⟩⟩ [] none [] .polling,
        trace), submitting)
      (·.1 = (serving cfg ⟨pool, ⟨taken, [], []⟩, [], .empty⟩ [] none [] (.completing posted),
        trace)) := by
  cases posted with
  | nil =>
      apply Leads.step (.loop 0 0) id (fun _ => rfl) rfl
      apply Leads.step (.loop 0 0) id (fun _ => rfl) rfl
      apply Leads.step (.loop 0 0) id (fun _ => rfl) rfl
      simp only [List.append_nil]
      exact .here rfl
  | cons cqe rest =>
      apply Leads.step (.loop 0 0) id (fun _ => rfl) rfl
      apply Leads.step (.loop 0 0) id (fun _ => rfl) rfl
      simp only [List.append_nil]
      exact .here rfl

theorem quiet_serving (pool : BufferPool) (taken : ℕ) (point : LoopPoint) :
    (serving cfg ⟨pool, ⟨taken, [], []⟩, [], .empty⟩ [] none [] point).Quiet where
  published := rfl
  operations := rfl
  entries := rfl
  recv shard := by
    simp only [serving, ← new_eq_update]
    rfl
  handling shard := by
    simp only [serving, ← new_eq_update]
    rfl
  txOut := rfl

/-- The loop passes over the first completion of a send, -/
theorem step_progressed {idx : UInt16} {rest : List Cqe}
    (hpoint : server.point = .completing (⟨encodeToken .send idx, bufferSize, moreFlag⟩ :: rest)) :
    server.step (.loop 0 0) = some ({ server with point := .completing rest }, []) := by
  simp [step, loop, hpoint, complete]

/-- and deals with the last one. -/
theorem step_sent {idx : UInt16} {rest : List Cqe}
    (hpoint : server.point = .completing (⟨encodeToken .send idx, 0, notifFlag⟩ :: rest)) :
    server.step (.loop 0 0) =
      some (({ server with point := .completing rest } : Server cfg).completeSend idx) := by
  simp [step, loop, hpoint, complete]

theorem Quiet.completeSend (h : server.Quiet) (idx : UInt16) :
    (server.completeSend idx).1.Quiet := by
  have hpublished := (frame_push server.io.sq cfg.ringEntries (Opcode.recvMsg.build idx)).2
  exact { h with published := hpublished.trans h.published }

/-- The buffer's receive is pushed and stays unpublished. -/
theorem unpublished_completeSend {idx : UInt16} (hroom : server.HasRoom) :
    (server.completeSend idx).1.io.sq.unpublished =
      server.io.sq.unpublished ++ [Opcode.recvMsg.build idx] := by
  have hpush : (server.io.sq.push cfg.ringEntries (Opcode.recvMsg.build idx)).getD server.io.sq =
      { server.io.sq with
        unpublished := server.io.sq.unpublished ++ [Opcode.recvMsg.build idx] } :=
    SubmissionRing.getD_push (SubmissionRing.isSome_push_iff.mpr hroom)
  exact congrArg SubmissionRing.unpublished hpush

/-- The loop deals with the completions of one send. -/
theorem leads_sent {trace : List ServerEvent} {submitting : Bool}
    (hring : 2 * cfg.poolSize ≤ cfg.ringEntries)
    (hc : (serverMachine cfg).Reachable (server, trace)) (hquiet : server.Quiet) {idx : UInt16}
    {rest : List Cqe} (hpoint : server.point = .completing (sendCqes idx ++ rest)) :
    Leads src bytes ((server, trace), submitting) fun d =>
      (serverMachine cfg).Reachable d.1 ∧ d.1.1.Quiet ∧ d.1.1.point = .completing rest ∧
        Relayed 0 trace d.1.2 ∧
        d.1.1.io.sq.unpublished = server.io.sq.unpublished ++ [Opcode.recvMsg.build idx] := by
  have hpassed := step_progressed hpoint
  have hsent := @step_sent cfg
    { server with point := .completing (⟨encodeToken .send idx, 0, notifFlag⟩ :: rest) }
    idx rest rfl
  have hmiddle := hc.step (Machine.traced_step.mpr ⟨_, _, hpassed, rfl⟩)
  have hnext := hmiddle.step (Machine.traced_step.mpr ⟨_, _, hsent, rfl⟩)
  have hroom : server.HasRoom := by
    have hpushed := pushed_of_reachable hring hnext (.postedRecv idx server.HasRoom)
      (List.mem_append_right _ List.mem_cons_self)
    by_contra hfull
    rw [decide_eq_false hfull] at hpushed
    cases hpushed
  have hrest : ({ server with point := .completing rest } : Server cfg).Quiet := { hquiet with }
  have hregular : ∀ (server : Server cfg) submitting cqes, server.point = .completing cqes →
      server.Regular src bytes submitting (.loop 0 0) := by
    intro server submitting cqes hpoint
    apply regular_loop
    · rw [hpoint]
      exact LoopPoint.noConfusion
    · intro _
      rw [hpoint]
      exact LoopPoint.noConfusion
  apply Leads.step (.loop 0 0) id (hregular _ _ _ hpoint) hpassed
  apply Leads.step (.loop 0 0) id (hregular _ _ _ rfl) hsent
  refine .here ⟨hnext, hrest.completeSend idx, ?_, ?_, unpublished_completeSend hroom⟩
  · -- otherwise the loop would have panicked
    by_contra hpanicked
    apply not_panicked_of_reachable hnext
    dsimp only [Server.completeSend] at hpanicked ⊢
    split at hpanicked
    · exact absurd rfl hpanicked
    · next hreport =>
      refine ⟨rest, ?_⟩
      rw [if_neg hreport]
      rfl
  · constructor <;> simp only [List.countP_append] <;> rfl

/-- When the last completion has been dealt with nothing is left. -/
theorem leads_stranded {trace : List ServerEvent} {submitting : Bool}
    (hring : 2 * cfg.poolSize ≤ cfg.ringEntries)
    (hc : (serverMachine cfg).Reachable (server, trace)) (hquiet : server.Quiet)
    {idxs : List UInt16} (hpoint : server.point = .completing (idxs.flatMap sendCqes)) :
    Leads src bytes ((server, trace), submitting) fun d =>
      d.1.1.Stranded ∧ Relayed 0 trace d.1.2 ∧
        d.1.1.io.sq.unpublished = server.io.sq.unpublished ++ idxs.map Opcode.recvMsg.build := by
  induction idxs generalizing server trace submitting with
  | nil =>
      refine .here ⟨⟨hquiet, by rw [hpoint]; rfl, fun pushed h => ?_⟩, ⟨rfl, rfl⟩, ?_⟩
      · cases hpoint.symm.trans h
      · rw [List.map_nil, List.append_nil]
  | cons idx idxs ih =>
      refine (leads_sent hring hc hquiet hpoint).trans fun d hd => ?_
      obtain ⟨hreachable, hquiet, hpoint, hfirst, hunpublished⟩ := hd
      refine (ih hreachable hquiet hpoint).mono fun e he => ?_
      obtain ⟨hstranded, hsecond, hrest⟩ := he
      refine ⟨hstranded, hfirst.trans hsecond, ?_⟩
      rw [hrest, hunpublished, List.append_assoc]
      rfl

/-- An endpoint of a session is known. -/
theorem exists_answer {src : SocketAddr} (hsession : ∃ session ∈ cfg.sessions, session.names src) :
    ∃ dst, ∀ idx len, cfg.table.handlePacket ⟨idx, len, src⟩ = some (dst, len, idx) := by
  have hfound : (Known.ofSessions cfg.sessions src).isSome := by
    rw [Known.ofSessions_eq_find?, List.find?_isSome]
    obtain ⟨session, hmem, hnames⟩ := hsession
    exact ⟨session, List.mem_reverse.mpr hmem, hnames⟩
  obtain ⟨session, hsome⟩ := Option.isSome_iff_exists.mp hfound
  have hnames := Known.honest_ofSessions cfg.sessions src session hsome
  rw [← Session.isSome_routeTo] at hnames
  obtain ⟨dst, hdst⟩ := Option.isSome_iff_exists.mp hnames
  refine ⟨dst, fun idx len => ?_⟩
  rw [Shard.handlePacket_eq_answer, cfg.known_table]
  simp [Known.answer, hsome, hdst]

end Server

/-! ## Runs -/

variable {cfg : Config} {c d : Server cfg × List ServerEvent}

/-- Nothing ever happens on a stranded server. -/
theorem silent_of_stranded (hstranded : c.1.Stranded) {actions : List (ServerAction cfg)}
    (hexec : (serverMachine cfg).exec c actions = some d) : d.1.Stranded ∧ d.2 = c.2 := by
  induction actions generalizing c with
  | nil =>
      cases hexec
      exact ⟨hstranded, rfl⟩
  | cons action actions ih =>
      rw [Machine.exec_cons, Option.bind_eq_some_iff] at hexec
      obtain ⟨middle, hstep, hrest⟩ := hexec
      obtain ⟨next, events, hnext, rfl⟩ := Machine.traced_step.mp hstep
      obtain ⟨hstill, rfl⟩ := (Server.transition_of_step hnext).stranded hstranded
      rw [List.append_nil] at hrest
      exact @ih (next, c.2) hstill hrest

/-- The client sends as many packets as there are buffers, and all are sent on; then the kernel
completes all sends, one after the other; and then it is the loop's turn. -/
structure Burst (cfg : Config) (src : SocketAddr) (bytes : List UInt8)
    (before after : List (ServerAction cfg)) (c : Server cfg × List ServerEvent) : Prop where
  exec : (serverMachine cfg).exec (serverMachine cfg).init
    (before ++ Server.completeAll cfg cfg.poolSize ++ after) = some c
  regular : (serverMachine cfg).AlongWith
    (fun submitting c action => c.1.noteSubmit submitting action)
    (fun submitting c action => c.1.Regular src bytes submitting action) false
    (serverMachine cfg).init (before ++ Server.completeAll cfg cfg.poolSize ++ after)
  received : c.2.countP ServerEvent.isReceived = cfg.poolSize
  posted : c.2.countP ServerEvent.isPostedSend = cfg.poolSize
  apart : ∀ action ∈ before ++ after, ¬ action.CompletesSend

/-- The server holds every buffer, with a receive that the kernel cannot see. -/
structure Server.AllUnseen (server : Server cfg) : Prop where
  held : server.held = (indicesBelow cfg.poolSize : Multiset UInt16)
  operations : server.io.operations = []
  published : server.io.sq.published = []
  unpublished : server.io.sq.unpublished = (indicesBelow cfg.poolSize).map Opcode.recvMsg.build

/-- A regular run is a run. -/
theorem exec_of_regular {src : SocketAddr} {bytes : List UInt8} {actions : List (ServerAction cfg)}
    {d : (Server cfg × List ServerEvent) × Bool}
    (hexec : (regularMachine cfg src bytes).exec (regularMachine cfg src bytes).init actions =
      some d) :
    (serverMachine cfg).exec (serverMachine cfg).init actions = some d.1 ∧
      (serverMachine cfg).AlongWith
        (fun submitting c action => c.1.noteSubmit submitting action)
        (fun submitting c action => c.1.Regular src bytes submitting action) false
        (serverMachine cfg).init actions :=
  Machine.exec_of_guarded_remembering (M := serverMachine cfg)
    (G := fun submitting c action => c.1.Regular src bytes submitting action)
    (c := ((serverMachine cfg).init, false)) hexec

/-- All buffers go out, and no send is over. -/
theorem leads_out {src dst : SocketAddr} {bytes : List UInt8}
    (hring : 2 * cfg.poolSize ≤ cfg.ringEntries) (hbytes : bytes.length ≤ bufferSize)
    (hknown : ∀ idx len, cfg.table.handlePacket ⟨idx, len, unscoped src⟩ = some (dst, len, idx))
    (hqueue : 0 < cfg.queueCapacity) (htx : 0 < cfg.txCapacity) :
    Server.Leads src bytes (regularMachine cfg src bytes).init fun d => ∃ pool taken,
      d.1.1 = .completing cfg pool taken (indicesBelow cfg.poolSize) [] ∧
        Server.Relayed cfg.poolSize [] d.1.2 := by
  refine (Server.leads_awaiting cfg).trans ?_
  rintro ⟨⟨server, trace⟩, submitting⟩ ⟨pool, hserver, hprimed, hnone⟩
  obtain rfl : server = _ := hserver
  have hout := Server.leads_relayAll hring hbytes hknown hqueue htx le_rfl le_rfl hprimed [] trace
    submitting
  rw [List.map_nil, List.append_nil] at hout
  refine hout.mono fun d hd => ?_
  obtain ⟨filled, taken, hserver, hrelayed⟩ := hd
  exact ⟨filled, taken, hserver, Nat.zero_add cfg.poolSize ▸ hnone.trans hrelayed⟩

/-- When the kernel has completed all sends, the loop is soon done. -/
theorem leads_in {src : SocketAddr} {bytes : List UInt8}
    (hring : 2 * cfg.poolSize ≤ cfg.ringEntries) {pool : BufferPool} {taken : ℕ}
    {idxs : List UInt16} {trace : List ServerEvent} {submitting : Bool}
    (hc : (serverMachine cfg).Reachable
      (.completing cfg pool taken [] (idxs.flatMap Server.sendCqes), trace)) :
    Server.Leads src bytes
      ((.completing cfg pool taken [] (idxs.flatMap Server.sendCqes), trace), submitting) fun d =>
        d.1.1.Stranded ∧ Server.Relayed 0 trace d.1.2 ∧
          d.1.1.io.sq.unpublished = idxs.map Opcode.recvMsg.build := by
  have hkeep : ∀ (c : (Server cfg × List ServerEvent) × Bool) action d,
      (serverMachine cfg).Reachable c.1 → ¬ action.CompletesSend →
        (regularMachine cfg src bytes).step c action = some d →
          (serverMachine cfg).Reachable d.1 := by
    intro c action d hc _ hstep
    exact hc.step (Machine.remembering_step.mp (Machine.guarded_step.mp hstep).2).1
  have hcollect : Server.Leads src bytes
      ((.completing cfg pool taken [] (idxs.flatMap Server.sendCqes), trace), submitting) _ :=
    Server.leads_collect pool taken (idxs.flatMap Server.sendCqes) trace submitting
  refine (Machine.CanReach.keeping hcollect hc hkeep).trans ?_
  rintro ⟨⟨server, later⟩, submitting⟩ ⟨hsame, hreachable⟩
  cases hsame
  exact Server.leads_stranded hring hreachable (Server.quiet_serving pool taken _) rfl

/-- The run leads there. -/
theorem exists_burst {src dst : SocketAddr} {bytes : List UInt8}
    (hring : 2 * cfg.poolSize ≤ cfg.ringEntries) (hbytes : bytes.length ≤ bufferSize)
    (hknown : ∀ idx len, cfg.table.handlePacket ⟨idx, len, unscoped src⟩ = some (dst, len, idx))
    (hqueue : 0 < cfg.queueCapacity) (htx : 0 < cfg.txCapacity) :
    ∃ before after c, Burst cfg src bytes before after c ∧ c.1.Stranded ∧
        c.1.io.sq.unpublished = (indicesBelow cfg.poolSize).map Opcode.recvMsg.build := by
  obtain ⟨before, ⟨⟨server, trace⟩, submitting⟩, hbefore, hexec, pool, taken, hserver, hout⟩ :=
    leads_out hring hbytes hknown hqueue htx
  obtain rfl : server = _ := hserver
  have hcompleted := (regularMachine cfg src bytes).exec_trans hexec
    (Server.exec_completeAll pool taken (indicesBelow cfg.poolSize) [] trace submitting)
  rw [length_indicesBelow] at hcompleted
  obtain ⟨after, ⟨c, submitting'⟩, hafter, hexec', hstranded, hin, hunpublished⟩ :=
    leads_in hring ⟨_, (exec_of_regular hcompleted).1⟩
  have hall := exec_of_regular ((regularMachine cfg src bytes).exec_trans hcompleted hexec')
  have hrelayed := hout.trans hin
  refine ⟨before, after, c, ⟨hall.1, hall.2, ?_, ?_, fun action hmem => ?_⟩, hstranded,
    hunpublished⟩
  · exact hrelayed.received.trans (Nat.zero_add _)
  · exact hrelayed.posted.trans (Nat.zero_add _)
  · exact (List.mem_append.mp hmem).elim (hbefore action) (hafter action)

/-- With nothing elsewhere, the receives that wait to be published are all that the server has. -/
theorem held_of_unpublished (hc : (serverMachine cfg).Reachable c)
    (hunpublished :
      c.1.io.sq.unpublished = (indicesBelow cfg.poolSize).map Opcode.recvMsg.build) :
    c.1.held = (indicesBelow cfg.poolSize : Multiset UInt16) := by
  have hbuffers : c.1.io.sq.unpublished.map Sqe.bufIdx = indicesBelow cfg.poolSize := by
    rw [hunpublished, List.map_map]
    exact List.map_id _
  have hsublist : (c.1.io.sq.unpublished.map Sqe.bufIdx).Sublist (c.1.submitted.map Sqe.bufIdx) :=
    ((List.sublist_append_right _ _).trans (List.sublist_append_left _ _)).map Sqe.bufIdx
  have hring : (c.1.submitted.map Sqe.bufIdx : Multiset UInt16) ≤ c.1.inRing :=
    (Multiset.le_add_left _ _).trans (Multiset.le_add_right _ _)
  have hle : (indicesBelow cfg.poolSize : Multiset UInt16) ≤ c.1.held := by
    rw [← hbuffers]
    exact (Multiset.coe_le.mpr hsublist.subperm).trans
      (hring.trans (Multiset.le_add_right _ _))
  refine (Multiset.eq_of_le_of_card_le hle ?_).symm
  rw [Multiset.coe_card, length_indicesBelow]
  exact card_held_le hc

/-- A client of a session that sends as many packets as there are buffers, to a kernel that
completes all sends together, brings the server to a state in which it holds every buffer, with a
receive that waits to be published, and yet, whatever comes later, never receives or sends anything
again. -/
theorem silent_with_all_buffers {src : SocketAddr} {bytes : List UInt8}
    (hring : 2 * cfg.poolSize ≤ cfg.ringEntries) (hbytes : bytes.length ≤ bufferSize)
    (hqueue : 0 < cfg.queueCapacity) (htx : 0 < cfg.txCapacity)
    (hsession : ∃ session ∈ cfg.sessions, session.names (unscoped src)) :
    ∃ before after c, Burst cfg src bytes before after c ∧ c.1.AllUnseen ∧
      ∀ later d, (serverMachine cfg).exec c later = some d → d.2 = c.2 := by
  obtain ⟨dst, hknown⟩ := Server.exists_answer hsession
  obtain ⟨before, after, c, hburst, hstranded, hunpublished⟩ :=
    exists_burst hring hbytes hknown hqueue htx
  have hheld := held_of_unpublished ⟨_, hburst.exec⟩ hunpublished
  refine ⟨before, after, c, hburst,
    ⟨hheld, hstranded.operations, hstranded.published, hunpublished⟩, fun later d hlater => ?_⟩
  exact (silent_of_stranded hstranded hlater).2

theorem silent_with_all_buffers_main :
    ∃ before after c, Burst .main (.v4 0x7f000001 9001) [1] before after c ∧ c.1.AllUnseen ∧
      ∀ later d, (serverMachine .main).exec c later = some d → d.2 = c.2 :=
  @silent_with_all_buffers .main (.v4 0x7f000001 9001) [1] (by decide) (by decide) (by decide)
    (by decide) ⟨mainSession, List.mem_cons_self, by decide⟩

end P2PNetworking.TurnServer.FirstImpl
