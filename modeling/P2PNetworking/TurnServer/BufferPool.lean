/-
# Buffers, message headers and operation tokens

The pool is one block of memory cut into buffers of `bufferSize` bytes, named by
16-bit indices.  Every operation given to the ring points at a message header in
`live_slots` under the index of its buffer, and carries kind and index in the 64
bits of its user data.

A hash map that is only looked up by key is a function here, and so is memory.
-/

import P2PNetworking.TurnServer.Session
import P2PNetworking.Common.Packet
import P2PNetworking.Lib.Ring
import Mathlib.Logic.Function.Basic

namespace P2PNetworking.TurnServer

open P2PNetworking.Net P2PNetworking.Lib
open P2PNetworking.Common (toBeBytes fromBeBytes fromBeBytes_toBeBytes)

/-! ## Tokens -/

inductive OpType
  | recv
  | send
  | sendNotif
  deriving DecidableEq, Repr

/-- `op_bits`. -/
def OpType.bits : OpType → UInt64
  | .recv => 0
  | .send => 1
  | .sendNotif => 2

/-- The kind above the low sixteen bits, the index in them. -/
def encodeToken (op : OpType) (bufIdx : UInt16) : UInt64 :=
  (op.bits <<< 16) ||| bufIdx.toUInt64

def decodeToken (token : UInt64) : OpType × UInt16 :=
  let op :=
    if token >>> 16 = 0 then .recv
    else if token >>> 16 = 1 then .send
    else if token >>> 16 = 2 then .sendNotif
    else .send
  (op, (token &&& 0xFFFF).toUInt16)

theorem toNat_encodeToken (op : OpType) (bufIdx : UInt16) :
    (encodeToken op bufIdx).toNat = 2 ^ 16 * op.bits.toNat + bufIdx.toNat := by
  have hidx := bufIdx.toNat_lt
  have hbits : op.bits.toNat < 3 := by cases op <;> decide
  have hshift : (16 : UInt64).toNat % 64 = 16 := rfl
  rw [encodeToken, UInt64.toNat_or, UInt64.toNat_shiftLeft, UInt16.toNat_toUInt64, hshift,
    Nat.shiftLeft_eq, Nat.mod_eq_of_lt (by omega), Nat.mul_comm]
  exact (Nat.two_pow_add_eq_or_of_lt hidx _).symm

/-- The kind and the index come back out of a token. -/
@[simp]
theorem decodeToken_encodeToken (op : OpType) (bufIdx : UInt16) :
    decodeToken (encodeToken op bufIdx) = (op, bufIdx) := by
  have hidx := bufIdx.toNat_lt
  have hhigh : encodeToken op bufIdx >>> 16 = op.bits := by
    apply UInt64.toNat_inj.mp
    have hshift : (16 : UInt64).toNat % 64 = 16 := rfl
    rw [UInt64.toNat_shiftRight, hshift, Nat.shiftRight_eq_div_pow, toNat_encodeToken]
    omega
  have hlow : (encodeToken op bufIdx &&& 0xFFFF).toUInt16 = bufIdx := by
    apply UInt16.toNat_inj.mp
    have hmask : (0xFFFF : UInt64).toNat = 2 ^ 16 - 1 := rfl
    rw [UInt64.toNat_toUInt16, UInt64.toNat_and, hmask, Nat.and_two_pow_sub_one_eq_mod,
      toNat_encodeToken]
    omega
  rw [decodeToken, hhigh, hlow]
  cases op <;> rfl

/-! ## Socket addresses in memory -/

/-- `u16::to_be`, as the bytes that then stand in memory. -/
def portToBe (port : UInt16) : List UInt8 := [.ofNat (port.toNat / 2 ^ 8), .ofNat port.toNat]

/-- `u16::from_be`. -/
def portFromBe (bytes : List UInt8) : UInt16 :=
  .ofNat (bytes.foldl (fun n byte => 256 * n + byte.toNat) 0)

@[simp]
theorem portFromBe_portToBe (port : UInt16) : portFromBe (portToBe port) = port := by
  have hlt := port.toNat_lt
  apply UInt16.toNat_inj.mp
  simp only [portFromBe, portToBe, List.foldl_cons, List.foldl_nil, UInt8.toNat_ofNat',
    UInt16.toNat_ofNat']
  omega

/-- `sockaddr_storage`, by address family; a zeroed one has the family 0. -/
inductive SockaddrStorage
  | zeroed
  | inet (sinPort sAddr : List UInt8)
  | inet6 (sin6Port : List UInt8) (sin6Flowinfo : UInt32) (s6Addr : Vector UInt8 16)
      (sin6ScopeId : UInt32)
  deriving DecidableEq

/-- `size_of::<sockaddr_storage>()`. -/
def SockaddrStorage.size : ℕ := 128

/-- The address in memory, and the length of the structure written. -/
def writeSocketAddr : SocketAddr → SockaddrStorage × ℕ
  | .v4 ip port => (.inet (portToBe port) (toBeBytes ip), 16)
  | .v6 ip port flowinfo scopeId => (.inet6 (portToBe port) flowinfo ip scopeId, 28)

def extractSrcAddr : SockaddrStorage → SocketAddr
  | .inet sinPort sAddr => .v4 (fromBeBytes sAddr) (portFromBe sinPort)
  | .inet6 sin6Port _ s6Addr _ => .v6 s6Addr (portFromBe sin6Port) 0 0
  | .zeroed => .unspecified

/-- IP and port of an address. -/
def unscoped : SocketAddr → SocketAddr
  | .v4 ip port => .v4 ip port
  | .v6 ip port _ _ => .v6 ip port 0 0

/-- IP and port survive the way through memory. -/
@[simp]
theorem extractSrcAddr_writeSocketAddr (addr : SocketAddr) :
    extractSrcAddr (writeSocketAddr addr).1 = unscoped addr := by
  cases addr with
  | v4 ip port => simp [writeSocketAddr, extractSrcAddr, unscoped]
  | v6 ip port flowinfo scopeId => simp [writeSocketAddr, extractSrcAddr, unscoped]

/-! ## Message headers and ring entries -/

/-- A message header with its one `iovec` and its address. -/
structure MsgHdrSlot where
  iovBase : ℕ
  iovLen : ℕ
  addr : SockaddrStorage
  msgNamelen : ℕ
  deriving DecidableEq

/-- The header for the buffer at `buf`; to send when an address is given. -/
def MsgHdrSlot.new (buf : ℕ) : Option SocketAddr → MsgHdrSlot
  | some addr => ⟨buf, bufferSize, (writeSocketAddr addr).1, (writeSocketAddr addr).2⟩
  | none => ⟨buf, bufferSize, .zeroed, SockaddrStorage.size⟩

@[simp]
theorem MsgHdrSlot.iovBase_new (buf : ℕ) (addr : Option SocketAddr) :
    (new buf addr).iovBase = buf := by
  cases addr <;> rfl

@[simp]
theorem MsgHdrSlot.iovLen_new (buf : ℕ) (addr : Option SocketAddr) :
    (new buf addr).iovLen = bufferSize := by
  cases addr <;> rfl

/-- The two operations the server submits. -/
inductive Opcode
  | recvMsg
  | sendMsgZc
  deriving DecidableEq, Repr

/-- How the operation is marked in its user data. -/
def Opcode.opType : Opcode → OpType
  | .recvMsg => .recv
  | .sendMsgZc => .send

/-- A submission entry: its message header is the live slot of its buffer, and its
user data is the token of operation and buffer. -/
structure Sqe where
  opcode : Opcode
  bufIdx : UInt16
  userData : UInt64
  userData_eq : userData = encodeToken opcode.opType bufIdx
  deriving DecidableEq

/-- An operation with `user_data(encode_token(..))`. -/
def Opcode.build (opcode : Opcode) (bufIdx : UInt16) : Sqe :=
  ⟨opcode, bufIdx, encodeToken opcode.opType bufIdx, rfl⟩

@[simp]
theorem Opcode.opcode_build (opcode : Opcode) (bufIdx : UInt16) :
    (opcode.build bufIdx).opcode = opcode := rfl

@[simp]
theorem Opcode.bufIdx_build (opcode : Opcode) (bufIdx : UInt16) :
    (opcode.build bufIdx).bufIdx = bufIdx := rfl

/-- A completion entry. -/
structure Cqe where
  userData : UInt64
  result : ℤ
  flags : UInt32
  deriving DecidableEq

/-- `cqueue::more`: the flag `IORING_CQE_F_MORE`. -/
def more (flags : UInt32) : Bool := flags &&& 2 ≠ 0

/-! ## Pool -/

/-- When a packet passed the stations of the server. -/
structure PacketTiming where
  recvCqeAt : ℕ
  shardDoneAt : Option ℕ
  sendSqeAt : Option ℕ
  deriving DecidableEq, Repr

structure BufferPool where
  memory : ℕ → UInt8
  freeList : List UInt16
  timestamp : UInt16 → Option PacketTiming
  liveSlots : UInt16 → Option MsgHdrSlot

/-- Where a buffer starts in memory. -/
def bufferStart (idx : UInt16) : ℕ := idx.toNat * bufferSize

/-- Buffers do not overlap. -/
theorem bufferStart_add_ne {idx other : UInt16} (hne : idx ≠ other) {i j : ℕ}
    (hi : i < bufferSize) (hj : j < bufferSize) :
    bufferStart idx + i ≠ bufferStart other + j := by
  intro h
  have hidx : idx.toNat ≠ other.toNat := fun heq => hne (UInt16.toNat_inj.mp heq)
  unfold bufferStart bufferSize at *
  omega

/-- `len` bytes from `start`. -/
def readBytes (memory : ℕ → UInt8) (start len : ℕ) : List UInt8 :=
  (List.range len).map fun i => memory (start + i)

/-- Memory after bytes were written from `start` on. -/
def writeBytes (memory : ℕ → UInt8) (start : ℕ) (bytes : List UInt8) : ℕ → UInt8 := fun i =>
  if start ≤ i then bytes[i - start]?.getD (memory i) else memory i

@[simp]
theorem length_readBytes (memory : ℕ → UInt8) (start len : ℕ) :
    (readBytes memory start len).length = len := by
  simp [readBytes]

theorem writeBytes_of_lt (memory : ℕ → UInt8) (start : ℕ) {bytes : List UInt8} {i : ℕ}
    (hi : i < bytes.length) : writeBytes memory start bytes (start + i) = bytes[i] := by
  simp [writeBytes, hi]

/-- Outside of what is written memory keeps its bytes. -/
theorem writeBytes_of_forall_ne (memory : ℕ → UInt8) {start i : ℕ} {bytes : List UInt8}
    (hi : ∀ j < bytes.length, i ≠ start + j) : writeBytes memory start bytes i = memory i := by
  unfold writeBytes
  split
  · next hle =>
    have hlong : bytes.length ≤ i - start := by
      by_contra hlt
      exact hi (i - start) (by omega) (by omega)
    rw [List.getElem?_eq_none hlong, Option.getD_none]
  · rfl

namespace BufferPool

/-- `BufferPool::default`. -/
def default : BufferPool := ⟨fun _ => 0, [], fun _ => none, fun _ => none⟩

/-- The indices that `register_buffer_kernel` puts on the free list. -/
def register (pool : BufferPool) (poolSize : ℕ) : BufferPool :=
  { pool with freeList := pool.freeList ++ (List.range poolSize).map UInt16.ofNat }

def acquire (pool : BufferPool) : Option (UInt16 × BufferPool) :=
  pool.freeList.getLast?.map fun idx => (idx, { pool with freeList := pool.freeList.dropLast })

/-- `live_slots.insert`. -/
def insertSlot (pool : BufferPool) (idx : UInt16) (slot : MsgHdrSlot) : BufferPool :=
  { pool with liveSlots := Function.update pool.liveSlots idx (some slot) }

/-- `post_recv_sqe`.  A full queue is only logged. -/
def postRecvSqe (pool : BufferPool) (ringEntries : ℕ) (sq : SubmissionRing Sqe)
    (idx : UInt16) (addr : Option SocketAddr) : BufferPool × SubmissionRing Sqe :=
  (pool.insertSlot idx (.new (bufferStart idx) addr),
    (sq.push ringEntries (Opcode.recvMsg.build idx)).getD sq)

/-- `post_send_sqe`.  The length is not used, and a full queue is only logged. -/
def postSendSqe (pool : BufferPool) (ringEntries : ℕ) (sq : SubmissionRing Sqe) (_len : ℕ)
    (idx : UInt16) (dest : SocketAddr) : BufferPool × SubmissionRing Sqe :=
  (pool.insertSlot idx (.new (bufferStart idx) (some dest)),
    (sq.push ringEntries (Opcode.sendMsgZc.build idx)).getD sq)

/-- `release`. -/
def release (pool : BufferPool) (ringEntries : ℕ) (sq : SubmissionRing Sqe) (idx : UInt16) :
    BufferPool × SubmissionRing Sqe :=
  pool.postRecvSqe ringEntries sq idx none

def markRecvFor (pool : BufferPool) (bufIdx : UInt16) (timestamp : ℕ) : BufferPool :=
  { pool with
    timestamp := Function.update pool.timestamp bufIdx (some ⟨timestamp, none, none⟩) }

def markShardDoneAt (pool : BufferPool) (bufIdx : UInt16) (timestamp : ℕ) : BufferPool :=
  { pool with
    timestamp := Function.update pool.timestamp bufIdx
      ((pool.timestamp bufIdx).map fun stamp => { stamp with shardDoneAt := some timestamp }) }

def markSendSqeAt (pool : BufferPool) (bufIdx : UInt16) (timestamp : ℕ) : BufferPool :=
  { pool with
    timestamp := Function.update pool.timestamp bufIdx
      ((pool.timestamp bufIdx).map fun stamp => { stamp with sendSqeAt := some timestamp }) }

def takeRecvFor (pool : BufferPool) (bufIdx : UInt16) : Option PacketTiming × BufferPool :=
  (pool.timestamp bufIdx,
    { pool with timestamp := Function.update pool.timestamp bufIdx none })

def getPeerAddr (pool : BufferPool) (bufIdx : UInt16) : SocketAddr :=
  ((pool.liveSlots bufIdx).map fun slot => extractSrcAddr slot.addr).getD .unspecified

/-- The bytes that the message header of a buffer names. -/
def described (pool : BufferPool) (idx : UInt16) : List UInt8 :=
  match pool.liveSlots idx with
  | none => []
  | some slot => readBytes pool.memory slot.iovBase slot.iovLen

/-- The kernel receives into a buffer: it writes the payload, of at most `iovLen`
bytes, and the address of the sender. -/
def fill (pool : BufferPool) (idx : UInt16) (src : SocketAddr) (bytes : List UInt8) :
    Option BufferPool :=
  match pool.liveSlots idx with
  | none => none
  | some slot =>
      if bytes.length ≤ slot.iovLen then
        some { pool.insertSlot idx { slot with addr := (writeSocketAddr src).1 } with
          memory := writeBytes pool.memory slot.iovBase bytes }
      else none

/-- What a successful receive has found and done. -/
theorem fill_eq_some {pool filled : BufferPool} {idx : UInt16} {src : SocketAddr}
    {bytes : List UInt8} (h : pool.fill idx src bytes = some filled) :
    ∃ slot, pool.liveSlots idx = some slot ∧ bytes.length ≤ slot.iovLen ∧
      filled = { pool.insertSlot idx { slot with addr := (writeSocketAddr src).1 } with
        memory := writeBytes pool.memory slot.iovBase bytes } := by
  unfold fill at h
  split at h
  · cases h
  · next slot hslot =>
    split at h
    · next hfits =>
      cases h
      exact ⟨slot, hslot, hfits, rfl⟩
    · cases h

/-- A header makes its buffer's slot live and leaves the others. -/
theorem isSome_insertSlot {pool : BufferPool} {other idx : UInt16} {slot : MsgHdrSlot} :
    ((pool.insertSlot other slot).liveSlots idx).isSome ↔
      (pool.liveSlots idx).isSome ∨ some other = some idx := by
  by_cases heq : idx = other
  · subst heq
    simp [insertSlot]
  · simp [insertSlot, Function.update_of_ne heq, Ne.symm heq]

/-- A packet that is received makes no slot live. -/
theorem isSome_fill {pool filled : BufferPool} {idx other : UInt16} {src : SocketAddr}
    {bytes : List UInt8} (h : pool.fill idx src bytes = some filled) :
    (filled.liveSlots other).isSome ↔ (pool.liveSlots other).isSome := by
  obtain ⟨slot, hslot, -, rfl⟩ := fill_eq_some h
  refine isSome_insertSlot.trans ⟨fun hlive => hlive.elim id fun heq => ?_, .inl⟩
  cases heq
  simp [hslot]

/-- Every live slot names the whole buffer of its index. -/
def SlotsInPlace (pool : BufferPool) : Prop :=
  ∀ idx slot, pool.liveSlots idx = some slot →
    slot.iovBase = bufferStart idx ∧ slot.iovLen = bufferSize

theorem SlotsInPlace.insertSlot {pool : BufferPool} (h : pool.SlotsInPlace) {idx : UInt16}
    {slot : MsgHdrSlot} (hbase : slot.iovBase = bufferStart idx)
    (hlen : slot.iovLen = bufferSize) : (pool.insertSlot idx slot).SlotsInPlace := by
  intro other found hfound
  simp only [BufferPool.insertSlot, Function.update_apply] at hfound
  split at hfound
  · next heq =>
    cases hfound
    rw [heq]
    exact ⟨hbase, hlen⟩
  · exact h other found hfound

/-- A posted message names the whole buffer, whatever the length of the packet. -/
theorem described_postSendSqe (pool : BufferPool) (ringEntries : ℕ) (sq : SubmissionRing Sqe)
    (len : ℕ) (idx : UInt16) (dest : SocketAddr) :
    (pool.postSendSqe ringEntries sq len idx dest).1.described idx =
      readBytes pool.memory (bufferStart idx) bufferSize := by
  simp [postSendSqe, described, insertSlot]

end BufferPool

end P2PNetworking.TurnServer
