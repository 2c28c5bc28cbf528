/-
# What a relayed datagram contains

Buffers are never cleared, so a buffer holds what the packets received into it have
left there, each over the one before.  A send is posted for the whole buffer.  The
datagram is therefore the packet followed by whatever earlier packets have left
behind it, and it is the packet alone exactly when the packet fills the buffer.
-/

import P2PNetworking.TurnServer.Ownership

namespace P2PNetworking.TurnServer

open P2PNetworking.Net P2PNetworking.Lib

variable {cfg : Config}

/-! ## What packets leave in a buffer -/

/-- The packets received into a buffer, in order. -/
def packetsInto (idx : UInt16) (trace : List (ServerEvent cfg)) : List (List UInt8) :=
  trace.filterMap fun
    | .received other bytes => if other = idx then some bytes else none
    | _ => none

/-- Bytes written over older ones. -/
def overlay (old : ℕ → UInt8) (bytes : List UInt8) : ℕ → UInt8 := fun i =>
  bytes[i]?.getD (old i)

/-- The bytes of a buffer after a history. -/
def contents (idx : UInt16) (trace : List (ServerEvent cfg)) : ℕ → UInt8 :=
  (packetsInto idx trace).foldl overlay fun _ => 0

@[simp]
theorem packetsInto_append (idx : UInt16) (first second : List (ServerEvent cfg)) :
    packetsInto idx (first ++ second) = packetsInto idx first ++ packetsInto idx second :=
  List.filterMap_append

theorem contents_append (idx : UInt16) (first second : List (ServerEvent cfg)) :
    contents idx (first ++ second) =
      (packetsInto idx second).foldl overlay (contents idx first) := by
  rw [contents, packetsInto_append, List.foldl_append, contents]

theorem packetsInto_eq_nil {idx : UInt16} {trace : List (ServerEvent cfg)}
    (h : ∀ bytes, .received idx bytes ∉ trace) : packetsInto idx trace = [] := by
  rw [packetsInto, List.filterMap_eq_nil_iff]
  intro event hmem
  split
  · next other bytes =>
    rw [if_neg]
    rintro rfl
    exact h bytes hmem
  · rfl

/-- After a packet and nothing else the buffer holds the packet over what it held. -/
theorem contents_received {idx : UInt16} {bytes : List UInt8}
    {before between : List (ServerEvent cfg)}
    (hbetween : ∀ other, .received idx other ∉ between) :
    contents idx (before ++ .received idx bytes :: between) =
      overlay (contents idx before) bytes := by
  have hpackets : packetsInto idx (.received idx bytes :: between) = [bytes] := by
    have hnil := packetsInto_eq_nil hbetween
    simp only [packetsInto, List.filterMap_cons] at hnil ⊢
    simp [hnil]
  rw [contents_append, hpackets]
  rfl

/-- The first bytes are the packet, the others are old. -/
theorem map_overlay {old : ℕ → UInt8} {bytes : List UInt8} {n : ℕ} (hn : bytes.length ≤ n) :
    (List.range n).map (overlay old bytes) =
      bytes ++ (List.range (n - bytes.length)).map fun i => old (bytes.length + i) := by
  apply List.ext_getElem
  · simp only [List.length_map, List.length_range, List.length_append]
    omega
  · intro i hi hi'
    simp only [List.getElem_map, List.getElem_range, overlay]
    by_cases hlt : i < bytes.length
    · rw [List.getElem_append_left hlt, List.getElem?_eq_getElem hlt, Option.getD_some]
    · have hsum : bytes.length + (i - bytes.length) = i := by omega
      rw [List.getElem_append_right (by omega), List.getElem?_eq_none (by omega),
        Option.getD_none, List.getElem_map, List.getElem_range, hsum]

/-! ## Memory -/

/-- Memory holds what the packets have left, and so does every posted datagram. -/
structure MemoryInv (c : Server cfg × List (ServerEvent cfg)) : Prop where
  slots : c.1.pool.SlotsInPlace
  memory : ∀ idx i, i < bufferSize →
    c.1.pool.memory (bufferStart idx + i) = contents idx c.2 i
  fits : ∀ (idx : UInt16) bytes, .received idx bytes ∈ c.2 → bytes.length ≤ bufferSize
  posted : ∀ before (idx : UInt16) pushed bytes after,
    c.2 = before ++ .postedSend idx pushed bytes :: after →
      bytes = (List.range bufferSize).map (contents idx before)

theorem MemoryInv.started (cfg : Config) : MemoryInv (Server.started cfg, []) where
  slots := Server.slotsInPlace_started cfg
  memory idx i hi := rfl
  fits idx bytes h := by cases h
  posted before idx pushed bytes after h := by simp at h

section Steps

variable {server next : Server cfg} {trace events : List (ServerEvent cfg)}

/-- Steps that neither receive nor post a send keep the invariant if they leave memory
alone and slots in place. -/
theorem MemoryInv.quiet (h : MemoryInv (server, trace))
    (hmemory : next.pool.memory = server.pool.memory) (hslots : next.pool.SlotsInPlace)
    (hreceived : ∀ (idx : UInt16) bytes, .received idx bytes ∉ events)
    (hposted : ∀ (idx : UInt16) pushed bytes, .postedSend idx pushed bytes ∉ events) :
    MemoryInv (next, trace ++ events) := by
  refine ⟨hslots, fun idx i hi => ?_, fun idx bytes hmem => ?_,
    fun before idx pushed bytes after hsplit => ?_⟩
  · rw [contents_append, packetsInto_eq_nil (hreceived idx), hmemory]
    exact h.memory idx i hi
  · rcases List.mem_append.mp hmem with hold | hnew
    · exact h.fits idx bytes hold
    · exact absurd hnew (hreceived idx bytes)
  · obtain ⟨rest, hold⟩ := Machine.split_append hsplit (hposted idx pushed bytes)
    exact h.posted before idx pushed bytes rest hold

/-- A packet is written over its buffer and over nothing else. -/
theorem MemoryInv.receive (h : MemoryInv (server, trace)) {idx : UInt16} {src : SocketAddr}
    {bytes : List UInt8} (hfill : server.pool.fill idx src bytes = some next.pool) :
    MemoryInv (next, trace ++ [.received idx bytes]) := by
  obtain ⟨slot, hslot, hfits, hpool⟩ := BufferPool.fill_eq_some hfill
  obtain ⟨hbase, hlen⟩ := h.slots idx slot hslot
  rw [hlen] at hfits
  refine ⟨?_, fun other i hi => ?_, fun other packet hmem => ?_,
    fun before other pushed packet after hsplit => ?_⟩
  · rw [hpool]
    exact h.slots.insertSlot hbase hlen
  · have hmemory := h.memory other i hi
    simp only [hpool, hbase]
    by_cases hother : other = idx
    · subst hother
      rw [contents_received (by simp), overlay]
      by_cases hlt : i < bytes.length
      · rw [writeBytes_of_lt _ _ hlt, List.getElem?_eq_getElem hlt, Option.getD_some]
      · rw [writeBytes_of_forall_ne _ (fun j hj => by omega), hmemory,
          List.getElem?_eq_none (by omega), Option.getD_none]
    · have hnil : packetsInto other ([.received idx bytes] : List (ServerEvent cfg)) = [] :=
        packetsInto_eq_nil (by simp [hother])
      rw [contents_append, hnil, writeBytes_of_forall_ne]
      · exact hmemory
      · intro j hj
        exact bufferStart_add_ne hother hi (by omega)
  · rcases List.mem_append.mp hmem with hold | hnew
    · exact h.fits other packet hold
    · obtain ⟨rfl, rfl⟩ : other = idx ∧ packet = bytes := by simpa using hnew
      exact hfits
  · obtain ⟨rest, hold⟩ := Machine.split_append hsplit (by simp)
    exact h.posted before other pushed packet rest hold

/-- A posted message names the whole buffer. -/
theorem MemoryInv.postSend (h : MemoryInv (server, trace)) {idx : UInt16} {pushed : Bool}
    (hmemory : next.pool.memory = server.pool.memory) (hslots : next.pool.SlotsInPlace) :
    MemoryInv (next, trace ++
      [.postedSend idx pushed (readBytes server.pool.memory (bufferStart idx) bufferSize)]) := by
  have hdatagram : readBytes server.pool.memory (bufferStart idx) bufferSize =
      (List.range bufferSize).map (contents idx trace) := by
    apply List.map_congr_left
    intro i hi
    exact h.memory idx i (List.mem_range.mp hi)
  refine ⟨hslots, fun other i hi => ?_, fun other packet hmem => ?_,
    fun before other pushed' packet after hsplit => ?_⟩
  · rw [contents_append, packetsInto_eq_nil (by simp), hmemory]
    exact h.memory other i hi
  · exact h.fits other packet (by simpa using hmem)
  · obtain ⟨rfl, hlast, -⟩ | ⟨rest, -, hold⟩ := Machine.split_concat hsplit
    · cases hlast
      exact hdatagram
    · exact h.posted before other pushed' packet rest hold

end Steps

theorem reachable_memoryInv {c : Server cfg × List (ServerEvent cfg)}
    (hc : (serverMachine cfg).Reachable c) : MemoryInv c := by
  refine Machine.Reachable.induct (by rw [serverMachine_init]; exact .started cfg) ?_ hc
  rintro ⟨server, trace⟩ action d - h hstep
  obtain ⟨next, events, hnext, rfl⟩ := Machine.traced_step.mp hstep
  have htransition : server.Transition action next events := Server.transition_of_step hnext
  cases htransition with
  | request => exact h.quiet rfl h.slots (by simp) (by simp)
  | rest _ hpool =>
      refine h.quiet (by rw [hpool]) ?_ (by simp) (by simp)
      rw [hpool]
      exact h.slots
  | addSession => exact h.quiet rfl h.slots (by simp) (by simp)
  | postSend _ htxOut =>
      refine h.postSend ?_ ?_
      · simp only [Server.takeSend, htxOut]
        rfl
      · simp only [Server.takeSend, htxOut]
        exact h.slots.insertSlot (by simp) (by simp)
  | arrival => exact h.quiet rfl h.slots (by simp) (by simp)
  | sent => exact h.quiet rfl (h.slots.insertSlot (by simp) (by simp)) (by simp) (by simp)
  | notified => exact h.quiet rfl (h.slots.insertSlot (by simp) (by simp)) (by simp) (by simp)
  | dequeue => exact h.quiet rfl h.slots (by simp) (by simp)
  | handle => exact h.quiet rfl h.slots (by simp) (by simp)
  | submit => exact h.quiet rfl h.slots (by simp) (by simp)
  | receive hop hfill => exact h.receive hfill
  | failReceive => exact h.quiet rfl h.slots (by simp) (by simp)
  | progressSend => exact h.quiet rfl h.slots (by simp) (by simp)
  | finishSend => exact h.quiet rfl h.slots (by simp) (by simp)

/-! ## Datagrams -/

/-- Until a packet's send is posted nothing else is received into its buffer. -/
theorem notMem_received_between {c : Server cfg × List (ServerEvent cfg)}
    (hc : (serverMachine cfg).Reachable c) {before between after : List (ServerEvent cfg)}
    {idx : UInt16} {bytes datagram : List UInt8} {pushed : Bool}
    (hsplit : c.2 = before ++ .received idx bytes :: between ++
      .postedSend idx pushed datagram :: after)
    (hfirst : ∀ pushed' other, .postedSend idx pushed' other ∉ between) (other : List UInt8) :
    .received idx other ∉ between := by
  intro hreceived
  have hturns : turns c.2 = turns before ++ (idx, .out) :: turns between ++
      (idx, .back) :: turns after := by
    rw [hsplit, turns_append, turns_append]
    rfl
  have hback : (idx, Turn.back) ∉ turns between := by
    intro hmem
    obtain ⟨pushed', packet, hposted⟩ := mem_turns_back.mp hmem
    exact hfirst pushed' packet hposted
  exact (alternates_turns hc).not_out_between hturns hback
    (mem_turns_out.mpr (.inl ⟨other, hreceived⟩))

/-- The datagram posted for a packet is the packet, and then what earlier packets have
left in the buffer. -/
theorem datagram_eq_append {c : Server cfg × List (ServerEvent cfg)}
    (hc : (serverMachine cfg).Reachable c) {before between after : List (ServerEvent cfg)}
    {idx : UInt16} {bytes datagram : List UInt8} {pushed : Bool}
    (hsplit : c.2 = before ++ .received idx bytes :: between ++
      .postedSend idx pushed datagram :: after)
    (hfirst : ∀ pushed' other, .postedSend idx pushed' other ∉ between) :
    bytes.length ≤ bufferSize ∧ datagram = bytes ++
      (List.range (bufferSize - bytes.length)).map fun i =>
        contents idx before (bytes.length + i) := by
  have hinv := reachable_memoryInv hc
  have hfits : bytes.length ≤ bufferSize := hinv.fits idx bytes (by rw [hsplit]; simp)
  refine ⟨hfits, ?_⟩
  rw [hinv.posted _ idx pushed datagram after hsplit,
    contents_received (notMem_received_between hc hsplit hfirst), map_overlay hfits]

/-- A posted datagram is the packet it is posted for exactly when the packet fills its
buffer. -/
theorem datagram_eq_packet_iff {c : Server cfg × List (ServerEvent cfg)}
    (hc : (serverMachine cfg).Reachable c) {before between after : List (ServerEvent cfg)}
    {idx : UInt16} {bytes datagram : List UInt8} {pushed : Bool}
    (hsplit : c.2 = before ++ .received idx bytes :: between ++
      .postedSend idx pushed datagram :: after)
    (hfirst : ∀ pushed' other, .postedSend idx pushed' other ∉ between) :
    datagram = bytes ↔ bytes.length = bufferSize := by
  obtain ⟨hfits, hdatagram⟩ := datagram_eq_append hc hsplit hfirst
  constructor
  · intro heq
    have hlength := congrArg List.length hdatagram
    simp only [heq, List.length_append, List.length_map, List.length_range] at hlength
    omega
  · intro hfull
    rw [hdatagram, hfull]
    simp

theorem datagram_eq_packet_iff_relayOnce :
    ∃ server, (serverMachine .main).exec (serverMachine .main).init relayOnce =
      some (server, relayOnceTrace) ∧
        (relayOnceDatagram = [7, 7, 7] ↔ ([7, 7, 7] : List UInt8).length = bufferSize) := by
  obtain ⟨server, hexec⟩ := exec_relayOnce
  have hc : (serverMachine .main).Reachable (server, relayOnceTrace) := ⟨relayOnce, hexec⟩
  exact ⟨server, hexec, datagram_eq_packet_iff hc rfl (by simp [relayOnceRouting])⟩

/-- A packet of three bytes is posted as a datagram of fifteen hundred. -/
theorem short_packet_is_padded :
    ∃ server, (serverMachine .main).exec (serverMachine .main).init relayOnce =
      some (server, relayOnceTrace) ∧
        (∀ pushed other, .postedSend 1023 pushed other ∉ relayOnceRouting) ∧
        relayOnceDatagram ≠ [7, 7, 7] := by
  obtain ⟨server, hexec⟩ := exec_relayOnce
  exact ⟨server, hexec, by simp [relayOnceRouting], by decide +kernel⟩

/-- Where a packet is shorter than the one before it in the buffer, the datagram goes on
with the bytes of that one, whoever has sent it. -/
theorem earlier_packet_in_datagram {c : Server cfg × List (ServerEvent cfg)}
    (hc : (serverMachine cfg).Reachable c) {before middle between after : List (ServerEvent cfg)}
    {idx : UInt16} {earlier bytes datagram : List UInt8} {pushed : Bool}
    (hsplit : c.2 = before ++ .received idx earlier :: middle ++ .received idx bytes :: between ++
      .postedSend idx pushed datagram :: after)
    (hmiddle : ∀ other, .received idx other ∉ middle)
    (hfirst : ∀ pushed' other, .postedSend idx pushed' other ∉ between) {i : ℕ}
    (hi : bytes.length ≤ i) (hi' : i < earlier.length) : datagram[i]? = earlier[i]? := by
  obtain ⟨hfits, hdatagram⟩ := datagram_eq_append hc hsplit hfirst
  have hearlier : earlier.length ≤ bufferSize :=
    (reachable_memoryInv hc).fits idx earlier (by rw [hsplit]; simp)
  have hsum : bytes.length + (i - bytes.length) = i := by omega
  rw [hdatagram, List.getElem?_append_right hi, List.getElem?_map,
    List.getElem?_range (by omega), Option.map_some, hsum, contents_received hmiddle, overlay,
    List.getElem?_eq_getElem hi', Option.getD_some]

end P2PNetworking.TurnServer
