/-
# What is delivered depends on what has arrived

The receive side of an endpoint as a function of the set of packets that have come:
everything below the least missing number has been handed over, everything above it
is in `recv_buffer`, and the three counters say so.  Neither the order nor the number
of copies matters, and nothing but the peer's datagrams does.
-/

import P2PNetworking.Common.Progress
import Mathlib.Order.Bounds.Basic

namespace P2PNetworking.Common

open P2PNetworking.Net P2PNetworking.Lib

/-! ## Arrivals -/

/-- The datagrams that `recv_from` returns, with their senders. -/
def arrivals (actions : List Action) : List (SocketAddr × List UInt8) :=
  actions.filterMap fun
    | .arrive src bytes => some (src, bytes)
    | _ => none

/-- The packets of the peer among them. -/
def peerPackets (peerAddr : SocketAddr) (datagrams : List (SocketAddr × List UInt8)) :
    List Packet :=
  datagrams.filterMap fun datagram =>
    if datagram.1 = peerAddr then
      (deserialize (datagram.2.take Endpoint.recvBufferSize)).toOption
    else none

@[simp]
theorem arrivals_append (first second : List Action) :
    arrivals (first ++ second) = arrivals first ++ arrivals second :=
  List.filterMap_append

@[simp]
theorem peerPackets_append (peerAddr : SocketAddr)
    (first second : List (SocketAddr × List UInt8)) :
    peerPackets peerAddr (first ++ second) =
      peerPackets peerAddr first ++ peerPackets peerAddr second :=
  List.filterMap_append

/-- `recv` going on is no arrival. -/
theorem arrivals_eq_nil_of_recv {actions : List Action} (h : ∀ action ∈ actions, action = .recv) :
    arrivals actions = [] := by
  simp only [arrivals, List.filterMap_eq_nil_iff]
  intro action hmem
  rw [h action hmem]

/-- What a step decodes. -/
theorem Endpoint.Transition.received_eq {peerAddr : SocketAddr} {ep ep' : Endpoint}
    {action : Action} {events : List Event}
    (hstep : Endpoint.Transition peerAddr ep action ep' events) :
    received events = peerPackets peerAddr (arrivals [action]) := by
  cases hstep with
  | foreign hsrc => simp [received, arrivals, peerPackets, hsrc]
  | malformed hbytes => simp [received, arrivals, peerPackets, hbytes, Except.toOption]
  | accept _ hbytes | buffer _ hbytes | echo _ hbytes | duplicate _ hbytes =>
      simp [received, arrivals, peerPackets, hbytes, Except.toOption]
  | _ => rfl

/-- `recv` decodes the peer's packets and nothing else. -/
theorem received_eq_peerPackets {peerAddr : SocketAddr} {actions : List Action}
    {c : Endpoint × List Event}
    (hexec : (endpointMachine peerAddr).exec (endpointMachine peerAddr).init actions = some c) :
    received c.2 = peerPackets peerAddr (arrivals actions) := by
  induction actions using List.reverseRecOn generalizing c with
  | nil =>
      cases hexec
      rfl
  | append_singleton actions action ih =>
      obtain ⟨d, hpre, hstep⟩ := (Machine.exec_concat _).mp hexec
      obtain ⟨ep, events, hnext, rfl⟩ := Machine.traced_step.mp hstep
      rw [received_append, ih hpre, arrivals_append, peerPackets_append,
        (Endpoint.transition_of_step hnext).received_eq]

/-! ## The loop comes back -/

/-- Pieces of `recv` left at most before it waits for the next datagram: each round of
the inner loop takes a packet out of the buffer. -/
def Endpoint.workLeft (ep : Endpoint) : ℕ :=
  2 * ep.state.recvBuffer.keys.length + match ep.recvTask with
    | .receiving => 0
    | .draining _ => 1
    | .queueingAck _ | .releasing _ _ => 2
    | .advancing _ => 3
    | .handingOver _ => 4

/-- Whatever the buffer holds, the task comes back to `recv_from`. -/
theorem canReach_receiving (peerAddr : SocketAddr) (c : Endpoint × List Event) :
    (endpointMachine peerAddr).CanReach (· = .recv) c fun d => d.1.recvTask = .receiving := by
  have hdescend : ∀ d : Endpoint × List Event, True → ¬ d.1.recvTask = .receiving →
      (endpointMachine peerAddr).CanReach (· = .recv) d fun e =>
        True ∧ e.1.workLeft < d.1.workLeft := by
    rintro ⟨ep, trace⟩ - hbusy
    obtain ⟨ep', events, hrecv, -⟩ := ep.exists_recv_step peerAddr hbusy
    have hstep : (endpointMachine peerAddr).step (ep, trace) .recv = some (ep', trace ++ events) :=
      Machine.traced_step.mpr ⟨ep', events, hrecv, rfl⟩
    refine .one rfl hstep ⟨trivial, ?_⟩
    have htransition : Endpoint.Transition peerAddr ep .recv ep' events :=
      Endpoint.transition_of_step hrecv
    cases htransition with
    | @drain nextExpected packet htask hbuffer =>
        have hmem : nextExpected ∈ ep.state.recvBuffer :=
          AList.lookup_isSome.mp (by rw [hbuffer]; rfl)
        have hpos : 0 < ep.state.recvBuffer.keys.length := List.length_pos_of_mem hmem
        have hlength : (ep.state.recvBuffer.erase nextExpected).keys.length =
            ep.state.recvBuffer.keys.length - 1 := by
          rw [AList.keys_erase, List.length_erase_of_mem hmem]
        simp only [Endpoint.workLeft, htask, hlength]
        omega
    | handOver htask | advance htask | queueAck htask | drained htask | release htask =>
        simp only [Endpoint.workLeft, htask]
        omega
  exact .of_measure (fun d => d.1.workLeft) hdescend trivial

/-! ## The outcome -/

/-- The endpoint has been given these datagrams, among whatever else its tasks did,
and has dealt with all of them. -/
def Processed (peerAddr : SocketAddr) (datagrams : List (SocketAddr × List UInt8))
    (c : Endpoint × List Event) : Prop :=
  ∃ actions, arrivals actions = datagrams ∧
    (endpointMachine peerAddr).exec (endpointMachine peerAddr).init actions = some c ∧
    c.1.recvTask = .receiving

/-- Packets with one number carry one payload. -/
def ConsistentPayloads (packets : List Packet) : Prop :=
  ∀ first ∈ packets, ∀ second ∈ packets, first.header.seq = second.header.seq →
    first.payload = second.payload

/-- No packet has this number. -/
def Missing (packets : List Packet) (n : ℕ) : Prop :=
  ∀ packet ∈ packets, packet.header.seq.toNat ≠ n

/-- Numbers and payloads in the order in which they were handed over. -/
def deliveries (trace : List Event) : List (UInt32 × Option (List UInt8)) :=
  (handedOver trace).map fun packet => (packet.header.seq, packet.payload)

/-- The packets below a number have been delivered, the others wait. -/
structure DeliveredBelow (packets : List Packet) (n : ℕ) (c : Endpoint × List Event) :
    Prop where
  expected : c.1.state.expectedSequence.toNat = n
  /-- The packets handed over have the numbers below `n`, in this order and once each, -/
  numbered : (handedOver c.2).map (fun packet => packet.header.seq.toNat) = List.range n
  /-- and are packets that have come. -/
  genuine : ∀ packet ∈ handedOver c.2, packet ∈ packets
  /-- The buffer has the numbers above `n` that have come, -/
  buffered : ∀ seq, seq ∈ c.1.state.recvBuffer ↔
    n < seq.toNat ∧ ∃ packet ∈ packets, packet.header.seq = seq
  /-- each with a packet that carries it. -/
  held : ∀ seq packet, c.1.state.recvBuffer.lookup seq = some packet →
    packet.header.seq = seq ∧ packet ∈ packets
  acknowledged : c.1.state.receiverAcknowledged.toNat = n - 1

/-- What an endpoint makes of the datagrams it is given. -/
structure DeterminedByArrivals (peerAddr : SocketAddr)
    (datagrams : List (SocketAddr × List UInt8)) : Prop where
  /-- It gets through them, -/
  completes : ∃ c, Processed peerAddr datagrams c
  /-- and then everything below the least missing number has been delivered. -/
  outcome : ∀ c, Processed peerAddr datagrams c →
    ∃ n, IsLeast {n | Missing (peerPackets peerAddr datagrams) n} n ∧
      DeliveredBelow (peerPackets peerAddr datagrams) n c
  /-- So the same datagrams in another order and number make no difference. -/
  unordered : ∀ others, (∀ datagram, datagram ∈ others ↔ datagram ∈ datagrams) →
    ∀ c d, Processed peerAddr datagrams c → Processed peerAddr others d →
      deliveries c.2 = deliveries d.2

section Outcome

variable {peerAddr : SocketAddr} {datagrams : List (SocketAddr × List UInt8)}
  {c : Endpoint × List Event}

/-- Every list of datagrams can be worked off. -/
theorem exists_processed (peerAddr : SocketAddr) (datagrams : List (SocketAddr × List UInt8)) :
    ∃ c, Processed peerAddr datagrams c := by
  induction datagrams using List.reverseRecOn with
  | nil => exact ⟨_, [], rfl, rfl, rfl⟩
  | append_singleton datagrams datagram ih =>
      obtain ⟨⟨ep, trace⟩, actions, harrivals, hexec, htask⟩ := ih
      obtain ⟨⟨ep', events⟩, harrive⟩ : ∃ result,
          ep.arrive peerAddr datagram.1 datagram.2 = some result := by
        unfold Endpoint.arrive
        rw [htask]
        simp only
        split
        · exact ⟨_, rfl⟩
        · split <;> exact ⟨_, rfl⟩
      have hstep : (endpointMachine peerAddr).step (ep, trace)
          (.arrive datagram.1 datagram.2) = some (ep', trace ++ events) :=
        Machine.traced_step.mpr ⟨ep', events, harrive, rfl⟩
      obtain ⟨rest, d, hrest, hrun, hdone⟩ := canReach_receiving peerAddr
        (ep', trace ++ events)
      have hquiet := arrivals_eq_nil_of_recv hrest
      refine ⟨d, actions ++ ([.arrive datagram.1 datagram.2] ++ rest), ?_, ?_, hdone⟩
      · rw [arrivals_append, arrivals_append, harrivals, hquiet]
        rfl
      · exact Machine.exec_trans _ hexec
          (Machine.exec_trans _ (Machine.exec_singleton _ hstep) hrun)

/-- At rest, the invariant says how far the endpoint has come. -/
theorem ReceiveInv.deliveredBelow {packets : List Packet}
    (h : ReceiveInv packets (handedOver c.2) c.1) (htask : c.1.recvTask = .receiving) :
    IsLeast {n | Missing packets n} (handedOver c.2).length ∧
      DeliveredBelow packets (handedOver c.2).length c := by
  have hcounters := h.counters
  rw [CountersAt, htask] at hcounters
  -- a packet that has come is below the count or in the buffer, and then above it
  have hplace : ∀ packet ∈ packets, packet.header.seq.toNat < (handedOver c.2).length ∨
      packet.header.seq ∈ c.1.state.recvBuffer := by
    intro packet hmem
    have hcovered := h.covered packet hmem
    rw [htask] at hcovered
    rcases hcovered with hlt | hheld | hbuffered
    · exact .inl hlt
    · cases hheld
    · exact .inr hbuffered
  have habove : ∀ seq ∈ c.1.state.recvBuffer, (handedOver c.2).length < seq.toNat ∧
      ∃ packet ∈ packets, packet.header.seq = seq := by
    intro seq hmem
    obtain ⟨packet, hlookup⟩ := Option.isSome_iff_exists.mp (AList.lookup_isSome.mpr hmem)
    obtain ⟨hseq, hpacket, hfloor⟩ := h.buffer seq packet hlookup
    rw [htask] at hfloor
    exact ⟨hfloor, packet, hpacket, hseq⟩
  refine ⟨⟨fun packet hmem heq => ?_, fun n hmissing => ?_⟩, hcounters.1, h.numbered, h.genuine,
    fun seq => ⟨habove seq, ?_⟩, fun seq packet hlookup => ?_, hcounters.2⟩
  · rcases hplace packet hmem with hlt | hbuffered
    · omega
    · have := (habove _ hbuffered).1
      omega
  · -- every number below the count has been handed over
    by_contra hlt
    have hrange : n ∈ List.range (handedOver c.2).length := List.mem_range.mpr (by omega)
    rw [← h.numbered, List.mem_map] at hrange
    obtain ⟨packet, hmem, hseq⟩ := hrange
    exact hmissing packet (h.genuine packet hmem) hseq
  · rintro ⟨hlt, packet, hmem, rfl⟩
    exact (hplace packet hmem).resolve_left (by omega)
  · obtain ⟨hseq, hmem, -⟩ := h.buffer seq packet hlookup
    exact ⟨hseq, hmem⟩

/-- Deliveries are known from their number and what has come. -/
theorem DeliveredBelow.deliveries_eq {packets : List Packet} {n : ℕ}
    {d : Endpoint × List Event} (hconsistent : ConsistentPayloads packets)
    (hc : DeliveredBelow packets n c) (hd : DeliveredBelow packets n d) :
    deliveries c.2 = deliveries d.2 := by
  have hlengths : (handedOver c.2).length = (handedOver d.2).length := by
    have hfirst := congrArg List.length hc.numbered
    have hsecond := congrArg List.length hd.numbered
    rw [List.length_map] at hfirst hsecond
    rw [hfirst, hsecond]
  unfold deliveries
  refine List.ext_getElem (by simpa using hlengths) fun i hi hi' => ?_
  rw [List.length_map] at hi hi'
  rw [List.getElem_map, List.getElem_map]
  have hseq : (handedOver c.2)[i].header.seq = (handedOver d.2)[i].header.seq := by
    have hboth := hc.numbered.trans hd.numbered.symm
    have hnat := List.getElem_of_eq hboth (i := i) (by simpa using hi)
    rw [List.getElem_map, List.getElem_map] at hnat
    exact UInt32.toNat_inj.mp hnat
  rw [hseq, hconsistent _ (hc.genuine _ (List.getElem_mem hi)) _
    (hd.genuine _ (List.getElem_mem hi')) hseq]

end Outcome

/-- What `recv` delivers depends only on which packets have come. -/
theorem determinedByArrivals {peerAddr : SocketAddr}
    {datagrams : List (SocketAddr × List UInt8)}
    (hconsistent : ConsistentPayloads (peerPackets peerAddr datagrams))
    (hbelow : BelowMax (peerPackets peerAddr datagrams)) :
    DeterminedByArrivals peerAddr datagrams := by
  have hpackets : ∀ others, (∀ datagram, datagram ∈ others ↔ datagram ∈ datagrams) →
      ∀ packet, packet ∈ peerPackets peerAddr others ↔
        packet ∈ peerPackets peerAddr datagrams := by
    intro others hsame packet
    simp only [peerPackets, List.mem_filterMap, hsame]
  have houtcome : ∀ others c, (∀ datagram, datagram ∈ others ↔ datagram ∈ datagrams) →
      Processed peerAddr others c →
      ∃ n, IsLeast {n | Missing (peerPackets peerAddr datagrams) n} n ∧
        DeliveredBelow (peerPackets peerAddr datagrams) n c := by
    rintro others c hsame ⟨actions, rfl, hexec, htask⟩
    have hmem := hpackets (arrivals actions) hsame
    have hreceived := received_eq_peerPackets hexec
    have hinv := receiveInv_of_reachable ⟨actions, hexec⟩ fun packet hpacket => by
      rw [hreceived] at hpacket
      exact hbelow packet ((hmem packet).mp hpacket)
    rw [hreceived] at hinv
    exact ⟨_, (hinv.congr hmem).deliveredBelow htask⟩
  refine ⟨exists_processed peerAddr datagrams, fun c hc => ?_, fun others hsame c d hc hd => ?_⟩
  · exact houtcome datagrams c (fun _ => Iff.rfl) hc
  · obtain ⟨n, hn, hdelivered⟩ := houtcome datagrams c (fun _ => Iff.rfl) hc
    obtain ⟨m, hm, hdelivered'⟩ := houtcome others d hsame hd
    obtain rfl := hn.unique hm
    exact hdelivered.deliveries_eq hconsistent hdelivered'

/-- The packet with number 1 comes first, and twice; a stranger and a short datagram are
among them. -/
def outOfTurn : List (SocketAddr × List UInt8) :=
  [(.v4 2 2, [0, 0, 0, 1, 0, 0, 0, 0, 104]), (.v4 9 9, [0, 0, 0, 0, 0, 0, 0, 0, 105]),
    (.v4 2 2, [7]), (.v4 2 2, [0, 0, 0, 1, 0, 0, 0, 0, 104]),
    (.v4 2 2, [0, 0, 0, 0, 0, 0, 0, 0]), (.v4 2 2, [0, 0, 0, 3, 0, 0, 0, 0, 106])]

theorem determinedByArrivals_outOfTurn : DeterminedByArrivals (.v4 2 2) outOfTurn :=
  determinedByArrivals (by unfold ConsistentPayloads; decide) (by unfold BelowMax; decide)

end P2PNetworking.Common
