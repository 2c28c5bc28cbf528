/-
# In-order, exactly-once delivery

Each direction of the two-endpoint system is a reliable first-in first-out
channel: whatever the network loses, copies or reorders, the payloads handed to
the application on one side are an initial piece of those submitted on the other.
The statement is proved through the channel of `Lib.FifoChannel`, which every
schedule of the system refines.
-/

import P2PNetworking.Common.LinkInvariant
import P2PNetworking.Lib.FifoChannel

namespace P2PNetworking.Common

open P2PNetworking.Net P2PNetworking.Lib

/-- The payloads a side has handed to `output_tx`; packets without one are
ignored, as the application ignores them. -/
def deliveredPayloads (side : Side) (trace : List (Side × Event)) : List (List UInt8) :=
  (handedOver (sideTrace side trace)).filterMap Packet.payload

/-- The payloads the application of a side has submitted. -/
def submittedPayloads (side : Side) (trace : List (Side × Event)) : List (List UInt8) :=
  submitted (sideTrace side trace)

/-- Number 0 carries nothing and number `i + 1` carries payload `i`, so what has
been handed over is as much of the stream as the count says. -/
theorem Numbered.payloads_eq {payloads : List (List UInt8)} {handed : List Packet}
    (h : Numbered payloads handed) :
    handed.filterMap Packet.payload = payloads.take (handed.length - 1) := by
  have hbound := h.length_handed_le
  cases handed with
  | nil => simp
  | cons first rest =>
      obtain ⟨hfirst, hgenuine⟩ := h 0 first rfl
      have hnone : first.payload = none := hgenuine.payload_eq_none hfirst
      have hmap : rest.map Packet.payload = (payloads.take rest.length).map some := by
        apply List.ext_getElem?
        intro i
        rw [List.getElem?_map, List.getElem?_map]
        rcases Nat.lt_or_ge i rest.length with hi | hi
        · obtain ⟨hseq, hpacket⟩ := h (i + 1) rest[i] (by simp [hi])
          have hcarries := hpacket.carries_of_seq_pos (by omega)
          simp only [List.length_cons] at hbound
          rw [List.getElem?_eq_getElem hi, List.getElem?_take_of_lt hi,
            List.getElem?_eq_getElem (by omega)]
          simpa [List.getElem?_eq_getElem (show i < payloads.length by omega)] using
            hcarries.payload_eq hseq
        · rw [List.getElem?_eq_none hi, List.getElem?_eq_none (by rw [List.length_take]; omega)]
          rfl
      calc (first :: rest).filterMap Packet.payload
          = (rest.map Packet.payload).filterMap id := by
            rw [List.filterMap_cons_none hnone, List.filterMap_map]
            rfl
        _ = payloads.take rest.length := by
            rw [hmap, List.filterMap_map]
            exact List.filterMap_some

/-- The system and the channel agree on one direction: on what was sent, and on
how much of it was delivered once the packet with number 0 is set apart. -/
def MatchesChannel (side : Side) (trace : List (Side × Event))
    (channel : FifoChannel (List UInt8)) : Prop :=
  channel.sent = submittedPayloads side.peer trace ∧
    channel.mark = (handedOver (sideTrace side trace)).length - 1

section Refinement

variable {addr : Addresses} {side : Side} {link : Link} {trace : List (Side × Event)}

/-- A matching channel has delivered what the side has handed over. -/
theorem LinkInv.delivered_eq (h : LinkInv addr link trace)
    {channel : FifoChannel (List UInt8)} (hmatch : MatchesChannel side trace channel) :
    channel.delivered = deliveredPayloads side trace := by
  obtain ⟨hsent, hmark⟩ := hmatch
  rw [FifoChannel.delivered, hsent, hmark]
  exact (h.numbered side).payloads_eq.symm

/-- Some channel state matches. -/
theorem LinkInv.exists_matchesChannel (h : LinkInv addr link trace) (side : Side) :
    ∃ channel, MatchesChannel side trace channel := by
  have hle := (h.numbered side).length_handed_le
  exact ⟨⟨submittedPayloads side.peer trace, (handedOver (sideTrace side trace)).length - 1,
    Nat.sub_le_of_le_add hle⟩, rfl, rfl⟩

/-- Every schedule that keeps to the limits is, in each direction, a schedule of
the channel. -/
theorem link_refines_channel {c : Link × List (Side × Event)}
    (hc : (linkMachine addr).Reachable c) (side : Side) :
    ∃ channel, FifoChannel.machine.Reachable channel ∧
      (WithinLimits c.2 → MatchesChannel side c.2 channel) := by
  let rel (c : Link × List (Side × Event)) (channel : FifoChannel (List UInt8)) : Prop :=
    WithinLimits c.2 → MatchesChannel side c.2 channel
  have hinit : rel (linkMachine addr).init FifoChannel.machine.init := fun _ => ⟨rfl, rfl⟩
  refine Machine.Reachable.simulate hinit ?_ hc
  intro c channel action d hc _ hrel hstep
  by_cases hlimits : WithinLimits d.2
  · have hpre := Machine.traced_step_prefix hstep
    obtain ⟨hsent, hmark⟩ := hrel (hlimits.of_prefix hpre)
    have hinv := linkInv_of_reachable (hc.step hstep) hlimits
    obtain ⟨later, hlater⟩ := hinv.exists_matchesChannel side
    have hsides : ∀ other, sideTrace other c.2 <+: sideTrace other d.2 :=
      fun other => hpre.filterMap _
    obtain ⟨actions, hexec⟩ : ∃ actions,
        FifoChannel.machine.exec channel actions = some later := by
      apply FifoChannel.exists_exec
      · rw [hsent, hlater.1]
        exact (hsides side.peer).filterMap _
      · rw [hmark, hlater.2]
        have hgrown : handedOver (sideTrace side c.2) <+: handedOver (sideTrace side d.2) :=
          (hsides side).filterMap _
        exact Nat.sub_le_sub_right hgrown.length_le 1
    exact ⟨actions, later, hexec, fun _ => hlater⟩
  · exact ⟨[], channel, rfl, fun h => absurd h hlimits⟩

/-- In-order exactly-once delivery: what a side has handed to its application is
an initial piece of what the other side's application has submitted. -/
theorem deliveredPayloads_prefix {c : Link × List (Side × Event)}
    (hc : (linkMachine addr).Reachable c) (hlimits : WithinLimits c.2) (side : Side) :
    deliveredPayloads side c.2 <+: submittedPayloads side.peer c.2 := by
  obtain ⟨channel, -, hmatches⟩ := link_refines_channel hc side
  have hmatch := hmatches hlimits
  rw [← (linkInv_of_reachable hc hlimits).delivered_eq hmatch, ← hmatch.1]
  exact channel.delivered_prefix

end Refinement

/-- The left side's first message.  It overtakes the packet with number 0 and is
buffered; the instant acknowledgement it provokes starts the left side, whose own
acknowledgement then starts the right side. -/
def firstMessage : List LinkAction :=
  [.atEnd .left (.submit 0 (.data [104, 105])), .atEnd .left (.transmit 0),
    .deliver .right (loopback.datagram .left ⟨⟨1, 0⟩, some [104, 105]⟩),
    .deliver .left (loopback.datagram .right (ackPacket 0)),
    .atEnd .left .recv, .atEnd .left .recv, .atEnd .left .recv, .atEnd .left .recv,
    .atEnd .left .ack,
    .deliver .right (loopback.datagram .left (ackPacket 0)),
    .atEnd .right .recv, .atEnd .right .recv, .atEnd .right .recv,
    .atEnd .right .recv, .atEnd .right .recv]

theorem deliveredPayloads_prefix_firstMessage :
    ∃ c, (linkMachine loopback).exec (linkMachine loopback).init firstMessage = some c ∧
      deliveredPayloads .right c.2 = [[104, 105]] ∧
      deliveredPayloads .right c.2 <+: submittedPayloads .left c.2 := by
  refine ⟨((linkMachine loopback).exec (linkMachine loopback).init firstMessage).get (by decide),
    (Option.some_get _).symm, by decide, ?_⟩
  refine deliveredPayloads_prefix ⟨firstMessage, (Option.some_get _).symm⟩ ?_ .right
  intro side
  cases side <;> exact ⟨by decide, by decide⟩

end P2PNetworking.Common
