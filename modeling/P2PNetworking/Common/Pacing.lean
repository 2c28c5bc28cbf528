/-
# How often a payload is sent

A payload is put on the wire when it is submitted, and then again whenever a tick finds that more
than two seconds have passed since the last time, be it by a nanosecond.  Whether it has been
acknowledged makes no difference: a check is never early, and it never gives a payload up.
-/

import P2PNetworking.Common.Retransmission
import Mathlib.Data.List.Perm.Basic

namespace P2PNetworking.Common

open P2PNetworking.Net P2PNetworking.Lib

/-! ## Copies -/

/-- The packet has the number of the payload at this position of the stream. -/
def Packet.isCopyOf (i : ℕ) (packet : Packet) : Bool := packet.header.seq = .ofNat (i + 1)

/-- How many of the packets are copies of the payload. -/
def copies (i : ℕ) (packets : List Packet) : ℕ := packets.countP (Packet.isCopyOf i)

@[simp]
theorem copies_append (i : ℕ) (first second : List Packet) :
    copies i (first ++ second) = copies i first + copies i second :=
  List.countP_append

@[simp]
theorem copies_nil (i : ℕ) : copies i [] = 0 := rfl

theorem copies_singleton (i : ℕ) (packet : Packet) :
    copies i [packet] = (packet.isCopyOf i).toNat := by
  cases hcopy : packet.isCopyOf i <;> simp [copies, hcopy]

/-- A number that has not been given out is on no packet. -/
theorem copies_eq_zero {i : ℕ} {packets : List Packet} (hi : i + 1 < 2 ^ 32)
    (hpackets : ∀ packet ∈ packets, packet.header.seq.toNat ≠ i + 1) : copies i packets = 0 := by
  refine List.countP_eq_zero.mpr fun packet hmem => ?_
  simp only [Packet.isCopyOf, decide_eq_true_eq]
  intro heq
  apply hpackets packet hmem
  rw [heq, UInt32.toNat_ofNat', Nat.mod_eq_of_lt hi]

theorem copies_eraseIdx {i position : ℕ} {packets : List Packet} {packet : Packet}
    (hpacket : packets[position]? = some packet) :
    copies i [packet] + copies i (packets.eraseIdx position) = copies i packets := by
  obtain ⟨hlt, rfl⟩ := List.getElem?_eq_some_iff.mp hpacket
  rw [← copies_append]
  exact (List.getElem_cons_eraseIdx_perm hlt).countP_eq _

/-! ## One endpoint -/

/-- The reading of the clock that the action rests on. -/
def Action.time : Action → Option ℕ
  | .submit now _ => some now
  | .tick now => some now
  | _ => none

/-- When the action submits a payload, if it does. -/
def Action.stamps : Action → List ℕ
  | .submit now (.data _) => [now]
  | _ => []

/-- An endpoint that submitted its payloads at these times and has sent these packets: between two
copies of a payload lie more than two seconds. -/
structure PaceInv (times : List ℕ) (clock : ℕ) (ep : Endpoint) (sent : List Packet) : Prop where
  numbers : ∀ packet ∈ sent ++ ep.outgoing, packet.header.seq.toNat ≤ times.length
  paced : ∀ i start, times[i]? = some start →
    ∃ entry, ep.state.unacked.lookup (.ofNat (i + 1)) = some entry ∧ entry.timeSent ≤ clock ∧
      start + (Endpoint.retransmitTimeout + 1) * (copies i sent + copies i ep.outgoing) ≤
        entry.timeSent + (Endpoint.retransmitTimeout + 1)

namespace PaceInv

variable {times : List ℕ} {clock clock' : ℕ} {ep ep' : Endpoint} {sent : List Packet}
  {peerAddr : SocketAddr} {payloads : List (List UInt8)}

theorem new : PaceInv [] 0 .new [] where
  numbers := nofun
  paced := by simp

/-- Acknowledgements may be sent, and time may pass. -/
theorem quiet (h : PaceInv times clock ep sent) (hshort : times.length < 2 ^ 32)
    (hclock : clock ≤ clock') {more : List Packet}
    (hmore : ∀ packet ∈ more, packet.header.seq = 0) (houtgoing : ep'.outgoing = ep.outgoing)
    (hunacked : ep'.state.unacked = ep.state.unacked) :
    PaceInv times clock' ep' (sent ++ more) where
  numbers packet hmem := by
    rw [houtgoing, List.append_assoc, List.mem_append, List.mem_append] at hmem
    rcases hmem with hsent | hnew | hout
    · exact h.numbers packet (List.mem_append_left _ hsent)
    · rw [hmore packet hnew]
      exact Nat.zero_le _
    · exact h.numbers packet (List.mem_append_right _ hout)
  paced i start hstart := by
    obtain ⟨entry, hentry, htime, hpace⟩ := h.paced i start hstart
    have hlt := (List.getElem?_eq_some_iff.mp hstart).1
    have hnone : copies i more = 0 := by
      apply copies_eq_zero (by omega)
      intro packet hmem
      rw [hmore packet hmem]
      exact Nat.noConfusion
    refine ⟨entry, hunacked ▸ hentry, Nat.le_trans htime hclock, ?_⟩
    rwa [copies_append, hnone, Nat.add_zero (copies i sent), houtgoing]

/-- A packet that `send` has taken goes out. -/
theorem transmit (h : PaceInv times clock ep sent) {position : ℕ} {packet : Packet}
    (hpacket : ep.outgoing[position]? = some packet) :
    PaceInv times clock { ep with outgoing := ep.outgoing.eraseIdx position }
      (sent ++ [packet]) where
  numbers other hmem := by
    refine h.numbers other ?_
    simp only [List.mem_append, List.mem_singleton] at hmem ⊢
    rcases hmem with (hsent | rfl) | hrest
    · exact .inl hsent
    · exact .inr (List.mem_of_getElem? hpacket)
    · exact .inr (List.mem_of_mem_eraseIdx hrest)
  paced i start hstart := by
    obtain ⟨entry, hentry, htime, hpace⟩ := h.paced i start hstart
    refine ⟨entry, hentry, htime, ?_⟩
    rwa [copies_append, Nat.add_assoc, copies_eraseIdx hpacket]

/-- A payload is submitted and goes out for the first time. -/
theorem submit (h : PaceInv times clock ep sent) (hsender : SenderInv peerAddr payloads ep)
    (hlength : times.length = payloads.length) (hshort : times.length + 1 < 2 ^ 32)
    (hidle : ep.outgoing = []) {now : ℕ} (hclock : clock ≤ now) (payload : List UInt8) :
    PaceInv (times ++ [now]) now (ep.send now (.data payload)).1 sent := by
  have hnext : ep.state.nextSeq + 1 = .ofNat (times.length + 1) := by
    rw [hsender.nextSeq_add_one, hlength]
  have hnumber : (ep.state.nextSeq + 1).toNat = times.length + 1 := by
    rw [hnext, UInt32.toNat_ofNat', Nat.mod_eq_of_lt hshort]
  have hold : ∀ packet ∈ sent, packet.header.seq.toNat ≤ times.length := fun packet hmem =>
    h.numbers packet (List.mem_append_left _ hmem)
  constructor
  · intro packet hmem
    rw [List.length_append, List.length_singleton]
    rcases List.mem_append.mp hmem with hsent | hnew
    · exact Nat.le_succ_of_le (hold packet hsent)
    · rw [List.mem_singleton.mp hnew]
      exact Nat.le_of_eq hnumber
  · intro i start hstart
    simp only [Endpoint.send, Table.lookup_insert_eq_ite, copies_singleton, Packet.isCopyOf, hnext]
    rcases Nat.lt_or_ge i times.length with hlt | hge
    · rw [List.getElem?_append_left hlt] at hstart
      obtain ⟨entry, hentry, htime, hpace⟩ := h.paced i start hstart
      have hne : UInt32.ofNat (i + 1) ≠ .ofNat (times.length + 1) := fun heq => by
        have hlength : times.length + 1 < 2 ^ 32 := hshort
        have := eq_of_ofNat_succ_eq hlength (by omega) (by omega) heq
        omega
      refine ⟨entry, by rw [if_neg hne, hentry], Nat.le_trans htime hclock, ?_⟩
      rw [hidle, copies_nil, Nat.add_zero (copies i sent)] at hpace
      rwa [decide_eq_false hne.symm, Bool.toNat_false, Nat.add_zero (copies i sent)]
    · obtain rfl : i = times.length := by
        have := (List.getElem?_eq_some_iff.mp hstart).1
        rw [List.length_append, List.length_singleton] at this
        omega
      obtain rfl : now = start := by simpa using hstart
      have hnone : copies times.length sent = 0 :=
        copies_eq_zero hshort fun packet hmem heq => by
          have := hold packet hmem
          omega
      exact ⟨_, if_pos rfl, Nat.le_refl _, by simp [hnone]⟩

/-- A check sends what is overdue, one copy each, and stamps it anew. -/
theorem tick (h : PaceInv times clock ep sent) (hsender : SenderInv peerAddr payloads ep)
    (hlength : times.length = payloads.length) (hidle : ep.outgoing = []) {now : ℕ}
    (hclock : clock ≤ now) : PaceInv times now (ep.checkRetransmission now) sent := by
  constructor
  · intro packet hmem
    rcases List.mem_append.mp hmem with hsent | hnew
    · exact h.numbers packet (List.mem_append_left _ hsent)
    · obtain ⟨entry, hvalue, rfl⟩ := List.mem_map.mp hnew
      obtain ⟨seq, hentry⟩ := Table.mem_values.mp (List.mem_filter.mp hvalue).1
      obtain ⟨-, i, payload, hi, hseq, -⟩ := hsender.unacked seq entry hentry
      have hlt := (List.getElem?_eq_some_iff.mp hi).1
      rw [hseq, UInt32.toNat_ofNat']
      exact Nat.le_trans (Nat.mod_le _ _) (by omega)
  · intro i start hstart
    obtain ⟨entry, hentry, htime, hpace⟩ := h.paced i start hstart
    have hcopies : copies i (ep.checkRetransmission now).outgoing =
        (Endpoint.isOverdue now entry).toNat := by
      have hone := Table.countP_values
        (fun seq entry hlookup => (hsender.unacked seq entry hlookup).1)
        (Endpoint.isOverdue now) (.ofNat (i + 1))
      rw [hentry] at hone
      rw [copies, Endpoint.checkRetransmission, List.countP_map, List.countP_filter]
      exact hone
    rw [hidle, copies_nil, Nat.add_zero (copies i sent)] at hpace
    rw [hcopies]
    refine ⟨if Endpoint.isOverdue now entry then { entry with timeSent := now } else entry, ?_, ?_⟩
    · simp [Endpoint.checkRetransmission, Table.lookup_mapValues, hentry]
    · cases hdue : Endpoint.isOverdue now entry with
      | true =>
          have hlate : now - entry.timeSent > Endpoint.retransmitTimeout := of_decide_eq_true hdue
          refine ⟨Nat.le_refl _, ?_⟩
          show start + (Endpoint.retransmitTimeout + 1) * (copies i sent + 1) ≤
            now + (Endpoint.retransmitTimeout + 1)
          rw [Nat.mul_succ, ← Nat.add_assoc]
          exact Nat.add_le_add_right (by omega) _
      | false => exact ⟨Nat.le_trans htime hclock, hpace⟩

/-- Every step keeps the pace. -/
theorem step (h : PaceInv times clock ep sent) (hsender : SenderInv peerAddr payloads ep)
    (hlength : times.length = payloads.length) {action : Action}
    {events : List Event} (hstep : Endpoint.Transition peerAddr ep action ep' events)
    (hshort : (times ++ action.stamps).length < 2 ^ 32) (hclock : clock ≤ clock')
    (htime : ∀ now, action.time = some now → clock' = now) :
    PaceInv (times ++ action.stamps) clock' ep' (sent ++ emitted events) := by
  have hzero : ∀ ack, ∀ packet ∈ [ackPacket ack], packet.header.seq = 0 := by
    intro ack packet hmem
    rw [List.mem_singleton.mp hmem]
    rfl
  have hfew : times.length < 2 ^ 32 := by
    rw [List.length_append] at hshort
    omega
  cases hstep with
  | @submitData now payload hidle =>
      obtain rfl := htime now rfl
      rw [List.length_append] at hshort
      change PaceInv (times ++ [clock']) clock' _ (sent ++ [])
      rw [List.append_nil]
      exact h.submit hsender hlength hshort hidle hclock payload
  | @tick now hidle =>
      obtain rfl := htime now rfl
      change PaceInv (times ++ []) clock' _ (sent ++ [])
      rw [List.append_nil, List.append_nil]
      exact h.tick hsender hlength hidle hclock
  | transmit hpacket =>
      have hlater : PaceInv times clock' ep (sent ++ []) := h.quiet hfew hclock nofun rfl rfl
      rw [List.append_nil] at hlater
      change PaceInv (times ++ []) clock' _ _
      rw [List.append_nil]
      exact hlater.transmit hpacket
  | buffer | ack =>
      change PaceInv (times ++ []) clock' _ _
      rw [List.append_nil]
      exact h.quiet hfew hclock (hzero _) rfl rfl
  | foreign | malformed | duplicate | submitAck | accept | handOver | advance | drained | drain
    | release | echo | queueAck =>
      change PaceInv (times ++ []) clock' _ _
      rw [List.append_nil]
      exact h.quiet hfew hclock nofun rfl rfl

end PaceInv

/-! ## The system -/

/-- When the action submits a payload of the side, if it does. -/
def LinkAction.stamps (side : Side) (action : LinkAction) : List ℕ :=
  (action.atSide side).elim [] Action.stamps

/-- Both endpoints with their network, and a memory of when they have submitted their payloads. -/
def timedMachine (addr : Addresses) :
    Machine ((Link × List (Side × Event)) × (Side → List ℕ)) LinkAction :=
  (linkMachine addr).remembering (fun _ => [])
    fun times _ action side => times side ++ action.stamps side

/-- An endpoint takes a time for every payload. -/
theorem Endpoint.Transition.length_stamps {peerAddr : SocketAddr} {ep ep' : Endpoint}
    {action : Action} {events : List Event}
    (hstep : Endpoint.Transition peerAddr ep action ep' events) :
    action.stamps.length = (submitted events).length := by
  cases hstep <;> rfl

/-- Time passes up to the reading that a task has taken. -/
theorem Link.clock_step {addr : Addresses} {link next : Link} {action : LinkAction}
    {events : List (Side × Event)} (hstep : link.step addr action = some (next, events)) :
    link.clock ≤ next.clock ∧ ∀ side act now, action.atSide side = some act →
      act.time = some now → next.clock = now := by
  cases action with
  | atEnd actor act =>
      simp only [step, Option.bind_eq_some_iff] at hstep
      obtain ⟨clock, hclock, hrun⟩ := hstep
      obtain ⟨ep, evs, -, rfl, -⟩ := runEnd_eq_some hrun
      have hafter : link.clock ≤ clock ∧ ∀ now, act.time = some now → clock = now := by
        cases act with
        | submit now _ | tick now =>
            simp only [clockAfter] at hclock
            split at hclock
            · next hle =>
              cases hclock
              exact ⟨hle, fun other hother => Option.some.inj hother⟩
            · cases hclock
        | arrive => cases hclock
        | recv | transmit | ack =>
            cases hclock
            exact ⟨Nat.le_refl _, fun other hother => by cases hother⟩
      refine ⟨hafter.1, fun side other now hshare htime => ?_⟩
      obtain ⟨-, rfl⟩ : actor = side ∧ act = other := by
        simpa [LinkAction.atSide] using hshare
      exact hafter.2 now htime
  | deliver actor datagram =>
      simp only [step] at hstep
      split at hstep
      · obtain ⟨ep, evs, -, rfl, -⟩ := runEnd_eq_some hstep
        refine ⟨Nat.le_refl _, fun side other now hshare htime => ?_⟩
        simp only [LinkAction.atSide] at hshare
        split at hshare
        · cases hshare
          cases htime
        · cases hshare
      · cases hstep
  | duplicate datagram | lose datagram =>
      simp only [step] at hstep
      split at hstep
      · cases hstep
        exact ⟨Nat.le_refl _, fun side act now hshare => by cases hshare⟩
      · cases hstep

section Timed

variable {addr : Addresses} {c : (Link × List (Side × Event)) × (Side → List ℕ)}

theorem length_times (hc : (timedMachine addr).Reachable c) (side : Side) :
    (c.2 side).length = (submittedPayloads side c.1.2).length := by
  refine Machine.Reachable.induct
    (P := fun c : (Link × List (Side × Event)) × (Side → List ℕ) =>
      (c.2 side).length = (submittedPayloads side c.1.2).length) rfl ?_ hc
  rintro ⟨⟨link, trace⟩, times⟩ action ⟨d, times'⟩ - h hstep
  obtain ⟨hlink, rfl⟩ := Machine.remembering_step.mp hstep
  obtain ⟨next, events, hnext, rfl⟩ := Machine.traced_step.mp hlink
  have hside := Link.step_atSide hnext side
  simp only [submittedPayloads, sideTrace_append, submitted_append, List.length_append] at h ⊢
  cases hshare : action.atSide side with
  | none =>
      rw [hshare] at hside
      rw [h, hside.2, LinkAction.stamps, hshare]
      rfl
  | some act =>
      rw [hshare] at hside
      rw [h, ← (Endpoint.transition_of_step hside).length_stamps, LinkAction.stamps, hshare]
      rfl

theorem paceInv_of_reachable (hc : (timedMachine addr).Reachable c) {side : Side}
    (hshort : (c.2 side).length < 2 ^ 32) :
    PaceInv (c.2 side) c.1.1.clock (c.1.1.ends side) (emitted (sideTrace side c.1.2)) := by
  revert hshort
  refine Machine.Reachable.induct
    (P := fun c : (Link × List (Side × Event)) × (Side → List ℕ) =>
      (c.2 side).length < 2 ^ 32 →
        PaceInv (c.2 side) c.1.1.clock (c.1.1.ends side) (emitted (sideTrace side c.1.2)))
    (fun _ => .new) ?_ hc
  rintro ⟨⟨link, trace⟩, times⟩ action ⟨d, times'⟩ hbefore h hstep hshort
  obtain ⟨hlink, rfl⟩ := Machine.remembering_step.mp hstep
  obtain ⟨next, events, hnext, rfl⟩ := Machine.traced_step.mp hlink
  obtain ⟨hclock, htime⟩ := Link.clock_step hnext
  have hside := Link.step_atSide hnext side
  have hlength : (times side ++ action.stamps side).length < 2 ^ 32 := hshort
  have hfew : (times side).length < 2 ^ 32 := by
    rw [List.length_append] at hlength
    omega
  show PaceInv (times side ++ action.stamps side) next.clock (next.ends side)
    (emitted (sideTrace side (trace ++ events)))
  rw [sideTrace_append, emitted_append]
  cases hshare : action.atSide side with
  | none =>
      have hstamps : action.stamps side = [] := by
        rw [LinkAction.stamps, hshare]
        rfl
      rw [hshare] at hside
      rw [hside.1, hside.2, hstamps, List.append_nil]
      exact (h hfew).quiet hfew hclock nofun rfl rfl
  | some act =>
      have hstamps : action.stamps side = act.stamps := by
        rw [LinkAction.stamps, hshare]
        rfl
      have hsender := senderInv_of_reachable
        ((sideComponent addr side).reachable_view (Machine.Reachable.forget hbefore))
      rw [hshare] at hside
      rw [hstamps] at hlength ⊢
      exact (h hfew).step hsender (length_times hbefore side)
        (Endpoint.transition_of_step hside) hlength hclock fun now => htime side act now hshare

/-- No packet is stamped with a time to come. -/
theorem timeSent_le_clock {d : Link × List (Side × Event)} (hd : (linkMachine addr).Reachable d)
    {side : Side} (hshort : (submittedPayloads side d.2).length < 2 ^ 32) {seq : UInt32}
    {entry : SentPacket} (hentry : (d.1.ends side).state.unacked.lookup seq = some entry) :
    entry.timeSent ≤ d.1.clock := by
  obtain ⟨times, htimed⟩ : ∃ times, (timedMachine addr).Reachable (d, times) := hd.remembering
  have hlength := length_times htimed side
  have hsender := senderInv_of_reachable ((sideComponent addr side).reachable_view hd)
  obtain ⟨hkey, i, payload, hi, hseq, -⟩ := hsender.unacked seq entry hentry
  have hlt : i < (times side).length := hlength ▸ (List.getElem?_eq_some_iff.mp hi).1
  obtain ⟨found, hfound, hle, -⟩ := (paceInv_of_reachable htimed (hlength ▸ hshort)).paced i _
    (List.getElem?_eq_getElem hlt)
  rw [← hseq, hkey] at hfound
  cases hentry.symm.trans hfound
  exact hle

/-- Whatever the network does and whatever is acknowledged, a payload has been put on the wire no
more than once and then once in two seconds, and is never given up: from some time on any check
will send it again. -/
theorem paced_of_reachable (hc : (timedMachine addr).Reachable c) {side : Side}
    (hshort : (submittedPayloads side c.1.2).length < 2 ^ 32) {i start : ℕ}
    (hstart : (c.2 side)[i]? = some start) :
    copies i (emitted (sideTrace side c.1.2)) ≤
        1 + (c.1.1.clock - start) / (Endpoint.retransmitTimeout + 1) ∧
      ∃ payload, (submittedPayloads side c.1.2)[i]? = some payload ∧ ∃ stamp ≤ c.1.1.clock,
        ∀ now, stamp + Endpoint.retransmitTimeout < now →
          ∃ sent ∈ ((c.1.1.ends side).checkRetransmission now).outgoing,
            sent.header.seq = .ofNat (i + 1) ∧ sent.payload = some payload := by
  have hlength := length_times hc side
  obtain ⟨entry, hentry, htime, hpace⟩ :=
    (paceInv_of_reachable hc (hlength ▸ hshort)).paced i start hstart
  constructor
  · rw [Nat.mul_add] at hpace
    simp only [Endpoint.retransmitTimeout] at hpace ⊢
    omega
  have hlt : i < (submittedPayloads side c.1.2).length :=
    hlength ▸ (List.getElem?_eq_some_iff.mp hstart).1
  have hsender := senderInv_of_reachable
    ((sideComponent addr side).reachable_view (Machine.Reachable.forget hc))
  have hpayload := List.getElem?_eq_getElem hlt
  obtain ⟨found, hfound, hseq, hsame⟩ := hsender.exists_entry (.of_short hshort) hpayload
  cases hentry.symm.trans hfound
  refine ⟨_, hpayload, entry.timeSent, htime, fun now hnow => ⟨entry.packet, ?_, hseq, hsame⟩⟩
  have hdue : Endpoint.isOverdue now entry = true :=
    decide_eq_true (show now - entry.timeSent > Endpoint.retransmitTimeout by omega)
  exact List.mem_map_of_mem (List.mem_filter.mpr ⟨Table.mem_values.mpr ⟨_, hentry⟩, hdue⟩)

/-- A payload that is sent again as early as can be. -/
def earlyCopy : List LinkAction :=
  [.atEnd .left (.submit 5 (.data [104])), .atEnd .left (.transmit 0),
    .atEnd .left (.tick 2000000005), .atEnd .left (.tick 2000000006), .atEnd .left (.transmit 0)]

theorem paced_of_reachable_earlyCopy : ∃ c,
    (timedMachine loopback).exec (timedMachine loopback).init earlyCopy = some c ∧
      copies 0 (emitted (sideTrace .left c.1.2)) = 2 ∧
      copies 0 (emitted (sideTrace .left c.1.2)) ≤
        1 + (c.1.1.clock - 5) / (Endpoint.retransmitTimeout + 1) ∧
      ∃ payload, (submittedPayloads .left c.1.2)[0]? = some payload ∧ ∃ stamp ≤ c.1.1.clock,
        ∀ now, stamp + Endpoint.retransmitTimeout < now →
          ∃ sent ∈ ((c.1.1.ends .left).checkRetransmission now).outgoing,
            sent.header.seq = .ofNat 1 ∧ sent.payload = some payload := by
  obtain ⟨c, hexec, hcopies, hshort, hstart⟩ :
      ∃ c ∈ (timedMachine loopback).exec (timedMachine loopback).init earlyCopy,
        copies 0 (emitted (sideTrace .left c.1.2)) = 2 ∧
          (submittedPayloads .left c.1.2).length < 2 ^ 32 ∧ (c.2 .left)[0]? = some 5 := by
    decide +kernel
  exact ⟨c, hexec, hcopies, paced_of_reachable ⟨earlyCopy, hexec⟩ hshort hstart⟩

end Timed

end P2PNetworking.Common
