/-
# Two endpoints joined by a datagram network

The network is the bag of datagrams under way.  It may deliver any of them to the
side they are addressed to, copy any of them, and drop any of them; it never adds
one of its own.  The clock only matters to retransmission and never runs
backwards.
-/

import P2PNetworking.Common.SingleConnection
import Mathlib.Logic.Function.Basic

namespace P2PNetworking.Common

open P2PNetworking.Net P2PNetworking.Lib

inductive Side
  | left
  | right
  deriving DecidableEq, Repr

/-- The other side. -/
def Side.peer : Side → Side
  | .left => .right
  | .right => .left

@[simp]
theorem Side.peer_peer (side : Side) : side.peer.peer = side := by
  cases side <;> rfl

@[simp]
theorem Side.peer_ne (side : Side) : side.peer ≠ side := by
  cases side <;> decide

theorem Side.eq_or_eq_peer (side other : Side) : other = side ∨ other = side.peer := by
  cases side <;> cases other <;> simp [Side.peer]

/-- The two observed addresses, which differ. -/
structure Addresses where
  of : Side → SocketAddr
  distinct : of .left ≠ of .right

theorem Addresses.of_injective (addr : Addresses) {first second : Side}
    (h : addr.of first = addr.of second) : first = second := by
  have hne := addr.distinct
  cases first <;> cases second <;> simp_all

/-- A packet on its way from one side to the other. -/
def Addresses.datagram (addr : Addresses) (sender : Side) (packet : Packet) : Datagram :=
  ⟨addr.of sender, addr.of sender.peer, serialize packet⟩

/-- Both sides on 127.0.0.1. -/
def loopback : Addresses where
  of
    | .left => .v4 2130706433 4000
    | .right => .v4 2130706433 4001
  distinct := by decide

/-- Both endpoints, the datagrams under way, and the time. -/
structure Link where
  ends : Side → Endpoint
  inFlight : List Datagram
  clock : ℕ

def Link.new : Link := ⟨fun _ => .new, [], 0⟩

/-- What happens next in the system. -/
inductive LinkAction
  /-- One of the tasks of a side goes on. -/
  | atEnd (side : Side) (action : Action)
  /-- A datagram reaches its addressee. -/
  | deliver (side : Side) (datagram : Datagram)
  /-- The network copies a datagram. -/
  | duplicate (datagram : Datagram)
  /-- The network loses a datagram. -/
  | lose (datagram : Datagram)
  deriving DecidableEq, Repr

namespace Link

variable (addr : Addresses)

/-- The datagrams that the events of a side put on the wire. -/
def wire (side : Side) (events : List Event) : List Datagram :=
  events.filterMap fun
    | .emitted packet dest => some ⟨addr.of side, dest, serialize packet⟩
    | _ => none

/-- A side takes a step; what it emits is under way. -/
def runEnd (link : Link) (side : Side) (action : Action) :
    Option (Link × List (Side × Event)) :=
  ((link.ends side).step (addr.of side.peer) action).map fun (ep, events) =>
    ({ link with
      ends := Function.update link.ends side ep
      inFlight := link.inFlight ++ wire addr side events }, events.map (Prod.mk side))

/-- The time after an action of a task; datagrams arrive by delivery only. -/
def clockAfter (clock : ℕ) : Action → Option ℕ
  | .arrive _ _ => none
  | .submit now _ => if clock ≤ now then some now else none
  | .tick now => if clock ≤ now then some now else none
  | _ => some clock

/-- One step of the system. -/
def step (link : Link) : LinkAction → Option (Link × List (Side × Event))
  | .atEnd side action =>
      (clockAfter link.clock action).bind fun clock =>
        { link with clock := clock }.runEnd addr side action
  | .deliver side datagram =>
      if datagram ∈ link.inFlight ∧ datagram.dst = addr.of side then
        { link with inFlight := link.inFlight.erase datagram }.runEnd addr side
          (.arrive datagram.src datagram.bytes)
      else none
  | .duplicate datagram =>
      if datagram ∈ link.inFlight then
        some ({ link with inFlight := datagram :: link.inFlight }, [])
      else none
  | .lose datagram =>
      if datagram ∈ link.inFlight then
        some ({ link with inFlight := link.inFlight.erase datagram }, [])
      else none

end Link

/-- The system from its start. -/
def linkMachine (addr : Addresses) : Machine (Link × List (Side × Event)) LinkAction :=
  .traced .new (Link.step addr)

/-- The events of one side. -/
def sideTrace (side : Side) (trace : List (Side × Event)) : List Event :=
  trace.filterMap fun entry => if entry.1 = side then some entry.2 else none

@[simp]
theorem sideTrace_append (side : Side) (first second : List (Side × Event)) :
    sideTrace side (first ++ second) = sideTrace side first ++ sideTrace side second :=
  List.filterMap_append

@[simp]
theorem sideTrace_map_mk (side : Side) (events : List Event) :
    sideTrace side (events.map (Prod.mk side)) = events := by
  simp [sideTrace, List.filterMap_map]

theorem sideTrace_map_mk_of_ne {side other : Side} (hne : other ≠ side)
    (events : List Event) : sideTrace side (events.map (Prod.mk other)) = [] := by
  simp [sideTrace, List.filterMap_map, hne]

namespace Link

variable {addr : Addresses}

theorem mem_wire {side : Side} {events : List Event} {datagram : Datagram} :
    datagram ∈ wire addr side events ↔ ∃ packet dest,
      .emitted packet dest ∈ events ∧ datagram = ⟨addr.of side, dest, serialize packet⟩ := by
  simp only [wire, List.mem_filterMap]
  constructor
  · rintro ⟨event, hmem, hevent⟩
    split at hevent
    · next packet dest =>
      cases hevent
      exact ⟨packet, dest, hmem, rfl⟩
    · cases hevent
  · rintro ⟨packet, dest, hmem, rfl⟩
    exact ⟨_, hmem, rfl⟩

variable (addr) in
/-- What a step of the system does: one side takes a step, or the endpoints rest
and the network has no new datagram. -/
inductive Transition (link : Link) : Link → List (Side × Event) → Prop
  | side {link' : Link} {side : Side} {action : Action} {ep : Endpoint} {events : List Event}
      (hstep : Endpoint.Transition (addr.of side.peer) (link.ends side) action ep events)
      (hends : link'.ends = Function.update link.ends side ep)
      (hflight : ∀ datagram ∈ link'.inFlight,
        datagram ∈ link.inFlight ∨ datagram ∈ wire addr side events)
      (harrive : ∀ src bytes, action = .arrive src bytes →
        ⟨src, addr.of side, bytes⟩ ∈ link.inFlight) :
      Transition link link' (events.map (Prod.mk side))
  | network {link' : Link} (hends : link'.ends = link.ends)
      (hflight : ∀ datagram ∈ link'.inFlight, datagram ∈ link.inFlight) :
      Transition link link' []

/-- What it means for a side to take a step. -/
theorem runEnd_eq_some {link link' : Link} {side : Side} {action : Action}
    {events : List (Side × Event)} (hrun : link.runEnd addr side action = some (link', events)) :
    ∃ ep evs, (link.ends side).step (addr.of side.peer) action = some (ep, evs) ∧
      link' = { link with
        ends := Function.update link.ends side ep
        inFlight := link.inFlight ++ wire addr side evs } ∧
      events = evs.map (Prod.mk side) := by
  simp only [runEnd, Option.map_eq_some_iff, Prod.exists, Prod.mk.injEq] at hrun
  obtain ⟨ep, evs, hstep, rfl, rfl⟩ := hrun
  exact ⟨ep, evs, hstep, rfl, rfl⟩

/-- Every step is of one of the two kinds. -/
theorem transition_of_step {link link' : Link} {action : LinkAction}
    {events : List (Side × Event)} (hstep : link.step addr action = some (link', events)) :
    Transition addr link link' events := by
  cases action with
  | atEnd side action =>
      simp only [step, Option.bind_eq_some_iff] at hstep
      obtain ⟨clock, hclock, hrun⟩ := hstep
      obtain ⟨ep, evs, hend, rfl, rfl⟩ := runEnd_eq_some hrun
      refine .side (Endpoint.transition_of_step hend) rfl
        (fun datagram hmem => List.mem_append.mp hmem) ?_
      rintro src bytes rfl
      cases hclock
  | deliver side datagram =>
      simp only [step] at hstep
      split at hstep
      · next hmem =>
        obtain ⟨hmem, hdst⟩ := hmem
        obtain ⟨ep, evs, hend, rfl, rfl⟩ := runEnd_eq_some hstep
        refine .side (Endpoint.transition_of_step hend) rfl (fun other hother => ?_) ?_
        · exact (List.mem_append.mp hother).imp_left List.mem_of_mem_erase
        · rintro src bytes ⟨⟩
          rw [← hdst]
          exact hmem
      · cases hstep
  | duplicate datagram =>
      simp only [step] at hstep
      split at hstep
      · next hmem =>
        cases hstep
        refine .network rfl fun other hother => ?_
        rcases List.mem_cons.mp hother with rfl | hother
        · exact hmem
        · exact hother
      · cases hstep
  | lose datagram =>
      simp only [step] at hstep
      split at hstep
      · cases hstep
        exact .network rfl fun other hother => List.mem_of_mem_erase hother
      · cases hstep

end Link

/-! ## Each side is an endpoint -/

/-- The endpoint of a side that an action moves, and how. -/
def LinkAction.atSide (side : Side) : LinkAction → Option Action
  | .atEnd actor action => if actor = side then some action else none
  | .deliver actor datagram =>
      if actor = side then some (.arrive datagram.src datagram.bytes) else none
  | .duplicate _ | .lose _ => none

/-- An action moves one side as it moves that endpoint alone. -/
theorem Link.step_atSide {addr : Addresses} {link link' : Link} {action : LinkAction}
    {events : List (Side × Event)} (hstep : link.step addr action = some (link', events))
    (side : Side) :
    match action.atSide side with
    | some act => (link.ends side).step (addr.of side.peer) act =
        some (link'.ends side, sideTrace side events)
    | none => link'.ends side = link.ends side ∧ sideTrace side events = [] := by
  have hrun : ∀ {start : Link} {actor : Side} {act : Action},
      start.runEnd addr actor act = some (link', events) → start.ends = link.ends →
      match if actor = side then some act else none with
      | some act => (link.ends side).step (addr.of side.peer) act =
          some (link'.ends side, sideTrace side events)
      | none => link'.ends side = link.ends side ∧ sideTrace side events = [] := by
    intro start actor act hrun hstart
    obtain ⟨ep, evs, hend, rfl, rfl⟩ := runEnd_eq_some hrun
    rw [hstart] at hend
    by_cases hactor : actor = side
    · subst hactor
      simpa using hend
    · have hside : side ≠ actor := fun h => hactor h.symm
      simp [hactor, hside, hstart, sideTrace_map_mk_of_ne hactor]
  cases action with
  | atEnd actor act =>
      simp only [step, Option.bind_eq_some_iff] at hstep
      obtain ⟨clock, -, hend⟩ := hstep
      exact hrun hend rfl
  | deliver actor datagram =>
      simp only [step] at hstep
      split at hstep
      · exact hrun hstep rfl
      · cases hstep
  | duplicate datagram | lose datagram =>
      simp only [step] at hstep
      split at hstep
      · cases hstep
        exact ⟨rfl, rfl⟩
      · cases hstep

/-- In the system, each side is an endpoint among all others. -/
def sideComponent (addr : Addresses) (side : Side) :
    (linkMachine addr).Component (endpointMachine (addr.of side.peer)) where
  view c := (c.1.ends side, sideTrace side c.2)
  share _ action := action.atSide side
  view_init := rfl
  step_share := by
    intro c action d act hstep hshare
    obtain ⟨link, events, hnext, rfl⟩ := Machine.traced_step.mp hstep
    have hside := Link.step_atSide hnext side
    rw [hshare] at hside
    refine Machine.traced_step.mpr ⟨_, _, hside, ?_⟩
    rw [sideTrace_append]
  step_rest := by
    intro c action d hstep hshare
    obtain ⟨link, events, hnext, rfl⟩ := Machine.traced_step.mp hstep
    have hside := Link.step_atSide hnext side
    rw [hshare] at hside
    simp [hside.1, hside.2]

end P2PNetworking.Common
