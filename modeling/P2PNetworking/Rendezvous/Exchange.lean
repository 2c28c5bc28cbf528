/-
# The exchange of addresses

One rendezvous server, any number of hosts in `listen_to_relay` and clients in
`request_host_addr`, and a network that may lose, copy and reorder datagrams but adds
none of its own.  A party is known by the address that the server observes.  The sockets
are IPv4 sockets, and each address belongs to one call.

What the two sides send each other once their calls have returned is left out.
-/

import P2PNetworking.Rendezvous.RelayManager
import P2PNetworking.Peer.Discovery
import P2PNetworking.Lib.Machine

namespace P2PNetworking.Rendezvous

open P2PNetworking.Net P2PNetworking.Lib P2PNetworking.Peer

/-! ## The parties -/

/-- A call that waits for the server's answer. -/
inductive Party
  | host (call : ListenToRelay)
  | client (code : Uuid) (call : RequestHostAddr)

namespace Party

def result : Party → Peer.Result
  | host call => call.result
  | client _ call => call.result

def receive : Party → Incoming → Party × List Outgoing
  | host call, incoming => (host (call.receive incoming).1, (call.receive incoming).2)
  | client code call, incoming => (client code (call.receive incoming).1, (call.receive incoming).2)

end Party

/-- What can be observed of the exchange. -/
inductive Event
  /-- A host has sent its request. -/
  | listened (host : SocketAddr)
  /-- A client has sent its request. -/
  | asked (client : SocketAddr) (code : Uuid)
  /-- The server has made a code for a host. -/
  | created (code : Uuid) (host : SocketAddr)
  | hostReturned (host addr : SocketAddr)
  | clientReturned (client : SocketAddr) (code : Uuid) (addr : SocketAddr)
  deriving DecidableEq, Repr

/-- The events of a step of the server. -/
def ServerStep.events (done : ServerStep) : List Event :=
  done.opened.toList.map fun lobby => .created lobby.1 lobby.2

/-- The event of a call that begins. -/
def Party.began (addr : SocketAddr) : Party → Event
  | host _ => .listened addr
  | client code _ => .asked addr code

theorem Party.eq_of_began_eq {addr addr' : SocketAddr} {party party' : Party}
    (h : party.began addr = party'.began addr') : addr = addr' := by
  cases party <;> cases party' <;> cases h <;> rfl

/-- It is the same call that goes on. -/
theorem Party.began_receive (addr : SocketAddr) (party : Party) (incoming : Incoming) :
    (party.receive incoming).1.began addr = party.began addr := by
  cases party <;> rfl

/-- The event of a call that returns. -/
def Party.returned (addr : SocketAddr) (party : Party) (found : SocketAddr) : Event :=
  match party with
  | host _ => .hostReturned addr found
  | client code _ => .clientReturned addr code found

/-- The codes that have been made. -/
def codes (trace : List Event) : List Uuid :=
  trace.filterMap fun
    | .created code _ => some code
    | _ => none

theorem mem_codes {trace : List Event} {code : Uuid} :
    code ∈ codes trace ↔ ∃ host, .created code host ∈ trace := by
  simp only [codes, List.mem_filterMap]
  constructor
  · rintro ⟨event, hmem, hcode⟩
    split at hcode
    · next made host =>
      cases hcode
      exact ⟨host, hmem⟩
    · cases hcode
  · rintro ⟨host, hmem⟩
    exact ⟨_, hmem, rfl⟩

theorem codes_append (first second : List Event) :
    codes (first ++ second) = codes first ++ codes second := List.filterMap_append

/-! ## The system -/

/-- The server, the parties by their addresses, and the datagrams under way. -/
structure Exchange where
  server : Server
  parties : Table SocketAddr Party
  inFlight : List Datagram

/-- What happens next. -/
inductive Action
  /-- A host or a client begins its call. -/
  | listen (host : SocketAddr)
  | ask (client : SocketAddr) (code : Uuid)
  /-- A datagram reaches its addressee; `fresh` is the code that `Uuid::new_v4` would give. -/
  | deliver (datagram : Datagram) (fresh : Uuid)
  | duplicate (datagram : Datagram)
  | lose (datagram : Datagram)
  /-- A party's `recv_from` comes back with an error. -/
  | fail (addr : SocketAddr)
  | manage
  | run (i : ℕ)
  | stop (i : ℕ)
  deriving DecidableEq, Repr

/-- The address family of the sockets. -/
def IsIpv4 : SocketAddr → Prop
  | .v4 _ _ => True
  | .v6 _ _ _ _ => False

instance : DecidablePred IsIpv4
  | .v4 _ _ => .isTrue trivial
  | .v6 _ _ _ _ => .isFalse id

namespace Exchange

def new : Exchange := ⟨.new, ∅, []⟩

/-- Datagrams from one sender. -/
def wire (src : SocketAddr) (sent : List Outgoing) : List Datagram :=
  sent.map fun out => ⟨src, out.1, out.2⟩

theorem mem_wire {src : SocketAddr} {sent : List Outgoing} {datagram : Datagram} :
    datagram ∈ wire src sent ↔ ∃ out ∈ sent, datagram = ⟨src, out.1, out.2⟩ := by
  simp only [wire, List.mem_map, eq_comm]

variable (serverAddr : SocketAddr)

/-- A call begins. -/
def start (exchange : Exchange) (addr : SocketAddr) (party : Party) (request : Outgoing) :
    Option (Exchange × List Event) :=
  if IsIpv4 addr ∧ addr ≠ serverAddr ∧ exchange.parties.lookup addr = none then
    some ({ exchange with
      parties := exchange.parties.insert addr party
      inFlight := exchange.inFlight ++ wire addr [request] }, [party.began addr])
  else none

/-- The server takes a step; what it sends is under way. -/
def atServer (exchange : Exchange) (step : Option ServerStep) : Option (Exchange × List Event) :=
  step.map fun done =>
    ({ exchange with
      server := done.server
      inFlight := exchange.inFlight ++ wire serverAddr done.sent }, done.events)

/-- What a party's step lets the observer see. -/
def returns (addr : SocketAddr) (party next : Party) : List Event :=
  match party.result, next.result with
  | .waiting, .returned found => [party.returned addr found]
  | _, _ => []

theorem returns_eq (addr : SocketAddr) (party next : Party) :
    returns addr party next = [] ∨
      ∃ found, returns addr party next = [party.returned addr found] := by
  unfold returns
  split
  · exact .inr ⟨_, rfl⟩
  · exact .inl rfl

/-- A party's `recv_from` comes back.  Without a party nobody notices. -/
def atParty (exchange : Exchange) (addr : SocketAddr) (incoming : Incoming) :
    Option (Exchange × List Event) :=
  match exchange.parties.lookup addr with
  | none => some (exchange, [])
  | some party =>
      let (next, sent) := party.receive incoming
      some ({ exchange with
        parties := exchange.parties.insert addr next
        inFlight := exchange.inFlight ++ wire addr sent }, returns addr party next)

/-- One step of the system. -/
def step (exchange : Exchange) : Action → Option (Exchange × List Event)
  | .listen host =>
      exchange.start serverAddr host (.host .new) (ListenToRelay.request serverAddr)
  | .ask client code =>
      exchange.start serverAddr client (.client code .new)
        (RequestHostAddr.request serverAddr code)
  | .deliver datagram fresh =>
      if datagram ∈ exchange.inFlight then
        let arrived := { exchange with inFlight := exchange.inFlight.erase datagram }
        if datagram.dst = serverAddr then
          arrived.atServer serverAddr
            (exchange.server.receive ⟨datagram.src, datagram.bytes, fresh⟩)
        else arrived.atParty datagram.dst (.datagram datagram.src datagram.bytes)
      else none
  | .duplicate datagram =>
      if datagram ∈ exchange.inFlight then
        some ({ exchange with inFlight := datagram :: exchange.inFlight }, [])
      else none
  | .lose datagram =>
      if datagram ∈ exchange.inFlight then
        some ({ exchange with inFlight := exchange.inFlight.erase datagram }, [])
      else none
  | .fail addr => exchange.atParty addr .failed
  | .manage => exchange.atServer serverAddr exchange.server.manage
  | .run i => exchange.atServer serverAddr (exchange.server.run i)
  | .stop i => exchange.atServer serverAddr (exchange.server.stop i)

end Exchange

/-- The system from its start. -/
def exchangeMachine (serverAddr : SocketAddr) : Machine (Exchange × List Event) Action :=
  .traced .new (Exchange.step serverAddr)

/-- A version 4 UUID: the version and the variant stand in its bits. -/
def IsUuidV4 (code : Uuid) : Prop := code[6] &&& 0xf0 = 0x40 ∧ code[8] &&& 0xc0 = 0x80

instance (code : Uuid) : Decidable (IsUuidV4 code) :=
  inferInstanceAs (Decidable (code[6] &&& 0xf0 = 0x40 ∧ code[8] &&& 0xc0 = 0x80))

/-- `Uuid::new_v4` has only given version 4 UUIDs, and none of them twice. -/
def FreshCodes (trace : List Event) : Prop :=
  (codes trace).Nodup ∧ ∀ code ∈ codes trace, IsUuidV4 code

-- by the list, not by all UUIDs there are
instance (trace : List Event) : Decidable (FreshCodes trace) :=
  @instDecidableAnd _ _ _ (List.decidableBAll IsUuidV4 (codes trace))

theorem FreshCodes.of_append {trace events : List Event} (h : FreshCodes (trace ++ events)) :
    FreshCodes trace := by
  rw [FreshCodes, codes_append] at h
  exact ⟨(List.nodup_append.mp h.1).1, fun code hmem => h.2 code (List.mem_append_left _ hmem)⟩

/-- What is made next is new. -/
theorem FreshCodes.of_created {trace : List Event} {code : Uuid} {host : SocketAddr}
    (h : FreshCodes (trace ++ [.created code host])) : IsUuidV4 code ∧ code ∉ codes trace := by
  rw [FreshCodes, codes_append] at h
  refine ⟨h.2 code (by simp [codes]), fun hmem => ?_⟩
  exact (List.nodup_append.mp h.1).2.2 code hmem code (by simp [codes]) rfl

end P2PNetworking.Rendezvous
