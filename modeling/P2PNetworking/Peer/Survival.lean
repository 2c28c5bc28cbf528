/-
# A host that waits

What `listen_to_relay` should make of the datagrams that reach it, whatever the network
does to their order: wait for the code, then return the first address.  What it makes of
them differs as soon as the first one cannot be the code, since that one is parsed with
`expect`.  The loops beside it, `udp_handler` on the server and `request_host_addr` on
the client, read on when a datagram is not what they need.
-/

import P2PNetworking.Peer.Strangers

namespace P2PNetworking.Peer

open P2PNetworking.Net

/-- A datagram that has reached the socket: who sent it, and its bytes. -/
abbrev Arrival := SocketAddr × List UInt8

namespace ListenToRelay

/-- The datagram is the code, as far as the host can tell. -/
def IsCode (datagram : Arrival) : Prop := (datagram.2.take bufSize).length = 16

instance (datagram : Arrival) : Decidable (IsCode datagram) :=
  inferInstanceAs (Decidable (_ = _))

/-- The address that a datagram is. -/
def address (datagram : Arrival) : Option SocketAddr :=
  SocketAddr.fromStr (datagram.2.take bufSize)

/-- What the host should make of the datagrams: it waits for the code, and from then on
for an address. -/
def expected : List Arrival → Result
  | [] => .waiting
  | datagram :: later =>
      if IsCode datagram then (later.findSome? address).elim .waiting .returned
      else expected later

end ListenToRelay

open ListenToRelay

end P2PNetworking.Peer
