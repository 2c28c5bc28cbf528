/-
# The rendezvous server

`udp_handler` reads datagrams and hands messages to the `RelayManager` over a channel.
For a new lobby it sends the code to the host at once and leaves a task behind that keeps
the host's address mapping alive.  For a join it waits for the manager's answer and, if
there is one, leaves a task behind that tells each side the other's address.

A oneshot channel is known by its number.  Time is left out: a task that sleeps may go on
at any moment.
-/

import P2PNetworking.Rendezvous.UdpHandler
import P2PNetworking.Net.AddrText
import P2PNetworking.Lib.Table

namespace P2PNetworking.Rendezvous

open P2PNetworking.Net P2PNetworking.Lib

/-- A datagram to be sent: where to, and its bytes. -/
abbrev Outgoing := SocketAddr × List UInt8

/-! ## The manager -/

/-- `Session`. -/
structure Session where
  hostAddr : SocketAddr
  shutdownChannel : Option ℕ
  clientAddr : Option (List SocketAddr)
  deriving DecidableEq

structure RelayManager where
  session : Table Uuid Session

/-- What the manager has made of a message. -/
structure Handled where
  manager : RelayManager
  /-- What it sends on the response channel; without it the channel is dropped. -/
  response : Option SocketAddr := none
  /-- The shutdown channel that a new task will use after five seconds. -/
  timer : Option ℕ := none
  /-- The shutdown channel of a session that is overwritten. -/
  dropped : Option ℕ := none

namespace RelayManager

/-- One round of the loop in `handler`. -/
def handle (manager : RelayManager) (channel : ℕ) : MessageType → Handled
  | .createLobby code hostAddr =>
      { manager := ⟨manager.session.insert code ⟨hostAddr, some channel, none⟩⟩
        dropped := (manager.session.lookup code).bind Session.shutdownChannel }
  | .joinLobby code clientAddr =>
      match manager.session.lookup code with
      | none => { manager := manager }
      | some session =>
          { manager := ⟨manager.session.insert code
              { session with shutdownChannel := none, clientAddr := some [clientAddr] }⟩
            response := some session.hostAddr
            timer := session.shutdownChannel }

end RelayManager

/-! ## The server -/

/-- A spawned task. -/
inductive Task
  /-- `keep_alive`. -/
  | keepAlive (shutdown : ℕ) (hostAddr : SocketAddr)
  /-- What is still to be sent after a join. -/
  | notify (pending : List Outgoing)
  /-- A shutdown channel that is used after five seconds. -/
  | timer (shutdown : ℕ)
  deriving DecidableEq

/-- `&[0]`. -/
def keepAlivePacket : List UInt8 := [0]

/-- What is sent after a join: five keep-alive packets, then each side's address. -/
def notification (clientAddr hostAddr : SocketAddr) : List Outgoing :=
  List.replicate 5 (clientAddr, keepAlivePacket) ++
    [(clientAddr, hostAddr.toText), (hostAddr, clientAddr.toText)]

/-- The capacity of the channel to the manager. -/
def channelCapacity : ℕ := 50

/-- All that runs in the server's process. -/
structure Server where
  handler : UdpHandler
  /-- How many oneshot channels there have been. -/
  channels : ℕ
  /-- The channel to the manager: messages, each with its oneshot channel. -/
  inbox : List (MessageType × ℕ)
  /-- The client for whose join `udp_handler` waits for a response. -/
  joining : Option SocketAddr
  manager : RelayManager
  tasks : List Task
  /-- The shutdown channels that have been used or dropped. -/
  closed : List ℕ

/-- A step's result: the server, what it sends, and the lobby it opens. -/
structure ServerStep where
  server : Server
  sent : List Outgoing := []
  opened : Option (Uuid × SocketAddr) := none

namespace Server

def new : Server := ⟨.new, 0, [], none, ⟨∅⟩, [], []⟩

/-- `udp_handler` reads a datagram and deals with it.  It cannot while it waits for a response, and
must find room in the channel for a message: until then the datagram counts as not read. -/
def receive (server : Server) (request : Request) : Option ServerStep :=
  if server.joining ≠ none then none
  else
    let (handler, message) := server.handler.handle request
    match message with
    | none => some { server := { server with handler := handler } }
    | some message =>
        if server.inbox.length < channelCapacity then
          let next := { server with
            handler := handler
            channels := server.channels + 1
            inbox := server.inbox ++ [(message, server.channels)] }
          match message with
          | .createLobby code hostAddr =>
              some
                { server := { next with tasks := server.tasks ++ [.keepAlive server.channels hostAddr] }
                  sent := [(hostAddr, code.toList)]
                  opened := some (code, hostAddr) }
          | .joinLobby _ clientAddr => some { server := { next with joining := some clientAddr } }
        else none

/-- `udp_handler` goes on with the response. -/
def resume (server : Server) (response : Option SocketAddr) : Server :=
  match server.joining, response with
  | some clientAddr, some hostAddr =>
      { server with
        joining := none
        tasks := server.tasks ++ [.notify (notification clientAddr hostAddr)] }
  | _, _ => { server with joining := none }

/-- The manager takes a message off the channel.  A join is the last message in it, and
`udp_handler` waits for the response. -/
def manage (server : Server) : Option ServerStep :=
  match server.inbox with
  | [] => none
  | (message, channel) :: inbox =>
      let handled := server.manager.handle channel message
      let next := { server with
        inbox := inbox
        manager := handled.manager
        tasks := server.tasks ++ handled.timer.toList.map .timer
        closed := server.closed ++ handled.dropped.toList }
      match message with
      | .createLobby _ _ => some { server := next }
      | .joinLobby _ _ => some { server := next.resume handled.response }

/-- A task goes on to its next send, or to the end of its sleep. -/
def run (server : Server) (i : ℕ) : Option ServerStep :=
  match server.tasks[i]? with
  | some (.keepAlive _ hostAddr) => some { server := server, sent := [(hostAddr, keepAlivePacket)] }
  | some (.notify (out :: pending)) =>
      some
        { server := { server with tasks := server.tasks.set i (.notify pending) }
          sent := [out] }
  | some (.timer shutdown) =>
      some { server := { server with
        tasks := server.tasks.eraseIdx i
        closed := server.closed ++ [shutdown] } }
  | _ => none

/-- A keep-alive task sees that its shutdown channel has been used or dropped. -/
def stop (server : Server) (i : ℕ) : Option ServerStep :=
  match server.tasks[i]? with
  | some (.keepAlive shutdown _) =>
      if shutdown ∈ server.closed then
        some { server := { server with tasks := server.tasks.eraseIdx i } }
      else none
  | _ => none

end Server

end P2PNetworking.Rendezvous
