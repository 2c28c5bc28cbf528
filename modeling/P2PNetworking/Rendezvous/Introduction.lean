/-
# Two parties can always be introduced

Safety of the exchange says what a party cannot be told.  Here is the other half: whatever has
been lost, copied or asked for by others, a client whose request has not been lost can still be
told its host, and the host its client.

The server within the exchange is the server among all clients, so that what is known of its
books holds here, too.
-/

import P2PNetworking.Rendezvous.Agreement
import P2PNetworking.Rendezvous.KeepAlive

namespace P2PNetworking.Rendezvous

open P2PNetworking.Net P2PNetworking.Lib P2PNetworking.Peer

/-! ## The server within the exchange -/

/-- The lobbies that have been made, with their hosts. -/
def madeIn (trace : List Event) : List (Uuid × SocketAddr) :=
  trace.filterMap fun
    | .created code host => some (code, host)
    | _ => none

/-- What `udp_handler` has opened, without the shutdown channels. -/
def hostsIn (trace : List ServiceEvent) : List (Uuid × SocketAddr) :=
  (openedIn trace).map fun lobby => (lobby.1, lobby.2.1)

theorem codes_eq (trace : List Event) : codes trace = (madeIn trace).map Prod.fst := by
  rw [codes, madeIn, List.map_filterMap]
  congr 1
  funext event
  cases event <;> rfl

theorem mem_madeIn {trace : List Event} {code : Uuid} {host : SocketAddr} :
    (code, host) ∈ madeIn trace ↔ .created code host ∈ trace := by
  simp only [madeIn, List.mem_filterMap]
  constructor
  · rintro ⟨event, hmem, hevent⟩
    split at hevent
    · cases hevent
      exact hmem
    · cases hevent
  · exact fun hmem => ⟨_, hmem, rfl⟩

@[simp]
theorem madeIn_append (first second : List Event) :
    madeIn (first ++ second) = madeIn first ++ madeIn second := List.filterMap_append

@[simp]
theorem hostsIn_append (first second : List ServiceEvent) :
    hostsIn (first ++ second) = hostsIn first ++ hostsIn second := by
  rw [hostsIn, openedIn_append, List.map_append]
  rfl

/-- The exchange has this server, and has seen it make its lobbies. -/
structure Houses (c : Exchange × List Event) (d : Server × List ServiceEvent) : Prop where
  server : d.1 = c.1.server
  made : madeIn c.2 = hostsIn d.2

section Houses

variable {serverAddr : SocketAddr} {exchange next : Exchange} {trace events : List Event}
  {d : Server × List ServiceEvent}

/-- Nothing happens at the server. -/
theorem Houses.rest (h : Houses (exchange, trace) d) (hserver : next.server = exchange.server)
    (hevents : madeIn events = []) : Houses (next, trace ++ events) d where
  server := h.server.trans hserver.symm
  made := by rw [madeIn_append, hevents, List.append_nil, h.made]

/-- The server takes a step. -/
theorem Houses.serve (h : Houses (exchange, trace) d) {step : Option ServerStep}
    (hstep : exchange.atServer serverAddr step = some (next, events)) {action : ServiceAction}
    (hservice : ∀ done, step = some done → ∃ seen,
      exchange.server.service action = some (done.server, seen) ∧
        hostsIn seen = done.opened.toList) :
    ∃ actions d', serviceMachine.exec d actions = some d' ∧ Houses (next, trace ++ events) d' := by
  obtain ⟨done, hdone, hsame⟩ := Option.map_eq_some_iff.mp hstep
  cases hsame
  obtain ⟨seen, hseen, hopened⟩ := hservice done hdone
  rw [← h.server] at hseen
  refine ⟨[action], _, Machine.exec_singleton _ (Machine.traced_step.mpr ⟨_, _, hseen, rfl⟩),
    rfl, ?_⟩
  rw [madeIn_append, hostsIn_append, h.made, hopened, ServerStep.events]
  cases done.opened <;> rfl

/-- A party does something. -/
theorem server_atParty {addr : SocketAddr} {incoming : Incoming}
    (hstep : exchange.atParty addr incoming = some (next, events)) :
    next.server = exchange.server ∧ madeIn events = [] := by
  unfold Exchange.atParty at hstep
  split at hstep
  · cases hstep
    exact ⟨rfl, rfl⟩
  · next party hparty =>
    cases hstep
    refine ⟨rfl, ?_⟩
    show madeIn (Exchange.returns addr party (party.receive incoming).1) = []
    rcases Exchange.returns_eq addr party (party.receive incoming).1 with hnone | ⟨found, hsome⟩
    · rw [hnone]
      rfl
    · rw [hsome]
      cases party <;> rfl

/-- A call begins. -/
theorem server_start {addr : SocketAddr} {party : Party} {request : Outgoing}
    (hstep : exchange.start serverAddr addr party request = some (next, events)) :
    next.server = exchange.server ∧ madeIn events = [] := by
  unfold Exchange.start at hstep
  split at hstep
  · cases hstep
    cases party <;> exact ⟨rfl, rfl⟩
  · cases hstep

/-- What is read opens a lobby, or does not. -/
theorem service_receive {server : Server} {request : Request} {done : ServerStep}
    (hdone : server.receive request = some done) : ∃ seen,
      server.service (.receive request) = some (done.server, seen) ∧
        hostsIn seen = done.opened.toList := by
  refine ⟨_, by simp [Server.service, hdone]; rfl, ?_⟩
  cases done.opened <;> simp [hostsIn, openedIn]

/-- The manager and the tasks open no lobbies. -/
theorem service_manage {server : Server} {done : ServerStep} (hdone : server.manage = some done) :
    ∃ seen, server.service .manage = some (done.server, seen) ∧
      hostsIn seen = done.opened.toList := by
  cases hinbox : server.inbox with
  | nil => simp [Server.manage, hinbox] at hdone
  | cons entry inbox =>
      obtain ⟨message, channel⟩ := entry
      refine ⟨_, by simp [Server.service, hinbox, hdone]; rfl, ?_⟩
      simp only [Server.manage, hinbox] at hdone
      cases message <;> cases hdone <;> rfl

theorem service_run {server : Server} {i : ℕ} {done : ServerStep}
    (hdone : server.run i = some done) : ∃ seen,
      server.service (.run i) = some (done.server, seen) ∧ hostsIn seen = done.opened.toList := by
  refine ⟨_, by simp [Server.service, hdone]; rfl, ?_⟩
  simp only [Server.run] at hdone
  simp only [Server.runEvents]
  split at hdone <;> cases hdone
  · next htask => simp [htask, hostsIn, openedIn]
  · next htask => simp [htask, hostsIn, openedIn]
  · next htask => simp [htask, hostsIn, openedIn]

theorem service_stop {server : Server} {i : ℕ} {done : ServerStep}
    (hdone : server.stop i = some done) : ∃ seen,
      server.service (.stop i) = some (done.server, seen) ∧ hostsIn seen = done.opened.toList := by
  simp only [Server.stop] at hdone
  split at hdone
  · next shutdown hostAddr htask =>
    split at hdone
    · next hclosed =>
      cases hdone
      exact ⟨[.stopped shutdown hostAddr], by simp [Server.service, Server.stop, htask, hclosed],
        rfl⟩
    · cases hdone
  · cases hdone

theorem Houses.step (h : Houses (exchange, trace) d) {action : Action}
    (hstep : exchange.step serverAddr action = some (next, events)) :
    ∃ actions d', serviceMachine.exec d actions = some d' ∧ Houses (next, trace ++ events) d' := by
  cases action with
  | listen host =>
      obtain ⟨hserver, hevents⟩ := server_start hstep
      exact ⟨[], d, rfl, h.rest hserver hevents⟩
  | ask client code =>
      obtain ⟨hserver, hevents⟩ := server_start hstep
      exact ⟨[], d, rfl, h.rest hserver hevents⟩
  | deliver datagram fresh =>
      simp only [Exchange.step] at hstep
      split at hstep
      · split at hstep
        · have hless : Houses ({ exchange with
            inFlight := exchange.inFlight.erase datagram }, trace) d := ⟨h.server, h.made⟩
          exact hless.serve hstep fun done => service_receive
        · obtain ⟨hserver, hevents⟩ := server_atParty hstep
          exact ⟨[], d, rfl, h.rest hserver hevents⟩
      · cases hstep
  | duplicate datagram =>
      simp only [Exchange.step] at hstep
      split at hstep
      · cases hstep
        exact ⟨[], d, rfl, h.rest rfl rfl⟩
      · cases hstep
  | lose datagram =>
      simp only [Exchange.step] at hstep
      split at hstep
      · cases hstep
        exact ⟨[], d, rfl, h.rest rfl rfl⟩
      · cases hstep
  | fail addr =>
      obtain ⟨hserver, hevents⟩ := server_atParty hstep
      exact ⟨[], d, rfl, h.rest hserver hevents⟩
  | manage => exact h.serve hstep fun done => service_manage
  | run i => exact h.serve hstep fun done => service_run
  | stop i => exact h.serve hstep fun done => service_stop

end Houses

theorem exists_houses {serverAddr : SocketAddr} {c : Exchange × List Event}
    (hc : (exchangeMachine serverAddr).Reachable c) :
    ∃ d, serviceMachine.Reachable d ∧ Houses c d := by
  have hinit : Houses (exchangeMachine serverAddr).init serviceMachine.init := ⟨rfl, rfl⟩
  refine Machine.Reachable.simulate hinit ?_ hc
  rintro ⟨exchange, trace⟩ d action c' - - hhouses hstep
  obtain ⟨next, events, hnext, rfl⟩ := Machine.traced_step.mp hstep
  exact hhouses.step hnext

/-! ## What the server does for a client -/

section Server

variable {serverAddr : SocketAddr} {server : Server}

/-- Once the channel to the manager is empty, the manager has every lobby. -/
theorem exists_session {c : Exchange × List Event} (hc : (exchangeMachine serverAddr).Reachable c)
    (hfresh : FreshCodes c.2) (hinbox : c.1.server.inbox = []) {code : Uuid} {host : SocketAddr}
    (hcreated : .created code host ∈ c.2) :
    ∃ session, c.1.server.manager.session.lookup code = some session ∧
      session.hostAddr = host := by
  obtain ⟨d, hd, hserver, hmade⟩ := exists_houses hc
  obtain ⟨e, he, hmanages⟩ := exists_manages hd
  have hopened : openedIn d.2 = createdIn e.2 := by
    rw [(tended_of_reachable hd).opened, hserver, hinbox, hmanages.trace]
    exact List.append_nil _
  have hcodes : (createdCodes e.2).Nodup := by
    rw [createdCodes_eq, ← hopened]
    have hnodup := hfresh.1
    rw [codes_eq, hmade, hostsIn, List.map_map] at hnodup
    exact hnodup
  have hhost : (code, host) ∈ hostsIn d.2 := hmade ▸ mem_madeIn.mpr hcreated
  obtain ⟨⟨_, _, shutdown⟩, hmem, hsame⟩ := List.mem_map.mp hhost
  obtain ⟨rfl, rfl⟩ := Prod.mk.inj hsame
  obtain ⟨dropped, hevent⟩ := mem_createdIn.mp (hopened ▸ hmem)
  have hsession := (host_sessionAfter hcodes _ _).mpr ⟨shutdown, dropped, hevent⟩
  rw [← lookup_eq_sessionAfter he, hmanages.manager, hserver] at hsession
  exact Option.map_eq_some_iff.mp hsession

/-- The server that waits for nothing takes a join. -/
theorem receive_join (hinbox : server.inbox = []) (hjoining : server.joining = none)
    (client : SocketAddr) (code fresh : Uuid) : ∃ handler,
      server.receive ⟨client, Peer.lobbyJoin :: code.toList, fresh⟩ = some { server := { server with
        handler := handler
        channels := server.channels + 1
        inbox := [(.joinLobby code client, server.channels)]
        joining := some client } } := by
  have hcode : Uuid.fromSlice (((Peer.lobbyJoin :: code.toList).drop 1).take 16) = some code := by
    rw [Uuid.fromSlice_eq_some, List.drop_succ_cons, List.drop_zero]
    exact (List.take_of_length_le (by simp)).symm
  have hmessage : (server.handler.handle ⟨client, Peer.lobbyJoin :: code.toList, fresh⟩).2 =
      some (.joinLobby code client) := by
    simp only [UdpHandler.handle]
    rw [message, UdpHandler.head_fill_of_ne_nil (by simp),
      UdpHandler.code_fill_of_le (by simp), hcode]
    rfl
  refine ⟨(server.handler.handle ⟨client, Peer.lobbyJoin :: code.toList, fresh⟩).1, ?_⟩
  simp [Server.receive, hjoining, hmessage, hinbox, channelCapacity]

/-- The manager answers it, and a task will tell both sides. -/
theorem manage_join {code : Uuid} {client : SocketAddr} {channel : ℕ}
    (hinbox : server.inbox = [(.joinLobby code client, channel)])
    (hjoining : server.joining = some client) {session : Session}
    (hsession : server.manager.session.lookup code = some session) : ∃ (next : Server) (i : ℕ),
      server.manage = some { server := next } ∧
        next.tasks[i]? = some (.notify (notification client session.hostAddr)) := by
  have hresponse : (server.manager.handle channel (.joinLobby code client)).response =
      some session.hostAddr := by
    simp [RelayManager.handle, hsession]
  refine ⟨_, (server.tasks ++ (server.manager.handle channel
    (.joinLobby code client)).timer.toList.map Task.timer).length,
    by simp only [Server.manage, hinbox]; rfl, ?_⟩
  simp [Server.resume, hjoining, hresponse]

end Server

/-! ## The way to the two parties -/

/-- Datagrams arrive, and the server goes on. -/
def Action.Proceeds : Action → Prop
  | .deliver _ _ | .manage | .run _ => True
  | .listen _ | .ask _ _ | .duplicate _ | .lose _ | .fail _ | .stop _ => False

section Way

variable {serverAddr : SocketAddr} {exchange : Exchange} {trace : List Event}

/-- Nothing is sent and no lobby is opened when a request is read, -/
theorem step_deliver_server {src : SocketAddr} {bytes : List UInt8} {fresh : Uuid} {next : Server}
    (hmem : ⟨src, serverAddr, bytes⟩ ∈ exchange.inFlight)
    (hreceive : exchange.server.receive ⟨src, bytes, fresh⟩ = some { server := next }) :
    (exchangeMachine serverAddr).step (exchange, trace) (.deliver ⟨src, serverAddr, bytes⟩ fresh) =
      some (⟨next, exchange.parties, exchange.inFlight.erase ⟨src, serverAddr, bytes⟩⟩, trace) := by
  refine Machine.traced_step.mpr
    ⟨⟨next, exchange.parties, exchange.inFlight.erase ⟨src, serverAddr, bytes⟩⟩, [], ?_, by simp⟩
  simp [Exchange.step, hmem, Exchange.atServer, hreceive, ServerStep.events, Exchange.wire]

/-- nor when the manager takes a message. -/
theorem step_manage {next : Server} (hmanage : exchange.server.manage = some { server := next }) :
    (exchangeMachine serverAddr).step (exchange, trace) .manage =
      some ({ exchange with server := next }, trace) := by
  refine Machine.traced_step.mpr ⟨{ exchange with server := next }, [], ?_, by simp⟩
  simp [Exchange.step, Exchange.atServer, hmanage, ServerStep.events, Exchange.wire]

/-- The manager sends nothing, so its steps leave the rest of the exchange as it is. -/
theorem exec_manages {n : ℕ} {seen : List ServiceEvent} {d : Server × List ServiceEvent}
    (hexec : serviceMachine.exec (exchange.server, seen) (List.replicate n .manage) = some d) :
    (exchangeMachine serverAddr).exec (exchange, trace) (List.replicate n .manage) =
      some ({ exchange with server := d.1 }, trace) := by
  induction n generalizing exchange seen with
  | zero =>
      cases hexec
      rfl
  | succ n ih =>
      rw [List.replicate_succ, Machine.exec_cons] at hexec
      obtain ⟨⟨server, more⟩, hstep, hrest⟩ := Option.bind_eq_some_iff.mp hexec
      obtain ⟨next, events, hnext, hsame⟩ := Machine.traced_step.mp hstep
      cases hsame
      have hmanage : exchange.server.manage = some { server := server } := by
        simp only [Server.service, Server.manage] at hnext
        simp only [Server.manage]
        cases hinbox : exchange.server.inbox with
        | nil => simp [hinbox] at hnext
        | cons entry inbox =>
            obtain ⟨message, channel⟩ := entry
            simp only [hinbox] at hnext
            cases message <;> cases hnext <;> rfl
      rw [List.replicate_succ, Machine.exec_cons, step_manage hmanage]
      exact ih hrest

/-- A notification is sent. -/
theorem exec_notifies {i : ℕ} {pending : List Outgoing}
    (htask : exchange.server.tasks[i]? = some (.notify pending)) : ∃ server,
      (exchangeMachine serverAddr).exec (exchange, trace) (List.replicate pending.length (.run i)) =
        some ({ exchange with
          server := server
          inFlight := exchange.inFlight ++ Exchange.wire serverAddr pending }, trace) := by
  induction pending generalizing exchange with
  | nil => exact ⟨exchange.server, by simp [Exchange.wire]⟩
  | cons out pending ih =>
      obtain ⟨hlt, -⟩ := List.getElem?_eq_some_iff.mp htask
      have hstep : (exchangeMachine serverAddr).step (exchange, trace) (.run i) =
          some ({ exchange with
            server := { exchange.server with
              tasks := exchange.server.tasks.set i (.notify pending) }
            inFlight := exchange.inFlight ++ Exchange.wire serverAddr [out] }, trace) := by
        refine Machine.traced_step.mpr ⟨_, [], ?_, by simp; rfl⟩
        simp [Exchange.step, Exchange.atServer, Server.run, htask, ServerStep.events]
      obtain ⟨server, hexec⟩ := @ih { exchange with
        server := { exchange.server with tasks := exchange.server.tasks.set i (.notify pending) }
        inFlight := exchange.inFlight ++ Exchange.wire serverAddr [out] } (by simp [hlt])
      refine ⟨server, ?_⟩
      rw [List.length_cons, List.replicate_succ, Machine.exec_cons, hstep, Option.bind_some, hexec,
        List.append_assoc, Exchange.wire, Exchange.wire, ← List.map_append]
      rfl

/-- A datagram of the server arrives at a party. -/
theorem step_deliver_party {addr : SocketAddr} {bytes : List UInt8} {party : Party}
    (hmem : ⟨serverAddr, addr, bytes⟩ ∈ exchange.inFlight)
    (hparty : exchange.parties.lookup addr = some party) (hne : addr ≠ serverAddr) : ∃ inFlight,
      (exchangeMachine serverAddr).step (exchange, trace)
          (.deliver ⟨serverAddr, addr, bytes⟩ (.replicate 16 0)) =
        some ({ exchange with
          parties := exchange.parties.insert addr
            (party.receive (.datagram serverAddr bytes)).1
          inFlight := inFlight },
          trace ++ Exchange.returns addr party (party.receive (.datagram serverAddr bytes)).1) ∧
      ∀ datagram ∈ exchange.inFlight, datagram.dst ≠ addr → datagram ∈ inFlight := by
  refine ⟨exchange.inFlight.erase ⟨serverAddr, addr, bytes⟩ ++
    Exchange.wire addr (party.receive (.datagram serverAddr bytes)).2,
    Machine.traced_step.mpr ⟨_, _, ?_, rfl⟩, fun datagram hother hdst => ?_⟩
  · simp only [Exchange.step, if_pos hmem, if_neg hne, Exchange.atParty, hparty]
  · refine List.mem_append_left _ ((List.mem_erase_of_ne ?_).mpr hother)
    rintro rfl
    exact hdst rfl

/-- The server reads a request while it waits for nothing, and tells both sides. -/
theorem canReach_told_of_idle {client : SocketAddr} {code : Uuid} {session : Session}
    (hinbox : exchange.server.inbox = []) (hjoining : exchange.server.joining = none)
    (hsession : exchange.server.manager.session.lookup code = some session)
    (hrequest : ⟨client, serverAddr, Peer.lobbyJoin :: code.toList⟩ ∈ exchange.inFlight) :
    (exchangeMachine serverAddr).CanReach Action.Proceeds (exchange, trace) fun d =>
      d.1.parties = exchange.parties ∧ d.2 = trace ∧
        ⟨serverAddr, client, session.hostAddr.toText⟩ ∈ d.1.inFlight ∧
        ⟨serverAddr, session.hostAddr, client.toText⟩ ∈ d.1.inFlight := by
  obtain ⟨handler, hreceive⟩ := receive_join hinbox hjoining client code (.replicate 16 0)
  obtain ⟨next, i, hmanage, htask⟩ := @manage_join { exchange.server with
    handler := handler
    channels := exchange.server.channels + 1
    inbox := [(.joinLobby code client, exchange.server.channels)]
    joining := some client } code client exchange.server.channels rfl rfl session hsession
  obtain ⟨server, hexec⟩ := @exec_notifies serverAddr ⟨next, exchange.parties,
    exchange.inFlight.erase ⟨client, serverAddr, Peer.lobbyJoin :: code.toList⟩⟩ trace i _ htask
  refine .cons ?_ (step_deliver_server hrequest hreceive) (.cons ?_ (step_manage hmanage)
    ⟨_, _, fun action hmem => ?_, hexec, rfl, rfl, ?_, ?_⟩)
  · trivial
  · trivial
  · rw [List.eq_of_mem_replicate hmem]
    trivial
  · exact List.mem_append_right _ (Exchange.mem_wire.mpr
      ⟨(client, session.hostAddr.toText), by simp [notification], rfl⟩)
  · exact List.mem_append_right _ (Exchange.mem_wire.mpr
      ⟨(session.hostAddr, client.toText), by simp [notification], rfl⟩)

/-- So it does from every state that it can be in. -/
theorem canReach_told {c : Exchange × List Event} (hc : (exchangeMachine serverAddr).Reachable c)
    (hfresh : FreshCodes c.2) {code : Uuid} {client host : SocketAddr}
    (hcreated : .created code host ∈ c.2)
    (hrequest : ⟨client, serverAddr, Peer.lobbyJoin :: code.toList⟩ ∈ c.1.inFlight) :
    (exchangeMachine serverAddr).CanReach Action.Proceeds c fun d =>
      d.1.parties = c.1.parties ∧ d.2 = c.2 ∧
        ⟨serverAddr, client, host.toText⟩ ∈ d.1.inFlight ∧
        ⟨serverAddr, host, client.toText⟩ ∈ d.1.inFlight := by
  obtain ⟨⟨server, seen⟩, hd, hserver, -⟩ := exists_houses hc
  cases hserver
  obtain ⟨⟨idle, after⟩, hidle, hinbox, hjoining⟩ :=
    exec_manage (patient_of_reachable hd).awaits seen
  have hempty : (exchangeMachine serverAddr).exec c _ = some ({ c.1 with server := idle }, c.2) :=
    exec_manages hidle
  obtain ⟨session, hsession, rfl⟩ := exists_session (hc.exec hempty) hfresh hinbox hcreated
  refine Machine.CanReach.trans ⟨_, _, fun action hmem => ?_, hempty, rfl⟩ fun d hd => ?_
  · rw [List.eq_of_mem_replicate hmem]
    trivial
  · exact hd ▸ canReach_told_of_idle hinbox hjoining hsession hrequest

/-! ## Both return -/

/-- A client waits for an address. -/
def Exchange.ClientWaits (exchange : Exchange) (client : SocketAddr) (code : Uuid) : Prop :=
  ∃ call, exchange.parties.lookup client = some (.client code call) ∧ call.result = .waiting

/-- A host waits for an address, and its first receive, which takes a short datagram that is no code
for a reason to panic, is over or can still be given the code. -/
def Exchange.HostWaits (serverAddr : SocketAddr) (exchange : Exchange) (host : SocketAddr)
    (code : Uuid) : Prop :=
  ∃ call, exchange.parties.lookup host = some (.host call) ∧ call.result = .waiting ∧
    (call.firstOver = true ∨ ⟨serverAddr, host, code.toList⟩ ∈ exchange.inFlight)

instance (exchange : Exchange) (client : SocketAddr) (code : Uuid) :
    Decidable (exchange.ClientWaits client code) :=
  match h : exchange.parties.lookup client with
  | none => .isFalse fun ⟨_, hparty, _⟩ => by cases h.symm.trans hparty
  | some (.host _) => .isFalse fun ⟨_, hparty, _⟩ => by cases h.symm.trans hparty
  | some (.client _ call) => decidable_of_iff (_ = code ∧ call.result = .waiting)
      ⟨fun ⟨hcode, hwaiting⟩ => ⟨call, hcode ▸ h, hwaiting⟩, fun ⟨_, hparty, hwaiting⟩ => by
        cases h.symm.trans hparty
        exact ⟨rfl, hwaiting⟩⟩

instance (serverAddr : SocketAddr) (exchange : Exchange) (host : SocketAddr) (code : Uuid) :
    Decidable (exchange.HostWaits serverAddr host code) :=
  match h : exchange.parties.lookup host with
  | none => .isFalse fun ⟨_, hparty, _⟩ => by cases h.symm.trans hparty
  | some (.client _ _) => .isFalse fun ⟨_, hparty, _⟩ => by cases h.symm.trans hparty
  | some (.host call) => decidable_of_iff (call.result = .waiting ∧
      (call.firstOver = true ∨ ⟨serverAddr, host, code.toList⟩ ∈ exchange.inFlight))
      ⟨fun hcall => ⟨call, h, hcall⟩, fun ⟨_, hparty, hcall⟩ => by
        cases h.symm.trans hparty
        exact hcall⟩

/-- A party that waits returns with the address that it is told. -/
theorem canReach_returned {addr found : SocketAddr} {party : Party}
    (hmem : ⟨serverAddr, addr, found.toText⟩ ∈ exchange.inFlight)
    (hparty : exchange.parties.lookup addr = some party) (hne : addr ≠ serverAddr)
    (hwaiting : party.result = .waiting)
    (hreturned : (party.receive (.datagram serverAddr found.toText)).1.result = .returned found) :
    (exchangeMachine serverAddr).CanReach Action.Proceeds (exchange, trace) fun d =>
      d.2 = trace ++ [party.returned addr found] ∧
      (∀ other, other ≠ addr → d.1.parties.lookup other = exchange.parties.lookup other) ∧
      ∀ datagram ∈ exchange.inFlight, datagram.dst ≠ addr → datagram ∈ d.1.inFlight := by
  obtain ⟨inFlight, hstep, hkept⟩ := step_deliver_party hmem hparty hne
  refine .one ?_ hstep ⟨?_, fun other hother => ?_, hkept⟩
  · trivial
  · rw [Exchange.returns, hwaiting, hreturned]
  · rw [Table.lookup_insert_eq_ite, if_neg hother]

/-- A host that waits comes to wait for an address. -/
theorem canReach_listening {host : SocketAddr} {code : Uuid} (hne : host ≠ serverAddr)
    (hhost : exchange.HostWaits serverAddr host code) :
    (exchangeMachine serverAddr).CanReach Action.Proceeds (exchange, trace) fun d =>
      d.2 = trace ∧
      (∃ call, d.1.parties.lookup host = some (.host call) ∧ call.result = .waiting ∧
        call.firstOver = true) ∧
      (∀ other, other ≠ host → d.1.parties.lookup other = exchange.parties.lookup other) ∧
      ∀ datagram ∈ exchange.inFlight, datagram.dst ≠ host → datagram ∈ d.1.inFlight := by
  obtain ⟨call, hparty, hwaiting, hready⟩ := hhost
  cases hover : call.firstOver with
  | true =>
      exact .here ⟨rfl, ⟨call, hparty, hwaiting, hover⟩, fun _ _ => rfl, fun _ hmem _ => hmem⟩
  | false =>
      have hmem := hready.resolve_left (by simp [hover])
      obtain ⟨inFlight, hstep, hkept⟩ := step_deliver_party hmem hparty hne
      have hfirst := ListenToRelay.firstOver_receive hwaiting (.datagram serverAddr code.toList)
      have hresult : (call.receive (.datagram serverAddr code.toList)).1.result = .waiting := by
        rw [ListenToRelay.result_receive_first hwaiting hover, if_pos (by simp [Peer.bufSize])]
      refine .one ?_ hstep ⟨?_, ⟨_, AList.lookup_insert _, hresult, hfirst⟩,
        fun other hother => ?_, hkept⟩
      · trivial
      · simp [Exchange.returns, Party.receive, Party.result, hwaiting, hresult]
      · rw [Table.lookup_insert_eq_ite, if_neg hother]

end Way

section Introduction

variable {serverAddr : SocketAddr} {c : Exchange × List Event}

/-- Who has sent a request has begun a call. -/
theorem asked_of_request (hsound : c.1.Sound serverAddr c.2) {client : SocketAddr} {code : Uuid}
    (hrequest : ⟨client, serverAddr, Peer.lobbyJoin :: code.toList⟩ ∈ c.1.inFlight) :
    .asked client code ∈ c.2 := by
  rcases hsound.inFlight _ hrequest with ⟨-, hcarried⟩ | ⟨-, hsent⟩
  · generalize hbytes : Peer.lobbyJoin :: code.toList = bytes at hcarried
    cases hcarried with
    | create => cases hbytes
    | join hasked => exact Vector.toList_inj.mp (List.cons.inj hbytes).2 ▸ hasked
    | echo => cases hbytes
  · exact absurd rfl hsent.1

/-- A client whose request is under way can come back with its host, and the host is on its way to
learn of it. -/
theorem canReach_clientReturned (hc : (exchangeMachine serverAddr).Reachable c)
    (hfresh : FreshCodes c.2) {code : Uuid} {client host : SocketAddr}
    (hcreated : .created code host ∈ c.2) (hclient : c.1.ClientWaits client code)
    (hrequest : ⟨client, serverAddr, Peer.lobbyJoin :: code.toList⟩ ∈ c.1.inFlight) :
    (exchangeMachine serverAddr).CanReach Action.Proceeds c fun d =>
      .clientReturned client code host ∈ d.2 ∧
      ∀ call, c.1.parties.lookup host = some (.host call) →
        d.1.parties.lookup host = some (.host call) ∧
          ⟨serverAddr, host, client.toText⟩ ∈ d.1.inFlight := by
  have hsound := sound_of_reachable hc hfresh
  have hne := (hsound.history.asked _ _ (asked_of_request hsound hrequest)).2
  have hipv4 := (hsound.history.listened _ (hsound.history.created _ _ hcreated).2).1
  obtain ⟨call, hparty, hwaiting⟩ := hclient
  refine (canReach_told hc hfresh hcreated hrequest).trans ?_
  rintro ⟨told, trace⟩ ⟨hparties, rfl, htold, hother⟩
  dsimp only at hparties htold hother
  have hreturned := RequestHostAddr.result_receive_of_fromStr hwaiting
    (fromStr_take_of_isIpv4 hipv4) serverAddr
  have hclient : told.parties.lookup client = some (.client code call) := hparties ▸ hparty
  refine (canReach_returned htold hclient hne hwaiting hreturned).mono ?_
  rintro ⟨next, trace⟩ ⟨rfl, hlookup, hkept⟩
  refine ⟨List.mem_append_right _ List.mem_cons_self, fun waits hhost => ?_⟩
  have hdiffer : host ≠ client := by
    rintro rfl
    cases hhost.symm.trans hparty
  exact ⟨(hlookup host hdiffer).trans (hparties ▸ hhost), hkept _ hother hdiffer⟩

/-- Whatever else has happened, a client that waits can be told the host of its lobby as long as
its request is under way, and the host, if it waits too, can be told the client. -/
theorem canReach_introduced (hc : (exchangeMachine serverAddr).Reachable c)
    (hfresh : FreshCodes c.2) {code : Uuid} {client host : SocketAddr}
    (hcreated : .created code host ∈ c.2) (hclient : c.1.ClientWaits client code)
    (hrequest : ⟨client, serverAddr, (RequestHostAddr.request serverAddr code).2⟩ ∈ c.1.inFlight) :
    (exchangeMachine serverAddr).CanReach Action.Proceeds c fun d =>
      .clientReturned client code host ∈ d.2 ∧
        (c.1.HostWaits serverAddr host code → .hostReturned host client ∈ d.2) := by
  have hsound := sound_of_reachable hc hfresh
  by_cases hhost : c.1.HostWaits serverAddr host code
  · have hne := (hsound.history.listened _ (hsound.history.created _ _ hcreated).2).2
    have hipv4 := (hsound.history.asked _ _ (asked_of_request hsound hrequest)).1
    refine ((canReach_listening hne hhost).keeping hc fun s a t hs _ => hs.step).trans ?_
    rintro ⟨ready, trace⟩ ⟨⟨htrace, ⟨call, hparty, hwaiting, hfirst⟩, hlookup, hkept⟩, hready⟩
    cases htrace
    have hclient' : ready.ClientWaits client code := by
      obtain ⟨asking, hasking, hresult⟩ := hclient
      refine ⟨asking, (hlookup client ?_).trans hasking, hresult⟩
      rintro rfl
      obtain ⟨_, hparty, -⟩ := hhost
      cases hparty.symm.trans hasking
    refine (canReach_clientReturned hready hfresh hcreated hclient'
      (hkept _ hrequest hne.symm)).trans ?_
    rintro ⟨next, trace⟩ ⟨hreturned, htold⟩
    obtain ⟨hparty', hmem⟩ := htold call hparty
    have hresult : (call.receive (.datagram serverAddr client.toText)).1.result =
        .returned client := by
      rw [ListenToRelay.result_receive hwaiting hfirst, fromStr_take_of_isIpv4 hipv4]
      rfl
    refine (canReach_returned hmem hparty' hne hwaiting hresult).mono ?_
    rintro ⟨last, trace⟩ ⟨rfl, -, -⟩
    exact ⟨List.mem_append_left _ hreturned, fun _ => List.mem_append_right _ List.mem_cons_self⟩
  · exact (canReach_clientReturned hc hfresh hcreated hclient hrequest).mono fun d hd =>
      ⟨hd.1, fun hwaits => absurd hwaits hhost⟩

/-- Two clients ask for one lobby; one of the requests is lost, and the other client's
`recv_from` fails, before the host has read its code. -/
def lossyIntroduction : List Action :=
  [.listen theHost, .ask firstClient theCode, .ask secondClient theCode, toServer theHost [0],
    .lose ⟨secondClient, theServer, 1 :: theCode.toList⟩, .fail firstClient]

theorem canReach_introduced_lossyIntroduction : ∃ c,
    (exchangeMachine theServer).exec (exchangeMachine theServer).init lossyIntroduction = some c ∧
      c.1.HostWaits theServer theHost theCode ∧
      (exchangeMachine theServer).CanReach Action.Proceeds c fun d =>
        .clientReturned firstClient theCode theHost ∈ d.2 ∧
          (c.1.HostWaits theServer theHost theCode → .hostReturned theHost firstClient ∈ d.2) := by
  obtain ⟨c, hexec, hfresh, hcreated, hclient, hhost, hrequest⟩ :
      ∃ c ∈ (exchangeMachine theServer).exec (exchangeMachine theServer).init lossyIntroduction,
        FreshCodes c.2 ∧ .created theCode theHost ∈ c.2 ∧ c.1.ClientWaits firstClient theCode ∧
          c.1.HostWaits theServer theHost theCode ∧
          ⟨firstClient, theServer, (RequestHostAddr.request theServer theCode).2⟩ ∈
            c.1.inFlight := by decide +kernel
  exact ⟨c, hexec, hhost,
    canReach_introduced ⟨lossyIntroduction, hexec⟩ hfresh hcreated hclient hrequest⟩

end Introduction

end P2PNetworking.Rendezvous
