/-
# The rendezvous server among all clients

The server by itself, under any datagrams and any schedule of its tasks: whom it talks to, how
much it says for what it has been told, and that its wait for an answer always ends.

`udp_handler` waits for an answer of the manager while it holds the only end of the channel
into which clients' messages go, so nothing is read meanwhile.
-/

import P2PNetworking.Rendezvous.Lobbies
import Mathlib.Algebra.Ring.Nat

namespace P2PNetworking.Rendezvous

open P2PNetworking.Net P2PNetworking.Lib
open UdpHandler (joinRequest)

/-! ## The server as a machine -/

inductive ServiceAction
  /-- `udp_handler` reads a datagram. -/
  | receive (request : Request)
  /-- The manager takes a message. -/
  | manage
  /-- A task goes on. -/
  | run (i : ℕ)
  /-- A keep-alive task sees its shutdown channel. -/
  | stop (i : ℕ)
  deriving DecidableEq

/-- What the server has been told, and what it has done. -/
inductive ServiceEvent
  | heard (src : SocketAddr)
  /-- `udp_handler` has made a code, and has started a keep-alive task. -/
  | opened (code : Uuid) (hostAddr : SocketAddr) (shutdown : ℕ)
  /-- The manager has handled a message, or a shutdown channel has been used. -/
  | lobby (event : LobbyEvent)
  | sent (out : Outgoing)
  /-- A keep-alive task has sent its packet. -/
  | pinged (hostAddr : SocketAddr)
  | stopped (shutdown : ℕ) (hostAddr : SocketAddr)
  deriving DecidableEq

/-- A join drops no shutdown channel. -/
theorem RelayManager.dropped_joinLobby (manager : RelayManager) (channel : ℕ) (code : Uuid)
    (clientAddr : SocketAddr) :
    (manager.handle channel (.joinLobby code clientAddr)).dropped = none := by
  simp only [handle]
  split <;> rfl

/-- A session has the host that it had, or the one who has just created it. -/
theorem RelayManager.hostAddr_handle {manager : RelayManager} {channel : ℕ}
    {message : MessageType} {code : Uuid} {session : Session}
    (h : (manager.handle channel message).manager.session.lookup code = some session) :
    (∃ old, manager.session.lookup code = some old ∧ old.hostAddr = session.hostAddr) ∨
      message = .createLobby code session.hostAddr := by
  cases message with
  | createLobby made hostAddr =>
      simp only [handle, Table.lookup_insert_eq_ite] at h
      split at h
      · next heq =>
        cases h
        exact .inr (heq ▸ rfl)
      · exact .inl ⟨session, h, rfl⟩
  | joinLobby asked clientAddr =>
      simp only [handle] at h
      split at h
      · exact .inl ⟨session, h, rfl⟩
      · next found hfound =>
        simp only [Table.lookup_insert_eq_ite] at h
        split at h
        · next heq =>
          cases h
          exact .inl ⟨found, heq ▸ hfound, rfl⟩
        · exact .inl ⟨session, h, rfl⟩

/-- A join is answered with the host of the session. -/
theorem RelayManager.response_joinLobby {manager : RelayManager} {channel : ℕ} {code : Uuid}
    {clientAddr hostAddr : SocketAddr}
    (h : (manager.handle channel (.joinLobby code clientAddr)).response = some hostAddr) :
    ∃ session, manager.session.lookup code = some session ∧ session.hostAddr = hostAddr := by
  simp only [handle] at h
  split at h
  · cases h
  · next session hsession =>
    cases h
    exact ⟨session, hsession, rfl⟩

/-- The client that a message is from. -/
def MessageType.addr : MessageType → SocketAddr
  | .createLobby _ hostAddr => hostAddr
  | .joinLobby _ clientAddr => clientAddr

theorem UdpHandler.addr_of_handle {handler : UdpHandler} {request : Request}
    {message : MessageType} (h : (handler.handle request).2 = some message) :
    message.addr = request.src := by
  simp only [handle, Rendezvous.message] at h
  split at h
  · cases h
    rfl
  · split at h
    · obtain ⟨code, -, rfl⟩ := Option.map_eq_some_iff.mp h
      rfl
    · cases h

namespace Server

/-- What a task's step lets one see. -/
def runEvents (server : Server) (i : ℕ) (sent : List Outgoing) : List ServiceEvent :=
  match server.tasks[i]? with
  | some (.keepAlive _ hostAddr) => [.pinged hostAddr]
  | some (.timer shutdown) => [.lobby (.fired shutdown)]
  | _ => sent.map .sent

/-- One step of the server. -/
def service (server : Server) : ServiceAction → Option (Server × List ServiceEvent)
  | .receive request =>
      (server.receive request).map fun done =>
        (done.server, .heard request.src ::
          (done.opened.toList.map fun lobby => .opened lobby.1 lobby.2 server.channels) ++
            done.sent.map .sent)
  | .manage =>
      match server.inbox with
      | [] => none
      | (message, channel) :: _ =>
          server.manage.map fun done => (done.server,
            [.lobby (Lobbies.report channel (server.manager.handle channel message) message)])
  | .run i => (server.run i).map fun done => (done.server, server.runEvents i done.sent)
  | .stop i =>
      match server.tasks[i]? with
      | some (.keepAlive shutdown hostAddr) =>
          (server.stop i).map fun done => (done.server, [.stopped shutdown hostAddr])
      | _ => none

/-- Every kind of step, with what it does. -/
inductive ServiceStep (server : Server) :
    ServiceAction → Server → List ServiceEvent → Prop
  | ignore {request : Request} (hidle : server.joining = none)
      (hmessage : (server.handler.handle request).2 = none) :
      ServiceStep server (.receive request)
        { server with handler := (server.handler.handle request).1 } [.heard request.src]
  | create {request : Request} {code : Uuid} {hostAddr : SocketAddr}
      (hidle : server.joining = none)
      (hmessage : (server.handler.handle request).2 = some (.createLobby code hostAddr))
      (hroom : server.inbox.length < channelCapacity) :
      ServiceStep server (.receive request)
        { server with
          handler := (server.handler.handle request).1
          channels := server.channels + 1
          inbox := server.inbox ++ [(.createLobby code hostAddr, server.channels)]
          tasks := server.tasks ++ [.keepAlive server.channels hostAddr] }
        [.heard request.src, .opened code hostAddr server.channels, .sent (hostAddr, code.toList)]
  | join {request : Request} {code : Uuid} {clientAddr : SocketAddr}
      (hidle : server.joining = none)
      (hmessage : (server.handler.handle request).2 = some (.joinLobby code clientAddr))
      (hroom : server.inbox.length < channelCapacity) :
      ServiceStep server (.receive request)
        { server with
          handler := (server.handler.handle request).1
          channels := server.channels + 1
          inbox := server.inbox ++ [(.joinLobby code clientAddr, server.channels)]
          joining := some clientAddr }
        [.heard request.src]
  | created {code : Uuid} {hostAddr : SocketAddr} {channel : ℕ} {inbox : List (MessageType × ℕ)}
      (hinbox : server.inbox = (.createLobby code hostAddr, channel) :: inbox) :
      ServiceStep server .manage
        { server with
          inbox := inbox
          manager := (server.manager.handle channel (.createLobby code hostAddr)).manager
          closed := server.closed ++
            (server.manager.handle channel (.createLobby code hostAddr)).dropped.toList }
        [.lobby (.created code hostAddr channel
          (server.manager.handle channel (.createLobby code hostAddr)).dropped)]
  | joined {code : Uuid} {clientAddr : SocketAddr} {channel : ℕ}
      {inbox : List (MessageType × ℕ)} {handled : Handled}
      (hinbox : server.inbox = (.joinLobby code clientAddr, channel) :: inbox)
      (hhandled : handled = server.manager.handle channel (.joinLobby code clientAddr)) :
      ServiceStep server .manage
        ({ server with
          inbox := inbox
          manager := handled.manager
          tasks := server.tasks ++ handled.timer.toList.map Task.timer }.resume handled.response)
        [.lobby (.joined code clientAddr handled.response handled.timer)]
  | ping {i shutdown : ℕ} {hostAddr : SocketAddr}
      (htask : server.tasks[i]? = some (.keepAlive shutdown hostAddr)) :
      ServiceStep server (.run i) server [.pinged hostAddr]
  | notify {i : ℕ} {out : Outgoing} {pending : List Outgoing}
      (htask : server.tasks[i]? = some (.notify (out :: pending))) :
      ServiceStep server (.run i) { server with tasks := server.tasks.set i (.notify pending) }
        [.sent out]
  | fire {i shutdown : ℕ} (htask : server.tasks[i]? = some (.timer shutdown)) :
      ServiceStep server (.run i)
        { server with
          tasks := server.tasks.eraseIdx i
          closed := server.closed ++ [shutdown] }
        [.lobby (.fired shutdown)]
  | stop {i shutdown : ℕ} {hostAddr : SocketAddr}
      (htask : server.tasks[i]? = some (.keepAlive shutdown hostAddr))
      (hclosed : shutdown ∈ server.closed) :
      ServiceStep server (.stop i) { server with tasks := server.tasks.eraseIdx i }
        [.stopped shutdown hostAddr]

variable {server next : Server} {events : List ServiceEvent}

theorem serviceStep_of_receive {request : Request}
    (hstep : server.service (.receive request) = some (next, events)) :
    server.ServiceStep (.receive request) next events := by
  simp only [service, receive, Option.map_eq_some_iff] at hstep
  obtain ⟨done, hreceive, hdone⟩ := hstep
  split at hreceive
  · cases hreceive
  · next hbusy =>
    have hidle : server.joining = none := not_not.mp hbusy
    split at hreceive
    · next hmessage =>
      cases hreceive
      cases hdone
      exact .ignore hidle hmessage
    · next message hmessage =>
      split at hreceive
      · next hroom =>
        cases message with
        | createLobby code hostAddr =>
            cases hreceive
            cases hdone
            exact .create hidle hmessage hroom
        | joinLobby code clientAddr =>
            cases hreceive
            cases hdone
            exact .join hidle hmessage hroom
      · cases hreceive

theorem serviceStep_of_manage (hstep : server.service .manage = some (next, events)) :
    server.ServiceStep .manage next events := by
  simp only [service] at hstep
  split at hstep
  · cases hstep
  · next message channel inbox hinbox =>
    simp only [manage, hinbox, Option.map_eq_some_iff] at hstep
    obtain ⟨done, hmanage, hdone⟩ := hstep
    cases message with
    | createLobby code hostAddr =>
        cases hmanage
        cases hdone
        have hnone : server.tasks ++ [].map Task.timer = server.tasks := List.append_nil _
        have hcreated := ServiceStep.created hinbox
        rw [← hnone] at hcreated
        exact hcreated
    | joinLobby code clientAddr =>
        have hclosed : server.closed ++
            (server.manager.handle channel (.joinLobby code clientAddr)).dropped.toList =
              server.closed := by
          rw [RelayManager.dropped_joinLobby]
          exact List.append_nil _
        rw [hclosed] at hmanage
        cases hmanage
        cases hdone
        exact .joined hinbox rfl

theorem serviceStep_of_run {i : ℕ} (hstep : server.service (.run i) = some (next, events)) :
    server.ServiceStep (.run i) next events := by
  simp only [service, run, runEvents, Option.map_eq_some_iff] at hstep
  obtain ⟨done, hrun, hdone⟩ := hstep
  split at hrun
  · next htask =>
    cases hrun
    rw [htask] at hdone
    cases hdone
    exact .ping htask
  · next htask =>
    cases hrun
    rw [htask] at hdone
    cases hdone
    exact .notify htask
  · next htask =>
    cases hrun
    rw [htask] at hdone
    cases hdone
    exact .fire htask
  · cases hrun

/-- Every step is of one of these kinds. -/
theorem serviceStep_of_service {action : ServiceAction}
    (hstep : server.service action = some (next, events)) :
    server.ServiceStep action next events := by
  cases action with
  | receive request => exact serviceStep_of_receive hstep
  | manage => exact serviceStep_of_manage hstep
  | run i => exact serviceStep_of_run hstep
  | stop i =>
      simp only [service] at hstep
      split at hstep
      · next shutdown hostAddr htask =>
        simp only [stop, htask, Option.map_eq_some_iff] at hstep
        obtain ⟨done, hstop, hdone⟩ := hstep
        split at hstop
        · next hclosed =>
          cases hstop
          cases hdone
          exact .stop htask hclosed
        · cases hstop
      · cases hstep

end Server

/-- The server from its start. -/
def serviceMachine : Machine (Server × List ServiceEvent) ServiceAction :=
  .traced .new Server.service

/-! ## Whom it talks to -/

/-- What an address may be told: that there is a server, the code of a lobby that it has opened,
and the address of another client. -/
inductive MayBeTold (trace : List ServiceEvent) (dst : SocketAddr) : List UInt8 → Prop
  | keepAlive : MayBeTold trace dst keepAlivePacket
  | code {code : Uuid} {shutdown : ℕ} (hopened : .opened code dst shutdown ∈ trace) :
      MayBeTold trace dst code.toList
  | address {addr : SocketAddr} (hheard : .heard addr ∈ trace) : MayBeTold trace dst addr.toText

/-- A datagram for somebody who has sent one. -/
def Answer (trace : List ServiceEvent) (out : Outgoing) : Prop :=
  .heard out.1 ∈ trace ∧ MayBeTold trace out.1 out.2

def Task.Discreet (trace : List ServiceEvent) : Task → Prop
  | .keepAlive _ hostAddr => .heard hostAddr ∈ trace
  | .notify pending => ∀ out ∈ pending, Answer trace out
  | .timer _ => True

/-- Every address that the server knows is one that it has heard from. -/
structure Server.Discreet (server : Server) (trace : List ServiceEvent) : Prop where
  inbox : ∀ entry ∈ server.inbox, .heard entry.1.addr ∈ trace
  joining : ∀ addr, server.joining = some addr → .heard addr ∈ trace
  sessions : ∀ code session, server.manager.session.lookup code = some session →
    .heard session.hostAddr ∈ trace
  tasks : ∀ task ∈ server.tasks, task.Discreet trace

section Discreet

variable {trace trace' : List ServiceEvent}

theorem Answer.mono (hsubset : trace ⊆ trace') {out : Outgoing} (h : Answer trace out) :
    Answer trace' out := by
  obtain ⟨dst, bytes⟩ := out
  obtain ⟨hdst, hbytes⟩ := h
  refine ⟨hsubset hdst, ?_⟩
  cases hbytes with
  | keepAlive => exact .keepAlive
  | code hopened => exact .code (hsubset hopened)
  | address hheard => exact .address (hsubset hheard)

theorem Task.Discreet.mono (hsubset : trace ⊆ trace') {task : Task} (h : task.Discreet trace) :
    task.Discreet trace' := by
  cases task with
  | keepAlive shutdown hostAddr => exact hsubset h
  | notify pending => exact fun out hmem => (h out hmem).mono hsubset
  | timer shutdown => trivial

theorem answer_notification {clientAddr hostAddr : SocketAddr} (hclient : .heard clientAddr ∈ trace)
    (hhost : .heard hostAddr ∈ trace) :
    ∀ out ∈ notification clientAddr hostAddr, Answer trace out := by
  intro out hmem
  rcases List.mem_append.mp hmem with hmem | hmem
  · rw [List.eq_of_mem_replicate hmem]
    exact ⟨hclient, .keepAlive⟩
  · simp only [List.mem_cons, List.not_mem_nil, or_false] at hmem
    rcases hmem with rfl | rfl
    · exact ⟨hclient, .address hhost⟩
    · exact ⟨hhost, .address hclient⟩

namespace Server.Discreet

variable {server : Server}

theorem mono (hsubset : trace ⊆ trace') (h : server.Discreet trace) : server.Discreet trace' where
  inbox entry hmem := hsubset (h.inbox entry hmem)
  joining addr hjoining := hsubset (h.joining addr hjoining)
  sessions code session hlookup := hsubset (h.sessions code session hlookup)
  tasks task hmem := (h.tasks task hmem).mono hsubset

theorem new : Server.new.Discreet [] := by
  refine ⟨?_, nofun, fun code session hlookup => ?_, ?_⟩
  · simp [Server.new]
  · cases hlookup
  · simp [Server.new]

/-- The manager has handled a message. -/
theorem handle (h : server.Discreet trace) {message : MessageType} {channel : ℕ}
    {inbox : List (MessageType × ℕ)} (hinbox : server.inbox = (message, channel) :: inbox)
    {tasks : List Task} (htasks : ∀ task ∈ tasks, task.Discreet trace) {closed : List ℕ} :
    Server.Discreet { server with
      inbox := inbox
      manager := (server.manager.handle channel message).manager
      tasks := server.tasks ++ tasks
      closed := closed } trace where
  inbox entry hmem := h.inbox entry (hinbox ▸ List.mem_cons_of_mem _ hmem)
  joining := h.joining
  sessions code session hlookup := by
    rcases RelayManager.hostAddr_handle hlookup with ⟨old, hold, hhost⟩ | rfl
    · rw [← hhost]
      exact h.sessions code old hold
    · exact h.inbox _ (hinbox ▸ List.mem_cons_self)
  tasks task hmem := (List.mem_append.mp hmem).elim (h.tasks task) (htasks task)

/-- `udp_handler` goes on. -/
theorem resume (h : server.Discreet trace) {response : Option SocketAddr}
    (hresponse : ∀ hostAddr, response = some hostAddr → .heard hostAddr ∈ trace) :
    (server.resume response).Discreet trace := by
  unfold Server.resume
  split
  · next clientAddr hostAddr hjoining =>
    refine ⟨h.inbox, nofun, h.sessions, fun task hmem => ?_⟩
    rcases List.mem_append.mp hmem with hold | hlast
    · exact h.tasks task hold
    · rw [List.mem_singleton.mp hlast]
      exact answer_notification (h.joining clientAddr hjoining) (hresponse hostAddr rfl)
  · exact ⟨h.inbox, nofun, h.sessions, h.tasks⟩

theorem step (h : server.Discreet trace) {action : ServiceAction} {next : Server}
    {events : List ServiceEvent} (hstep : server.ServiceStep action next events) :
    next.Discreet (trace ++ events) ∧ (∀ out, .sent out ∈ events → Answer (trace ++ events) out) ∧
      ∀ addr, .pinged addr ∈ events → .heard addr ∈ trace ++ events := by
  have hold := h.mono (List.subset_append_left trace events)
  cases hstep with
  | ignore hidle hmessage =>
      exact ⟨⟨hold.inbox, hold.joining, hold.sessions, hold.tasks⟩, by simp, by simp⟩
  | @create request code hostAddr hidle hmessage hroom =>
      obtain rfl : hostAddr = request.src := UdpHandler.addr_of_handle hmessage
      refine ⟨⟨fun entry hmem => ?_, hold.joining, hold.sessions, fun task hmem => ?_⟩,
        fun out hmem => ?_, by simp⟩
      · rcases List.mem_append.mp hmem with hmem | hlast
        · exact hold.inbox entry hmem
        · rw [List.mem_singleton.mp hlast]
          simp [MessageType.addr]
      · rcases List.mem_append.mp hmem with hmem | hlast
        · exact hold.tasks task hmem
        · rw [List.mem_singleton.mp hlast]
          simp [Task.Discreet]
      · obtain rfl : out = (request.src, code.toList) := by simpa using hmem
        exact ⟨by simp, @MayBeTold.code _ _ code server.channels (by simp)⟩
  | @join request code clientAddr hidle hmessage hroom =>
      obtain rfl : clientAddr = request.src := UdpHandler.addr_of_handle hmessage
      refine ⟨⟨fun entry hmem => ?_, fun addr hjoining => ?_, hold.sessions, hold.tasks⟩,
        by simp, by simp⟩
      · rcases List.mem_append.mp hmem with hmem | hlast
        · exact hold.inbox entry hmem
        · rw [List.mem_singleton.mp hlast]
          simp [MessageType.addr]
      · cases hjoining
        simp
  | created hinbox =>
      refine ⟨?_, by simp, by simp⟩
      have hnone : server.tasks ++ [] = server.tasks := List.append_nil _
      rw [← hnone]
      exact hold.handle hinbox (by simp)
  | joined hinbox hhandled =>
      subst hhandled
      refine ⟨?_, by simp, by simp⟩
      refine (hold.handle hinbox fun task hmem => ?_).resume fun hostAddr hresponse => ?_
      · obtain ⟨shutdown, -, rfl⟩ := List.mem_map.mp hmem
        trivial
      · obtain ⟨session, hsession, rfl⟩ := RelayManager.response_joinLobby hresponse
        exact hold.sessions _ session hsession
  | ping htask =>
      refine ⟨hold, by simp, fun addr hmem => ?_⟩
      obtain rfl := ServiceEvent.pinged.inj (List.mem_singleton.mp hmem)
      exact hold.tasks _ (List.mem_of_getElem? htask)
  | @notify i out pending htask =>
      have hpending : ∀ other ∈ out :: pending, Answer (trace ++ [.sent out]) other :=
        hold.tasks _ (List.mem_of_getElem? htask)
      refine ⟨⟨hold.inbox, hold.joining, hold.sessions, fun task hmem => ?_⟩,
        fun other hmem => ?_, by simp⟩
      · rcases List.mem_or_eq_of_mem_set hmem with hmem | rfl
        · exact hold.tasks task hmem
        · exact fun other hmem => hpending other (List.mem_cons_of_mem _ hmem)
      · obtain rfl := ServiceEvent.sent.inj (List.mem_singleton.mp hmem)
        exact hpending _ List.mem_cons_self
  | fire htask =>
      exact ⟨⟨hold.inbox, hold.joining, hold.sessions,
        fun task hmem => hold.tasks task (List.mem_of_mem_eraseIdx hmem)⟩, by simp, by simp⟩
  | stop htask hclosed =>
      exact ⟨⟨hold.inbox, hold.joining, hold.sessions,
        fun task hmem => hold.tasks task (List.mem_of_mem_eraseIdx hmem)⟩, by simp, by simp⟩

end Server.Discreet

end Discreet

/-! ## How much it says -/

/-- The datagrams that have been sent, except by keep-alive tasks. -/
def toldIn (trace : List ServiceEvent) : List Outgoing :=
  trace.filterMap fun
    | .sent out => some out
    | _ => none

/-- The senders of the datagrams that have been read. -/
def heardIn (trace : List ServiceEvent) : List SocketAddr :=
  trace.filterMap fun
    | .heard src => some src
    | _ => none

@[simp]
theorem toldIn_append (first second : List ServiceEvent) :
    toldIn (first ++ second) = toldIn first ++ toldIn second := List.filterMap_append

@[simp]
theorem heardIn_append (first second : List ServiceEvent) :
    heardIn (first ++ second) = heardIn first ++ heardIn second := List.filterMap_append

/-- How much a task has still to send. -/
def Task.due : Task → ℕ
  | .notify pending => pending.length
  | .keepAlive _ _ | .timer _ => 0

/-- How much a join makes the server send. -/
def notificationLength : ℕ := 7

theorem length_notification (clientAddr hostAddr : SocketAddr) :
    (notification clientAddr hostAddr).length = notificationLength := rfl

/-- How much the server has still to send. -/
def Server.due (server : Server) : ℕ :=
  (server.tasks.map Task.due).sum + if server.joining.isSome then notificationLength else 0

section Due

variable {tasks : List Task} {task : Task} {i : ℕ}

theorem sum_due_eraseIdx (htask : tasks[i]? = some task) :
    task.due + ((tasks.eraseIdx i).map Task.due).sum = (tasks.map Task.due).sum := by
  obtain ⟨hlt, rfl⟩ := List.getElem?_eq_some_iff.mp htask
  have hperm := (List.getElem_cons_eraseIdx_perm hlt).map Task.due
  rw [← hperm.sum_nat, List.map_cons, List.sum_cons]

theorem sum_due_set (htask : tasks[i]? = some task) (other : Task) :
    task.due + ((tasks.set i other).map Task.due).sum =
      other.due + (tasks.map Task.due).sum := by
  obtain ⟨hlt, -⟩ := List.getElem?_eq_some_iff.mp htask
  have hperm := (List.set_perm_cons_eraseIdx hlt other).map Task.due
  rw [hperm.sum_nat, List.map_cons, List.sum_cons, ← sum_due_eraseIdx htask]
  omega

theorem Server.due_resume (server : Server) (response : Option SocketAddr) :
    (server.resume response).due ≤ server.due := by
  unfold resume
  split
  · next hjoining =>
    simp [due, hjoining, Task.due, length_notification]
  · simp [due]

/-- What a step says and leaves to be said is accounted for by what it reads. -/
theorem Server.ServiceStep.due {server next : Server} {action : ServiceAction}
    {events : List ServiceEvent} (hstep : server.ServiceStep action next events) :
    (toldIn events).length + next.due ≤
      notificationLength * (heardIn events).length + server.due := by
  cases hstep with
  | ignore => simp [toldIn, Server.due]
  | create => simp [toldIn, heardIn, Server.due, Task.due, notificationLength]
  | join hidle => simp [toldIn, heardIn, Server.due, hidle, Nat.add_comm]
  | created => simp [toldIn, Server.due]
  | @joined code clientAddr channel inbox handled hinbox hhandled =>
      refine Nat.le_trans (Nat.add_le_add_left (Server.due_resume _ _) _) ?_
      have hzero : (handled.timer.toList.map (Task.due ∘ Task.timer)).sum = 0 := by
        cases handled.timer <;> rfl
      simp [toldIn, Server.due, hzero]
  | ping => simp [toldIn]
  | @notify i out pending htask =>
      have hsum := sum_due_set htask (.notify pending)
      simp [toldIn, Server.due, Task.due] at hsum ⊢
      omega
  | fire htask =>
      have hsum := sum_due_eraseIdx htask
      simp [toldIn, Server.due, Task.due] at hsum ⊢
      omega
  | stop htask =>
      have hsum := sum_due_eraseIdx htask
      simp [toldIn, Server.due, Task.due] at hsum ⊢
      omega

end Due

/-- The server talks to nobody who has not sent it a datagram, tells nobody what is not meant
for it, and apart from keep-alive packets says at most seven datagrams for one. -/
structure WellBehaved (trace : List ServiceEvent) : Prop where
  answers : ∀ out, .sent out ∈ trace → Answer trace out
  pings : ∀ addr, .pinged addr ∈ trace → .heard addr ∈ trace
  moderate : (toldIn trace).length ≤ notificationLength * (heardIn trace).length

theorem wellBehaved_of_reachable {c : Server × List ServiceEvent}
    (hc : serviceMachine.Reachable c) : WellBehaved c.2 := by
  have hinv : c.1.Discreet c.2 ∧ (∀ out, .sent out ∈ c.2 → Answer c.2 out) ∧
      (∀ addr, .pinged addr ∈ c.2 → .heard addr ∈ c.2) ∧
      (toldIn c.2).length + c.1.due ≤ notificationLength * (heardIn c.2).length := by
    refine Machine.Reachable.induct (P := fun c : Server × List ServiceEvent =>
      c.1.Discreet c.2 ∧ (∀ out, .sent out ∈ c.2 → Answer c.2 out) ∧
        (∀ addr, .pinged addr ∈ c.2 → .heard addr ∈ c.2) ∧
        (toldIn c.2).length + c.1.due ≤ notificationLength * (heardIn c.2).length) ?_ ?_ hc
    · exact ⟨.new, nofun, nofun, Nat.le_refl _⟩
    · rintro ⟨server, trace⟩ action d - ⟨hdiscreet, hanswers, hpings, hmoderate⟩ hstep
      obtain ⟨next, events, hnext, rfl⟩ := Machine.traced_step.mp hstep
      have hkind := Server.serviceStep_of_service hnext
      obtain ⟨hdiscreet', hanswers', hpings'⟩ := hdiscreet.step hkind
      have hsubset : trace ⊆ trace ++ events := List.subset_append_left _ _
      refine ⟨hdiscreet', fun out hmem => ?_, fun addr hmem => ?_, ?_⟩
      · exact (List.mem_append.mp hmem).elim (fun hold => (hanswers out hold).mono hsubset)
          (hanswers' out)
      · exact (List.mem_append.mp hmem).elim (fun hold => hsubset (hpings addr hold)) (hpings' addr)
      · have hdue := hkind.due
        dsimp only at hmoderate hdue ⊢
        rw [toldIn_append, heardIn_append, List.length_append, List.length_append]
        rw [Nat.mul_add]
        omega
  exact ⟨hinv.2.1, hinv.2.2.1, Nat.le_trans (Nat.le_add_right _ _) hinv.2.2.2⟩

/-- A host opens a lobby, and a client asks for it. -/
def lobbyRequests : List ServiceAction :=
  [.receive ⟨.v4 1 1, [lobbyCreate], .replicate 16 5⟩,
    .receive ⟨.v4 2 2, lobbyJoin :: List.replicate 16 5, .replicate 16 6⟩]

/-- Both are served, and the keep-alive task of the host comes to its end. -/
def lobbyService : List ServiceAction :=
  lobbyRequests ++ [.run 0, .manage, .manage] ++ List.replicate 7 (.run 2) ++ [.run 1, .stop 0]

theorem wellBehaved_of_reachable_lobbyService : ∃ c,
    serviceMachine.exec serviceMachine.init lobbyService = some c ∧
      (toldIn c.2).length = 8 ∧ (heardIn c.2).length = 2 ∧ WellBehaved c.2 := by
  obtain ⟨c, hexec, htold, hheard⟩ :
      ∃ c ∈ serviceMachine.exec serviceMachine.init lobbyService,
        (toldIn c.2).length = 8 ∧ (heardIn c.2).length = 2 := by decide +kernel
  exact ⟨c, hexec, htold, hheard, wellBehaved_of_reachable ⟨lobbyService, hexec⟩⟩

/-! ## The wait for a response -/

/-- A join is the last message in the channel, and `udp_handler` waits for its answer; without
one it does not wait. -/
def Awaits (joining : Option SocketAddr) : List (MessageType × ℕ) → Prop
  | [] => joining = none
  | (.createLobby _ _, _) :: inbox => Awaits joining inbox
  | (.joinLobby _ clientAddr, _) :: inbox => joining = some clientAddr ∧ inbox = []

theorem Awaits.create {inbox : List (MessageType × ℕ)} (h : Awaits none inbox) (code : Uuid)
    (hostAddr : SocketAddr) (channel : ℕ) :
    Awaits none (inbox ++ [(.createLobby code hostAddr, channel)]) := by
  induction inbox with
  | nil => rfl
  | cons entry inbox ih =>
      obtain ⟨⟨made, host⟩ | ⟨asked, client⟩, number⟩ := entry
      · exact ih h
      · cases h.1

theorem Awaits.join {inbox : List (MessageType × ℕ)} (h : Awaits none inbox) (code : Uuid)
    (clientAddr : SocketAddr) (channel : ℕ) :
    Awaits (some clientAddr) (inbox ++ [(.joinLobby code clientAddr, channel)]) := by
  induction inbox with
  | nil => exact ⟨rfl, rfl⟩
  | cons entry inbox ih =>
      obtain ⟨⟨made, host⟩ | ⟨asked, client⟩, number⟩ := entry
      · exact ih h
      · cases h.1

namespace Server

theorem joining_resume (server : Server) (response : Option SocketAddr) :
    (server.resume response).joining = none := by
  unfold resume
  split <;> rfl

theorem inbox_resume (server : Server) (response : Option SocketAddr) :
    (server.resume response).inbox = server.inbox := by
  unfold resume
  split <;> rfl

/-- The manager takes the first message, and the last one ends the wait. -/
theorem ServiceStep.manage {server next : Server} {events : List ServiceEvent}
    (hstep : server.ServiceStep .manage next events)
    (hawaits : Awaits server.joining server.inbox) :
    next.inbox = server.inbox.tail ∧ Awaits next.joining next.inbox := by
  cases hstep with
  | created hinbox =>
      rw [hinbox] at hawaits ⊢
      exact ⟨rfl, hawaits⟩
  | joined hinbox =>
      rw [hinbox] at hawaits ⊢
      refine ⟨inbox_resume _ _, ?_⟩
      rw [joining_resume, inbox_resume, hawaits.2]
      rfl

/-- The channel does not overflow, and a wait has its join. -/
structure Patient (server : Server) : Prop where
  room : server.inbox.length ≤ channelCapacity
  awaits : Awaits server.joining server.inbox

theorem Patient.step {server next : Server} {action : ServiceAction} {events : List ServiceEvent}
    (h : server.Patient) (hstep : server.ServiceStep action next events) : next.Patient := by
  obtain ⟨hlength, hawaits⟩ := h
  cases action with
  | manage =>
      obtain ⟨htail, hnext⟩ := hstep.manage hawaits
      refine ⟨?_, hnext⟩
      rw [htail, List.length_tail]
      omega
  | receive request =>
      cases hstep with
      | ignore => exact ⟨hlength, hawaits⟩
      | create hidle _ hroom =>
          rw [hidle] at hawaits
          exact ⟨List.length_append ▸ hroom, hidle ▸ hawaits.create _ _ _⟩
      | join hidle _ hroom =>
          rw [hidle] at hawaits
          exact ⟨List.length_append ▸ hroom, hawaits.join _ _ _⟩
  | run i => cases hstep <;> exact ⟨hlength, hawaits⟩
  | stop i =>
      cases hstep with
      | stop => exact ⟨hlength, hawaits⟩

theorem patient_new : Server.new.Patient := ⟨Nat.zero_le _, rfl⟩

/-- The manager takes what is in the channel. -/
theorem exists_manage {server : Server} (hsome : server.inbox ≠ []) :
    ∃ next events, server.service .manage = some (next, events) := by
  obtain ⟨entry, inbox, hinbox⟩ := List.exists_cons_of_ne_nil hsome
  obtain ⟨message, channel⟩ := entry
  simp only [service, manage, hinbox]
  cases message <;> exact ⟨_, _, rfl⟩

/-- Without a wait and with room in the channel, any datagram is dealt with. -/
theorem exists_receive {server : Server} (hidle : server.joining = none)
    (hroom : server.inbox.length < channelCapacity) (request : Request) :
    ∃ next events, server.service (.receive request) = some (next, events) := by
  simp only [service, receive, hidle, ne_eq, not_true_eq_false, if_false, hroom, if_true]
  cases (server.handler.handle request).2 with
  | none => exact ⟨_, _, rfl⟩
  | some message => cases message <;> exact ⟨_, _, rfl⟩

end Server

theorem patient_of_reachable {c : Server × List ServiceEvent}
    (hc : serviceMachine.Reachable c) : c.1.Patient := by
  refine Machine.Reachable.induct (P := fun c : Server × List ServiceEvent => c.1.Patient)
    Server.patient_new ?_ hc
  rintro ⟨server, trace⟩ action d - h hstep
  obtain ⟨next, events, hnext, rfl⟩ := Machine.traced_step.mp hstep
  exact h.step (Server.serviceStep_of_service hnext)

/-- The manager empties the channel, and the wait is over. -/
theorem exec_manage {server : Server} (hawaits : Awaits server.joining server.inbox)
    (trace : List ServiceEvent) : ∃ d,
      serviceMachine.exec (server, trace) (List.replicate server.inbox.length .manage) = some d ∧
        d.1.inbox = [] ∧ d.1.joining = none := by
  induction hinbox : server.inbox generalizing server trace with
  | nil =>
      rw [hinbox] at hawaits
      exact ⟨(server, trace), rfl, hinbox, hawaits⟩
  | cons entry inbox ih =>
      obtain ⟨next, events, hnext⟩ := Server.exists_manage (hinbox ▸ List.cons_ne_nil entry inbox)
      have hstep : serviceMachine.step (server, trace) .manage = some (next, trace ++ events) :=
        Machine.traced_step.mpr ⟨next, events, hnext, rfl⟩
      obtain ⟨htail, hrest⟩ := (Server.serviceStep_of_service hnext).manage hawaits
      rw [hinbox] at htail
      obtain ⟨d, hexec, hd⟩ := ih hrest (trace ++ events) htail
      refine ⟨d, ?_, hd⟩
      rw [List.length_cons, List.replicate_succ, Machine.exec_cons, hstep]
      exact hexec

end P2PNetworking.Rendezvous
