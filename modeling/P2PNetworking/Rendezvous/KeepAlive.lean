/-
# A host is kept alive until somebody joins

The task that keeps a host's address mapping alive ends when its shutdown channel is used, and
also when the sender of the channel is dropped.  The sender goes from `udp_handler` through the
channel to the manager, from the session of its lobby to a task, and there it is used.  So the
manager within the server is the manager by itself, and what is known of its books says when a
keep-alive task may end.
-/

import P2PNetworking.Rendezvous.Service

namespace P2PNetworking.Rendezvous

open P2PNetworking.Net P2PNetworking.Lib

/-! ## The manager within the server -/

/-- What has been done to lobbies. -/
def lobbyTrace (trace : List ServiceEvent) : List LobbyEvent :=
  trace.filterMap fun
    | .lobby event => some event
    | _ => none

theorem mem_lobbyTrace {trace : List ServiceEvent} {event : LobbyEvent} :
    event ∈ lobbyTrace trace ↔ .lobby event ∈ trace := by
  simp only [lobbyTrace, List.mem_filterMap]
  constructor
  · rintro ⟨seen, hmem, hseen⟩
    split at hseen
    · cases hseen
      exact hmem
    · cases hseen
  · exact fun hmem => ⟨_, hmem, rfl⟩

@[simp]
theorem lobbyTrace_append (first second : List ServiceEvent) :
    lobbyTrace (first ++ second) = lobbyTrace first ++ lobbyTrace second := List.filterMap_append

/-- The shutdown channels that tasks will use. -/
def timersOf (tasks : List Task) : List ℕ :=
  tasks.filterMap fun
    | .timer shutdown => some shutdown
    | _ => none

/-- The shutdown channels that have been dropped. -/
def droppedIn (trace : List LobbyEvent) : List ℕ :=
  trace.filterMap fun
    | .created _ _ _ dropped => dropped
    | _ => none

/-- The manager has the server's sessions, and has yet to be given the messages in the channel,
which bring the latest oneshot channels. -/
structure Manages (c : Server × List ServiceEvent) (d : Lobbies × List LobbyEvent) : Prop where
  manager : d.1.manager = c.1.manager
  timers : d.1.timers = timersOf c.1.tasks
  numbers : c.1.inbox.map Prod.snd = List.range' d.1.channels c.1.inbox.length
  channels : d.1.channels + c.1.inbox.length = c.1.channels
  trace : d.2 = lobbyTrace c.2
  closed : ∀ shutdown ∈ c.1.closed, shutdown ∈ firedIn d.2 ∨ shutdown ∈ droppedIn d.2

theorem timersOf_split {tasks : List Task} {i : ℕ} {task : Task} (htask : tasks[i]? = some task) :
    ∃ before after, tasks = before ++ task :: after ∧ before.length = i := by
  obtain ⟨hlt, rfl⟩ := List.getElem?_eq_some_iff.mp htask
  refine ⟨tasks.take i, tasks.drop (i + 1), ?_, ?_⟩
  · rw [List.getElem_cons_drop, List.take_append_drop]
  · rw [List.length_take]
    omega

section Manages

variable {server next : Server} {trace : List ServiceEvent} {d : Lobbies × List LobbyEvent}

/-- A message goes into the channel. -/
theorem Manages.queue (h : Manages (server, trace) d) {message : MessageType}
    {handler : UdpHandler} {joining : Option SocketAddr} {tasks : List Task}
    (htasks : timersOf tasks = timersOf server.tasks) {events : List ServiceEvent}
    (hevents : lobbyTrace events = []) :
    Manages ({ server with
      handler := handler
      channels := server.channels + 1
      inbox := server.inbox ++ [(message, server.channels)]
      joining := joining
      tasks := tasks }, trace ++ events) d where
  manager := h.manager
  timers := h.timers.trans htasks.symm
  numbers := by
    have hnumbers := h.numbers
    have hchannels := h.channels
    dsimp only at hnumbers hchannels ⊢
    rw [List.map_append, hnumbers, List.length_append, List.map_singleton, List.length_singleton,
      List.range'_concat, Nat.one_mul, hchannels]
  channels := by
    have hchannels := h.channels
    dsimp only at hchannels ⊢
    rw [List.length_append, List.length_singleton, ← Nat.add_assoc, hchannels]
  trace := by rw [lobbyTrace_append, hevents, List.append_nil, h.trace]
  closed := h.closed

/-- The manager takes the message that is first in the channel. -/
theorem Manages.message (h : Manages (server, trace) d) {message : MessageType} {channel : ℕ}
    {inbox : List (MessageType × ℕ)} (hinbox : server.inbox = (message, channel) :: inbox)
    {handled : Handled} (hhandled : handled = server.manager.handle channel message)
    {joining : Option SocketAddr} {tasks : List Task}
    (htasks : timersOf tasks = timersOf server.tasks ++ handled.timer.toList)
    (hdropped : ∀ shutdown, handled.dropped = some shutdown →
      shutdown ∈ droppedIn [Lobbies.report channel handled message]) :
    ∃ d', lobbyMachine.step d (.message message) = some d' ∧
      Manages ({ server with
        inbox := inbox
        joining := joining
        manager := handled.manager
        tasks := tasks
        closed := server.closed ++ handled.dropped.toList },
        trace ++ [.lobby (Lobbies.report channel handled message)]) d' := by
  obtain ⟨hmanager, htimers, hnumbers, hchannels, htrace, hclosed⟩ := h
  dsimp only at hmanager htimers hnumbers hchannels htrace hclosed
  rw [hinbox, List.map_cons, List.length_cons, List.range'_succ] at hnumbers
  obtain ⟨rfl, hrest⟩ := List.cons.inj hnumbers
  rw [← hmanager] at hhandled
  refine ⟨_, Machine.traced_step.mpr ⟨_, _, rfl, rfl⟩, ?_⟩
  subst hhandled
  refine ⟨rfl, ?_, hrest, ?_, ?_, fun shutdown hmem => ?_⟩
  · exact htimers ▸ htasks.symm
  · dsimp only
    rw [← hchannels, hinbox, List.length_cons]
    omega
  · rw [lobbyTrace_append, htrace]
    rfl
  · rw [firedIn, List.filterMap_append, droppedIn, List.filterMap_append]
    rcases List.mem_append.mp hmem with hold | hnew
    · exact (hclosed shutdown hold).imp (List.mem_append_left _) (List.mem_append_left _)
    · exact .inr (List.mem_append_right _ (hdropped shutdown (Option.mem_toList.mp hnew)))

/-- A task uses its shutdown channel. -/
theorem Manages.wake (h : Manages (server, trace) d) {i shutdown : ℕ}
    (htask : server.tasks[i]? = some (.timer shutdown)) :
    ∃ j d', lobbyMachine.step d (.wake j) = some d' ∧
      Manages ({ server with
        tasks := server.tasks.eraseIdx i
        closed := server.closed ++ [shutdown] }, trace ++ [.lobby (.fired shutdown)]) d' := by
  obtain ⟨hmanager, htimers, hnumbers, hchannels, htrace, hclosed⟩ := h
  dsimp only at hmanager htimers hnumbers hchannels htrace hclosed
  obtain ⟨before, after, hsplit, rfl⟩ := timersOf_split htask
  have htimers' : d.1.timers = timersOf before ++ shutdown :: timersOf after := by
    rw [htimers, hsplit]
    simp [timersOf]
  have hwake : d.1.step (.wake (timersOf before).length) =
      some ({ d.1 with timers := d.1.timers.eraseIdx (timersOf before).length },
        [.fired shutdown]) := by
    simp [Lobbies.step, htimers']
  refine ⟨(timersOf before).length, _, Machine.traced_step.mpr ⟨_, _, hwake, rfl⟩,
    hmanager, ?_, hnumbers, hchannels, ?_, fun other hmem => ?_⟩
  · rw [htimers', hsplit, List.eraseIdx_append_of_length_le (Nat.le_refl _),
      List.eraseIdx_append_of_length_le (Nat.le_refl _), Nat.sub_self, Nat.sub_self]
    simp [timersOf]
  · rw [lobbyTrace_append, htrace]
    rfl
  · rw [firedIn, List.filterMap_append, droppedIn, List.filterMap_append]
    rcases List.mem_append.mp hmem with hold | hnew
    · exact (hclosed other hold).imp (List.mem_append_left _) (List.mem_append_left _)
    · exact .inl (List.mem_append_right _ (by simpa using hnew))

/-- The other steps do nothing to lobbies. -/
theorem Manages.rest (h : Manages (server, trace) d) {handler : UdpHandler} {tasks : List Task}
    (htasks : timersOf tasks = timersOf server.tasks) {events : List ServiceEvent}
    (hevents : lobbyTrace events = []) :
    Manages ({ server with handler := handler, tasks := tasks }, trace ++ events) d where
  manager := h.manager
  timers := h.timers.trans htasks.symm
  numbers := h.numbers
  channels := h.channels
  trace := by rw [lobbyTrace_append, hevents, List.append_nil, h.trace]
  closed := h.closed

theorem Manages.step (h : Manages (server, trace) d) {action : ServiceAction}
    {events : List ServiceEvent} (hstep : server.ServiceStep action next events) :
    ∃ actions d', lobbyMachine.exec d actions = some d' ∧ Manages (next, trace ++ events) d' := by
  cases hstep with
  | ignore => exact ⟨[], d, rfl, h.rest rfl rfl⟩
  | create => exact ⟨[], d, rfl, h.queue (by simp [timersOf]) rfl⟩
  | join => exact ⟨[], d, rfl, h.queue rfl rfl⟩
  | created hinbox =>
      have hnone : timersOf server.tasks = timersOf server.tasks ++ [] := (List.append_nil _).symm
      obtain ⟨d', hmessage, hnext⟩ := h.message hinbox rfl hnone fun shutdown hdropped => by
        simp [droppedIn, Lobbies.report, hdropped]
      exact ⟨[_], d', Machine.exec_singleton _ hmessage, hnext⟩
  | @joined code clientAddr channel inbox handled hinbox hhandled =>
      have hdropped : handled.dropped = none := by
        rw [hhandled, RelayManager.dropped_joinLobby]
      have hmessage : ∀ (joining : Option SocketAddr) (tasks : List Task),
          timersOf tasks = timersOf server.tasks ++ handled.timer.toList →
          ∃ actions d', lobbyMachine.exec d actions = some d' ∧
            Manages ({ server with
              inbox := inbox
              joining := joining
              manager := handled.manager
              tasks := tasks }, trace ++
                [.lobby (.joined code clientAddr handled.response handled.timer)]) d' := by
        intro joining tasks htasks
        have hnone : ∀ shutdown, handled.dropped = some shutdown →
            shutdown ∈ droppedIn [Lobbies.report channel handled (.joinLobby code clientAddr)] := by
          intro shutdown hsome
          cases hdropped.symm.trans hsome
        obtain ⟨d', hmessage, hnext⟩ := @Manages.message _ _ _ h _ _ _ hinbox _ hhandled joining _
          htasks hnone
        rw [hdropped, Option.toList_none, List.append_nil] at hnext
        exact ⟨[_], d', Machine.exec_singleton _ hmessage, hnext⟩
      have htimers : timersOf (server.tasks ++ handled.timer.toList.map Task.timer) =
          timersOf server.tasks ++ handled.timer.toList := by
        cases handled.timer <;> simp [timersOf]
      unfold Server.resume
      split
      · refine hmessage none _ ?_
        rw [← htimers]
        simp [timersOf]
      · exact hmessage none _ htimers
  | ping => exact ⟨[], d, rfl, h.rest rfl rfl⟩
  | notify htask =>
      obtain ⟨before, after, hsplit, rfl⟩ := timersOf_split htask
      exact ⟨[], d, rfl, h.rest (by simp [hsplit, timersOf]) rfl⟩
  | fire htask =>
      obtain ⟨j, d', hwake, hnext⟩ := h.wake htask
      exact ⟨[.wake j], d', Machine.exec_singleton _ hwake, hnext⟩
  | stop htask =>
      obtain ⟨before, after, hsplit, rfl⟩ := timersOf_split htask
      refine ⟨[], d, rfl, h.rest ?_ rfl⟩
      rw [hsplit, List.eraseIdx_append_of_length_le (Nat.le_refl _), Nat.sub_self]
      simp [timersOf]

end Manages

theorem exists_manages {c : Server × List ServiceEvent} (hc : serviceMachine.Reachable c) :
    ∃ d, lobbyMachine.Reachable d ∧ Manages c d := by
  have hinit : Manages serviceMachine.init lobbyMachine.init :=
    ⟨rfl, rfl, rfl, rfl, rfl, nofun⟩
  refine Machine.Reachable.simulate hinit ?_ hc
  rintro ⟨server, trace⟩ d action c' - - hmanages hstep
  obtain ⟨next, events, hnext, rfl⟩ := Machine.traced_step.mp hstep
  exact hmanages.step (Server.serviceStep_of_service hnext)

/-! ## The keep-alive tasks -/

/-- The lobbies that `udp_handler` has opened, each with its host and its shutdown channel. -/
def openedIn (trace : List ServiceEvent) : List (Uuid × SocketAddr × ℕ) :=
  trace.filterMap fun
    | .opened code hostAddr shutdown => some (code, hostAddr, shutdown)
    | _ => none

/-- The lobbies that the manager has created. -/
def createdIn (trace : List LobbyEvent) : List (Uuid × SocketAddr × ℕ) :=
  trace.filterMap fun
    | .created code hostAddr shutdown _ => some (code, hostAddr, shutdown)
    | _ => none

/-- The lobbies in the channel to the manager. -/
def createsOf (inbox : List (MessageType × ℕ)) : List (Uuid × SocketAddr × ℕ) :=
  inbox.filterMap fun
    | (.createLobby code hostAddr, shutdown) => some (code, hostAddr, shutdown)
    | _ => none

theorem mem_openedIn {trace : List ServiceEvent} {code : Uuid} {hostAddr : SocketAddr}
    {shutdown : ℕ} :
    (code, hostAddr, shutdown) ∈ openedIn trace ↔ .opened code hostAddr shutdown ∈ trace := by
  simp only [openedIn, List.mem_filterMap]
  constructor
  · rintro ⟨event, hmem, hevent⟩
    split at hevent
    · cases hevent
      exact hmem
    · cases hevent
  · exact fun hmem => ⟨_, hmem, rfl⟩

theorem mem_createdIn {trace : List LobbyEvent} {code : Uuid} {hostAddr : SocketAddr}
    {shutdown : ℕ} : (code, hostAddr, shutdown) ∈ createdIn trace ↔
      ∃ dropped, .created code hostAddr shutdown dropped ∈ trace := by
  simp only [createdIn, List.mem_filterMap]
  constructor
  · rintro ⟨event, hmem, hevent⟩
    split at hevent
    · cases hevent
      exact ⟨_, hmem⟩
    · cases hevent
  · rintro ⟨dropped, hmem⟩
    exact ⟨_, hmem, rfl⟩

theorem mem_droppedIn {trace : List LobbyEvent} {shutdown : ℕ} :
    shutdown ∈ droppedIn trace ↔
      ∃ code hostAddr fresh, .created code hostAddr fresh (some shutdown) ∈ trace := by
  simp only [droppedIn, List.mem_filterMap]
  constructor
  · rintro ⟨event, hmem, hevent⟩
    split at hevent
    · cases hevent
      exact ⟨_, _, _, hmem⟩
    · cases hevent
  · rintro ⟨code, hostAddr, fresh, hmem⟩
    exact ⟨_, hmem, rfl⟩

theorem mem_scheduledIn {trace : List LobbyEvent} {shutdown : ℕ} :
    shutdown ∈ scheduledIn trace ↔
      ∃ code clientAddr response, .joined code clientAddr response (some shutdown) ∈ trace := by
  simp only [scheduledIn, List.mem_filterMap]
  constructor
  · rintro ⟨event, hmem, hevent⟩
    split at hevent
    · cases hevent
      exact ⟨_, _, _, hmem⟩
    · cases hevent
  · rintro ⟨code, clientAddr, response, hmem⟩
    exact ⟨_, hmem, rfl⟩

theorem mem_firedIn {trace : List LobbyEvent} {shutdown : ℕ} :
    shutdown ∈ firedIn trace ↔ .fired shutdown ∈ trace := by
  simp only [firedIn, List.mem_filterMap]
  constructor
  · rintro ⟨event, hmem, hevent⟩
    split at hevent
    · cases hevent
      exact hmem
    · cases hevent
  · exact fun hmem => ⟨_, hmem, rfl⟩

theorem createdCodes_eq (trace : List LobbyEvent) :
    createdCodes trace = (createdIn trace).map Prod.fst := by
  rw [createdCodes, createdIn, List.map_filterMap]
  congr 1
  funext event
  cases event <;> rfl

/-- What is open has its own shutdown channel, and its keep-alive task runs unless the channel
has been used or dropped. -/
structure Tended (server : Server) (trace : List ServiceEvent) : Prop where
  opened : openedIn trace = createdIn (lobbyTrace trace) ++ createsOf server.inbox
  old : ∀ entry ∈ openedIn trace, entry.2.2 < server.channels
  distinct : ∀ entry ∈ openedIn trace, ∀ other ∈ openedIn trace, entry.2.2 = other.2.2 →
    entry = other
  tasks : ∀ entry ∈ openedIn trace,
    .keepAlive entry.2.2 entry.2.1 ∈ server.tasks ∨ entry.2.2 ∈ server.closed

namespace Server

theorem channels_resume (server : Server) (response : Option SocketAddr) :
    (server.resume response).channels = server.channels := by
  unfold resume
  split <;> rfl

theorem closed_resume (server : Server) (response : Option SocketAddr) :
    (server.resume response).closed = server.closed := by
  unfold resume
  split <;> rfl

theorem tasks_subset_resume (server : Server) (response : Option SocketAddr) :
    server.tasks ⊆ (server.resume response).tasks := by
  unfold resume
  split
  · exact List.subset_append_left _ _
  · exact List.Subset.refl _

end Server

/-- A task that is not the one in question is still there. -/
theorem mem_of_getElem?_ne {tasks : List Task} {i : ℕ} {task other : Task}
    (htask : tasks[i]? = some task) (hne : other ≠ task) (hmem : other ∈ tasks) :
    other ∈ tasks.eraseIdx i ∧ ∀ later, other ∈ tasks.set i later := by
  obtain ⟨before, after, rfl, rfl⟩ := timersOf_split htask
  rw [List.eraseIdx_append_of_length_le (Nat.le_refl _), Nat.sub_self]
  have hold : other ∈ before ∨ other ∈ after := by simpa [hne] using hmem
  exact ⟨by simpa using hold, fun later => by simpa using hold.imp_right .inr⟩

@[simp]
theorem openedIn_append (first second : List ServiceEvent) :
    openedIn (first ++ second) = openedIn first ++ openedIn second := List.filterMap_append

@[simp]
theorem createdIn_append (first second : List LobbyEvent) :
    createdIn (first ++ second) = createdIn first ++ createdIn second := List.filterMap_append

@[simp]
theorem createsOf_append (first second : List (MessageType × ℕ)) :
    createsOf (first ++ second) = createsOf first ++ createsOf second := List.filterMap_append

namespace Tended

variable {server next : Server} {trace events : List ServiceEvent}

theorem new : Tended .new [] := ⟨rfl, nofun, nofun, nofun⟩

/-- Nothing is opened. -/
theorem keep (h : Tended server trace) (hevents : openedIn events = [])
    (hinbox : createdIn (lobbyTrace events) ++ createsOf next.inbox = createsOf server.inbox)
    (hchannels : server.channels ≤ next.channels) (hclosed : server.closed ⊆ next.closed)
    (htasks : ∀ shutdown hostAddr, .keepAlive shutdown hostAddr ∈ server.tasks →
      .keepAlive shutdown hostAddr ∈ next.tasks ∨ shutdown ∈ next.closed) :
    Tended next (trace ++ events) := by
  have hsame : openedIn (trace ++ events) = openedIn trace := by
    rw [openedIn_append, hevents, List.append_nil]
  refine ⟨?_, ?_, ?_, ?_⟩
  · rw [hsame, lobbyTrace_append, createdIn_append, List.append_assoc, hinbox, h.opened]
  · rw [hsame]
    exact fun entry hmem => Nat.lt_of_lt_of_le (h.old entry hmem) hchannels
  · rw [hsame]
    exact h.distinct
  · rw [hsame]
    intro entry hmem
    rcases h.tasks entry hmem with hruns | hover
    · exact htasks _ _ hruns
    · exact .inr (hclosed hover)

/-- A lobby is opened, with a new channel and a task. -/
theorem openLobby (h : Tended server trace) {handler : UdpHandler} (code : Uuid)
    (hostAddr : SocketAddr) (hevents : openedIn events = [(code, hostAddr, server.channels)])
    (hlobby : lobbyTrace events = []) :
    Tended { server with
      handler := handler
      channels := server.channels + 1
      inbox := server.inbox ++ [(.createLobby code hostAddr, server.channels)]
      tasks := server.tasks ++ [.keepAlive server.channels hostAddr] } (trace ++ events) := by
  have hmore : openedIn (trace ++ events) =
      openedIn trace ++ [(code, hostAddr, server.channels)] := by rw [openedIn_append, hevents]
  refine ⟨?_, ?_, ?_, ?_⟩
  · rw [hmore, lobbyTrace_append, hlobby, List.append_nil, createsOf_append, ← List.append_assoc,
      h.opened]
    rfl
  · rw [hmore]
    simp only [List.mem_append, List.mem_singleton]
    rintro entry (hmem | rfl)
    · exact Nat.lt_succ_of_lt (h.old entry hmem)
    · exact Nat.lt_succ_self _
  · rw [hmore]
    simp only [List.mem_append, List.mem_singleton]
    rintro entry (hmem | rfl) other (hother | rfl) heq
    · exact h.distinct entry hmem other hother heq
    · exact absurd heq (Nat.ne_of_lt (h.old entry hmem))
    · exact absurd heq.symm (Nat.ne_of_lt (h.old other hother))
    · rfl
  · rw [hmore]
    simp only [List.mem_append, List.mem_singleton]
    rintro entry (hmem | rfl)
    · exact (h.tasks entry hmem).imp_left .inl
    · exact .inl (.inr rfl)

theorem step {action : ServiceAction} (h : Tended server trace)
    (hstep : server.ServiceStep action next events) : Tended next (trace ++ events) := by
  cases hstep with
  | ignore => exact h.keep rfl rfl (Nat.le_refl _) (List.Subset.refl _) fun _ _ => .inl
  | create => exact h.openLobby _ _ rfl rfl
  | join =>
      refine h.keep rfl ?_ (Nat.le_succ _) (List.Subset.refl _) fun _ _ => .inl
      rw [createsOf_append]
      exact List.append_nil _
  | created hinbox =>
      refine h.keep rfl ?_ (Nat.le_refl _) (List.subset_append_left _ _) fun _ _ => .inl
      rw [hinbox]
      rfl
  | joined hinbox hhandled =>
      refine h.keep rfl ?_ ?_ ?_ fun shutdown hostAddr hmem => .inl ?_
      · rw [Server.inbox_resume, hinbox]
        rfl
      · rw [Server.channels_resume]
      · rw [Server.closed_resume]
        exact List.Subset.refl _
      · exact Server.tasks_subset_resume _ _ (List.mem_append_left _ hmem)
  | ping => exact h.keep rfl rfl (Nat.le_refl _) (List.Subset.refl _) fun _ _ => .inl
  | @notify i out pending htask =>
      refine h.keep rfl rfl (Nat.le_refl _) (List.Subset.refl _) fun shutdown hostAddr hmem => ?_
      have hne : Task.keepAlive shutdown hostAddr ≠ .notify (out :: pending) := nofun
      exact .inl ((mem_of_getElem?_ne htask hne hmem).2 _)
  | @fire i used htask =>
      refine h.keep rfl rfl (Nat.le_refl _) (List.subset_append_left _ _)
        fun shutdown hostAddr hmem => ?_
      have hne : Task.keepAlive shutdown hostAddr ≠ .timer used := nofun
      exact .inl (mem_of_getElem?_ne htask hne hmem).1
  | @stop i shutdown hostAddr htask hclosed =>
      refine h.keep rfl rfl (Nat.le_refl _) (List.Subset.refl _) fun other addr hmem => ?_
      by_cases heq : Task.keepAlive other addr = .keepAlive shutdown hostAddr
      · cases heq
        exact .inr hclosed
      · exact .inl (mem_of_getElem?_ne htask heq hmem).1

end Tended

theorem tended_of_reachable {c : Server × List ServiceEvent}
    (hc : serviceMachine.Reachable c) : Tended c.1 c.2 := by
  refine Machine.Reachable.induct (P := fun c : Server × List ServiceEvent => Tended c.1 c.2)
    .new ?_ hc
  rintro ⟨server, trace⟩ action d - h hstep
  obtain ⟨next, events, hnext, rfl⟩ := Machine.traced_step.mp hstep
  exact h.step (Server.serviceStep_of_service hnext)

/-- A shutdown channel is used by a task that the first join of its lobby has started, and for
codes that are not made twice it is not dropped. -/
theorem joined_of_closed {c : Server × List ServiceEvent} (hc : serviceMachine.Reachable c)
    (hdistinct : ((openedIn c.2).map Prod.fst).Nodup) {code : Uuid} {hostAddr : SocketAddr}
    {shutdown : ℕ} (hopened : .opened code hostAddr shutdown ∈ c.2)
    (hclosed : shutdown ∈ c.1.closed) : .lobby (.fired shutdown) ∈ c.2 ∧
      ∃ clientAddr, .lobby (.joined code clientAddr (some hostAddr) (some shutdown)) ∈ c.2 := by
  obtain ⟨d, hd, hmanages⟩ := exists_manages hc
  have htended := tended_of_reachable hc
  have hcreated : createdIn d.2 ⊆ openedIn c.2 := by
    rw [hmanages.trace, htended.opened]
    exact List.subset_append_left _ _
  have hcodes : (createdCodes d.2).Nodup := by
    rw [htended.opened, ← hmanages.trace, List.map_append] at hdistinct
    exact createdCodes_eq d.2 ▸ (List.nodup_append.mp hdistinct).1
  -- a lobby with the channel is the one that has been opened with it
  have hsame : ∀ {other : Uuid} {host : SocketAddr} {dropped : Option ℕ},
      .created other host shutdown dropped ∈ d.2 → other = code ∧ host = hostAddr := by
    intro other host dropped hmem
    have hother := hcreated (mem_createdIn.mpr ⟨dropped, hmem⟩)
    have heq := htended.distinct _ hother _ (mem_openedIn.mpr hopened) rfl
    exact ⟨congrArg Prod.fst heq, congrArg (Prod.fst ∘ Prod.snd) heq⟩
  have hlobby : ∀ {event : LobbyEvent}, event ∈ d.2 → .lobby event ∈ c.2 := by
    intro event hmem
    exact mem_lobbyTrace.mp (hmanages.trace ▸ hmem)
  -- what is scheduled belongs to a lobby that is untouched
  have hnew : ∀ {before after : List LobbyEvent} {other : Uuid} {host : SocketAddr} {fresh : ℕ}
      {dropped : Option ℕ}, d.2 = before ++ .created other host fresh dropped :: after →
        dropped = none := by
    intro before after other host fresh dropped hsplit
    have hfollows : dropped = (sessionAfter other before).bind Session.shutdownChannel :=
      follows_of_split hd _ _ _ hsplit
    rw [hfollows, sessionAfter_of_new hcodes hsplit]
    rfl
  have hfired : shutdown ∈ firedIn d.2 := by
    refine (hmanages.closed shutdown hclosed).resolve_right fun hdropped => ?_
    obtain ⟨other, host, fresh, hmem⟩ := mem_droppedIn.mp hdropped
    obtain ⟨before, after, hsplit⟩ := List.append_of_mem hmem
    cases hnew hsplit
  have hscheduled : shutdown ∈ scheduledIn d.2 :=
    (sendersInv_of_reachable hd).timers.subset (List.mem_append_right _ hfired)
  obtain ⟨asked, clientAddr, response, hjoined⟩ := mem_scheduledIn.mp hscheduled
  refine ⟨hlobby (mem_firedIn.mp hfired), clientAddr, ?_⟩
  obtain ⟨before, after, hsplit⟩ := List.append_of_mem hjoined
  obtain ⟨hresponse, hshutdown⟩ := follows_of_split hd _ _ _ hsplit
  obtain ⟨earlier, host, dropped, later, hbefore, -⟩ :=
    (shutdown_sessionAfter asked before shutdown).mp hshutdown.symm
  have hmade : LobbyEvent.created asked host shutdown dropped ∈ before := by
    rw [hbefore]
    exact List.mem_append_right _ List.mem_cons_self
  obtain ⟨rfl, rfl⟩ := hsame (hsplit ▸ List.mem_append_left _ hmade)
  have hhost := (host_sessionAfter (nodup_createdCodes_of_split hcodes hsplit) _ _).mpr
    ⟨shutdown, dropped, hmade⟩
  rw [hhost] at hresponse
  exact hresponse ▸ hlobby hjoined

/-- Every host whose lobby is open has its task, until a client has been given its address and
the task that this has started has run: for every run in which no code is made twice. -/
theorem keptAlive_of_reachable {c : Server × List ServiceEvent} (hc : serviceMachine.Reachable c)
    (hdistinct : ((openedIn c.2).map Prod.fst).Nodup) {code : Uuid} {hostAddr : SocketAddr}
    {shutdown : ℕ} (hopened : .opened code hostAddr shutdown ∈ c.2) :
    .keepAlive shutdown hostAddr ∈ c.1.tasks ∨
      .lobby (.fired shutdown) ∈ c.2 ∧
        ∃ clientAddr, .lobby (.joined code clientAddr (some hostAddr) (some shutdown)) ∈ c.2 := by
  rcases (tended_of_reachable hc).tasks _ (mem_openedIn.mpr hopened) with hruns | hclosed
  · exact .inl hruns
  · exact .inr (joined_of_closed hc hdistinct hopened hclosed)

theorem keptAlive_of_reachable_lobbyService : ∃ c,
    serviceMachine.exec serviceMachine.init lobbyService = some c ∧
      .keepAlive 0 (.v4 1 1) ∉ c.1.tasks ∧
      (.keepAlive 0 (.v4 1 1) ∈ c.1.tasks ∨ .lobby (.fired 0) ∈ c.2 ∧ ∃ clientAddr,
        .lobby (.joined (.replicate 16 5) clientAddr (some (.v4 1 1)) (some 0)) ∈ c.2) := by
  obtain ⟨c, hexec, hdistinct, hopened, hstopped⟩ :
      ∃ c ∈ serviceMachine.exec serviceMachine.init lobbyService,
        ((openedIn c.2).map Prod.fst).Nodup ∧
          .opened (.replicate 16 5) (.v4 1 1) 0 ∈ c.2 ∧
          .keepAlive 0 (.v4 1 1) ∉ c.1.tasks := by decide +kernel
  exact ⟨c, hexec, hstopped, keptAlive_of_reachable ⟨lobbyService, hexec⟩ hdistinct hopened⟩

end P2PNetworking.Rendezvous
