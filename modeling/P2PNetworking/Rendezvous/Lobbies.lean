/-
# Lobbies over a whole run

What `handler` makes of any sequence of messages, told lobby by lobby: a lobby's session
is what the messages about its code have made of it, so everything the manager answers
and schedules can be read off the history.  A shutdown channel ends a host's keep-alive
when it is used, but also when its sender is dropped; the history therefore keeps track
of every sender from the message that brings it to the task that uses it.
-/

import P2PNetworking.Rendezvous.RelayManager
import P2PNetworking.Lib.Machine
import Mathlib.Data.List.Perm.Basic

namespace P2PNetworking.Rendezvous

open P2PNetworking.Net P2PNetworking.Lib

/-! ## The manager and its tasks -/

/-- What happens to lobbies and their shutdown channels. -/
inductive LobbyEvent
  /-- A lobby has been created; the shutdown channel of one that it replaces is dropped. -/
  | created (code : Uuid) (hostAddr : SocketAddr) (shutdown : ℕ) (dropped : Option ℕ)
  /-- A client's join has been answered on its response channel, or not; the shutdown
  channel is given to a task. -/
  | joined (code : Uuid) (clientAddr : SocketAddr) (response : Option SocketAddr)
      (scheduled : Option ℕ)
  /-- A task has used its shutdown channel. -/
  | fired (shutdown : ℕ)
  deriving DecidableEq

/-- The lobby that an event is about. -/
def LobbyEvent.code : LobbyEvent → Option Uuid
  | .created code _ _ _ => some code
  | .joined code _ _ _ => some code
  | .fired _ => none

inductive LobbyAction
  /-- The manager takes a message. -/
  | message (message : MessageType)
  /-- A task has slept for five seconds. -/
  | wake (i : ℕ)
  deriving DecidableEq

/-- The lobby that an action is about. -/
def LobbyAction.code : LobbyAction → Option Uuid
  | .message (.createLobby code _) => some code
  | .message (.joinLobby code _) => some code
  | .wake _ => none

/-- The manager with the tasks it has left behind; every message brings a new channel. -/
structure Lobbies where
  manager : RelayManager
  channels : ℕ
  /-- The shutdown channels of the tasks. -/
  timers : List ℕ

namespace Lobbies

def new : Lobbies := ⟨⟨∅⟩, 0, []⟩

/-- What a message that has been handled lets one see. -/
def report (channel : ℕ) (handled : Handled) : MessageType → LobbyEvent
  | .createLobby code hostAddr => .created code hostAddr channel handled.dropped
  | .joinLobby code clientAddr => .joined code clientAddr handled.response handled.timer

/-- One step of the manager or of a task. -/
def step (lobbies : Lobbies) : LobbyAction → Option (Lobbies × List LobbyEvent)
  | .message message =>
      let handled := lobbies.manager.handle lobbies.channels message
      some (⟨handled.manager, lobbies.channels + 1, lobbies.timers ++ handled.timer.toList⟩,
        [report lobbies.channels handled message])
  | .wake i =>
      lobbies.timers[i]?.map fun shutdown =>
        ({ lobbies with timers := lobbies.timers.eraseIdx i }, [.fired shutdown])

end Lobbies

/-- The manager under any sequence of messages. -/
def lobbyMachine : Machine (Lobbies × List LobbyEvent) LobbyAction := .traced .new Lobbies.step

/-! ## Histories -/

/-- The codes of the lobbies that have been created. -/
def createdCodes (trace : List LobbyEvent) : List Uuid :=
  trace.filterMap fun
    | .created code _ _ _ => some code
    | _ => none

/-- The shutdown channels that have been given to tasks. -/
def scheduledIn (trace : List LobbyEvent) : List ℕ :=
  trace.filterMap fun
    | .joined _ _ _ scheduled => scheduled
    | _ => none

/-- The shutdown channels that have been used. -/
def firedIn (trace : List LobbyEvent) : List ℕ :=
  trace.filterMap fun
    | .fired shutdown => some shutdown
    | _ => none

theorem mem_createdCodes {trace : List LobbyEvent} {code : Uuid} :
    code ∈ createdCodes trace ↔
      ∃ hostAddr shutdown dropped, .created code hostAddr shutdown dropped ∈ trace := by
  simp only [createdCodes, List.mem_filterMap]
  constructor
  · rintro ⟨event, hmem, hcode⟩
    split at hcode
    · next made hostAddr shutdown dropped =>
      cases hcode
      exact ⟨hostAddr, shutdown, dropped, hmem⟩
    · cases hcode
  · rintro ⟨hostAddr, shutdown, dropped, hmem⟩
    exact ⟨_, hmem, rfl⟩

/-- What an event makes of the session of a lobby. -/
def LobbyEvent.apply (code : Uuid) (session : Option Session) : LobbyEvent → Option Session
  | .created other hostAddr shutdown _ =>
      if other = code then some ⟨hostAddr, some shutdown, none⟩ else session
  | .joined other clientAddr _ _ =>
      if other = code then
        session.map fun s => { s with shutdownChannel := none, clientAddr := some [clientAddr] }
      else session
  | .fired _ => session

/-- The session of a lobby after a history. -/
def sessionAfter (code : Uuid) (trace : List LobbyEvent) : Option Session :=
  trace.foldl (LobbyEvent.apply code) none

@[simp]
theorem sessionAfter_concat (code : Uuid) (trace : List LobbyEvent) (event : LobbyEvent) :
    sessionAfter code (trace ++ [event]) = event.apply code (sessionAfter code trace) := by
  simp [sessionAfter]

theorem LobbyEvent.apply_of_ne {event : LobbyEvent} {code : Uuid} (hne : event.code ≠ some code)
    (session : Option Session) : event.apply code session = session := by
  cases event with
  | created other hostAddr shutdown dropped => exact if_neg fun h => hne (congrArg some h)
  | joined other clientAddr response scheduled => exact if_neg fun h => hne (congrArg some h)
  | fired shutdown => rfl

/-- With distinct codes a lobby has the host that has created it. -/
theorem host_sessionAfter {trace : List LobbyEvent} (hdistinct : (createdCodes trace).Nodup)
    (code : Uuid) (hostAddr : SocketAddr) :
    (sessionAfter code trace).map Session.hostAddr = some hostAddr ↔
      ∃ shutdown dropped, .created code hostAddr shutdown dropped ∈ trace := by
  induction trace using List.reverseRecOn with
  | nil => simp [sessionAfter]
  | append_singleton trace event ih =>
      rw [createdCodes, List.filterMap_append, List.nodup_append] at hdistinct
      obtain ⟨hbefore, -, hnew⟩ := hdistinct
      rw [sessionAfter_concat]
      cases event with
      | created other host shutdown dropped =>
          by_cases heq : other = code
          · subst heq
            have hold : ∀ hostAddr shutdown dropped,
                LobbyEvent.created other hostAddr shutdown dropped ∉ trace := by
              intro hostAddr shutdown dropped hmem
              exact hnew other (mem_createdCodes.mpr ⟨_, _, _, hmem⟩) other (by simp) rfl
            simp [LobbyEvent.apply, hold, eq_comm]
          · simp [LobbyEvent.apply, heq, Ne.symm heq, ih hbefore]
      | joined other clientAddr response scheduled =>
          have hkept : ((LobbyEvent.joined other clientAddr response scheduled).apply code
              (sessionAfter code trace)).map Session.hostAddr =
                (sessionAfter code trace).map Session.hostAddr := by
            simp only [LobbyEvent.apply]
            split
            · rw [Option.map_map]
              rfl
            · rfl
          rw [hkept, ih hbefore]
          simp
      | fired shutdown => simp [LobbyEvent.apply, ih hbefore]

/-- The lobby has been created with the shutdown channel, and no message has been about it
since. -/
def Untouched (code : Uuid) (shutdown : ℕ) (trace : List LobbyEvent) : Prop :=
  ∃ before hostAddr dropped after,
    trace = before ++ .created code hostAddr shutdown dropped :: after ∧
      ∀ event ∈ after, event.code ≠ some code

theorem untouched_concat_of_ne {code : Uuid} {shutdown : ℕ} {trace : List LobbyEvent}
    {event : LobbyEvent} (hne : event.code ≠ some code) :
    Untouched code shutdown (trace ++ [event]) ↔ Untouched code shutdown trace := by
  constructor
  · rintro ⟨before, hostAddr, dropped, after, hsplit, hafter⟩
    rcases Machine.split_concat hsplit with ⟨-, rfl, -⟩ | ⟨rest, rfl, rfl⟩
    · exact absurd rfl hne
    · exact ⟨before, hostAddr, dropped, rest, rfl, fun other hmem =>
        hafter other (List.mem_append_left _ hmem)⟩
  · rintro ⟨before, hostAddr, dropped, after, rfl, hafter⟩
    refine ⟨before, hostAddr, dropped, after ++ [event], by simp, fun other hmem => ?_⟩
    rcases List.mem_append.mp hmem with hold | hlast
    · exact hafter other hold
    · rw [List.mem_singleton.mp hlast]
      exact hne

theorem untouched_concat_of_eq {code : Uuid} {shutdown : ℕ} {trace : List LobbyEvent}
    {event : LobbyEvent} (hcode : event.code = some code) :
    Untouched code shutdown (trace ++ [event]) ↔
      ∃ hostAddr dropped, event = .created code hostAddr shutdown dropped := by
  constructor
  · rintro ⟨before, hostAddr, dropped, after, hsplit, hafter⟩
    rcases Machine.split_concat hsplit with ⟨-, hlast, -⟩ | ⟨rest, rfl, -⟩
    · exact ⟨hostAddr, dropped, hlast⟩
    · exact absurd hcode (hafter event (by simp))
  · rintro ⟨hostAddr, dropped, rfl⟩
    exact ⟨trace, hostAddr, dropped, [], rfl, by simp⟩

/-- A lobby has its shutdown channel until the next message about it. -/
theorem shutdown_sessionAfter (code : Uuid) (trace : List LobbyEvent) (shutdown : ℕ) :
    (sessionAfter code trace).bind Session.shutdownChannel = some shutdown ↔
      Untouched code shutdown trace := by
  induction trace using List.reverseRecOn with
  | nil => simp [sessionAfter, Untouched]
  | append_singleton trace event ih =>
      rw [sessionAfter_concat]
      by_cases hcode : event.code = some code
      · rw [untouched_concat_of_eq hcode]
        cases event with
        | created other hostAddr found dropped =>
            obtain rfl : other = code := Option.some.inj hcode
            simp [LobbyEvent.apply]
        | joined other clientAddr response scheduled =>
            obtain rfl : other = code := Option.some.inj hcode
            cases sessionAfter other trace <;> simp [LobbyEvent.apply]
        | fired found => cases hcode
      · rw [LobbyEvent.apply_of_ne hcode, ih, untouched_concat_of_ne hcode]

/-! ## The sessions are what the history says -/

section Step

variable {lobbies next : Lobbies} {action : LobbyAction} {events : List LobbyEvent}

/-- Every step lets one event be seen. -/
theorem Lobbies.exists_event (hstep : lobbies.step action = some (next, events)) :
    ∃ event, events = [event] ∧ event.code = action.code := by
  cases action with
  | message message =>
      cases hstep
      cases message with
      | createLobby code hostAddr => exact ⟨_, rfl, rfl⟩
      | joinLobby code clientAddr => exact ⟨_, rfl, rfl⟩
  | wake i =>
      simp only [step, Option.map_eq_some_iff, Prod.mk.injEq] at hstep
      obtain ⟨shutdown, -, -, rfl⟩ := hstep
      exact ⟨_, rfl, rfl⟩

/-- A step changes every session as its event says. -/
theorem Lobbies.lookup_step (hstep : lobbies.step action = some (next, events)) (code : Uuid) :
    next.manager.session.lookup code =
      events.foldl (LobbyEvent.apply code) (lobbies.manager.session.lookup code) := by
  cases action with
  | message message =>
      cases hstep
      cases message with
      | createLobby made hostAddr =>
          simp only [RelayManager.handle, report, List.foldl_cons, List.foldl_nil,
            LobbyEvent.apply, Table.lookup_insert_eq_ite, eq_comm]
      | joinLobby asked clientAddr =>
          simp only [RelayManager.handle, report, List.foldl_cons, List.foldl_nil,
            LobbyEvent.apply]
          cases hlookup : lobbies.manager.session.lookup asked with
          | none =>
              dsimp only
              split
              · next heq => rw [← heq, hlookup, Option.map_none]
              · rfl
          | some session =>
              simp only [Table.lookup_insert_eq_ite]
              split
              · next heq =>
                rw [heq, if_pos rfl, hlookup]
                rfl
              · next hne => simp [Ne.symm hne]
  | wake i =>
      simp only [step, Option.map_eq_some_iff, Prod.mk.injEq] at hstep
      obtain ⟨shutdown, -, rfl, rfl⟩ := hstep
      rfl

end Step

/-- The manager's table is made of the histories of its lobbies. -/
theorem lookup_eq_sessionAfter {c : Lobbies × List LobbyEvent} (hc : lobbyMachine.Reachable c)
    (code : Uuid) : c.1.manager.session.lookup code = sessionAfter code c.2 := by
  refine Machine.Reachable.induct
    (P := fun c => c.1.manager.session.lookup code = sessionAfter code c.2) rfl ?_ hc
  rintro ⟨lobbies, trace⟩ action d _ h hstep
  obtain ⟨next, events, hnext, rfl⟩ := Machine.traced_step.mp hstep
  rw [Lobbies.lookup_step hnext, sessionAfter, List.foldl_append, ← sessionAfter]
  exact congrArg (events.foldl (LobbyEvent.apply code)) h

/-- What an event says is in order after a history. -/
def LobbyEvent.Follows (trace : List LobbyEvent) : LobbyEvent → Prop
  | .created code _ _ dropped =>
      dropped = (sessionAfter code trace).bind Session.shutdownChannel
  | .joined code _ response scheduled =>
      response = (sessionAfter code trace).map Session.hostAddr ∧
        scheduled = (sessionAfter code trace).bind Session.shutdownChannel
  | .fired shutdown => shutdown ∈ scheduledIn trace

/-- A message is handled as the history of its lobby says. -/
theorem follows_report {c : Lobbies × List LobbyEvent} (hc : lobbyMachine.Reachable c)
    (message : MessageType) :
    (Lobbies.report c.1.channels (c.1.manager.handle c.1.channels message) message).Follows
      c.2 := by
  cases message with
  | createLobby code hostAddr =>
      exact congrArg (·.bind Session.shutdownChannel) (lookup_eq_sessionAfter hc code)
  | joinLobby code clientAddr =>
      have hlookup := lookup_eq_sessionAfter hc code
      simp only [RelayManager.handle, Lobbies.report, LobbyEvent.Follows, ← hlookup]
      cases c.1.manager.session.lookup code with
      | none => exact ⟨rfl, rfl⟩
      | some session => exact ⟨rfl, rfl⟩

/-! ## Every sender has one place -/

/-- The manager keeps the shutdown channel with the lobby. -/
def RelayManager.Keeps (manager : RelayManager) (code : Uuid) (shutdown : ℕ) : Prop :=
  (manager.session.lookup code).bind Session.shutdownChannel = some shutdown

/-- A shutdown channel is with its lobby, or with a task, or has been used. -/
structure SendersInv (lobbies : Lobbies) (trace : List LobbyEvent) : Prop where
  /-- What has been scheduled is with a task or has been used. -/
  timers : (lobbies.timers ++ firedIn trace).Perm (scheduledIn trace)
  nodup : (scheduledIn trace).Nodup
  old : ∀ shutdown ∈ scheduledIn trace, shutdown < lobbies.channels
  /-- What is with a lobby has not been scheduled, -/
  kept : ∀ code shutdown, lobbies.manager.Keeps code shutdown →
    shutdown < lobbies.channels ∧ shutdown ∉ scheduledIn trace
  /-- and is with no other. -/
  alone : ∀ code code' shutdown, lobbies.manager.Keeps code shutdown →
    lobbies.manager.Keeps code' shutdown → code = code'

namespace SendersInv

variable {lobbies : Lobbies} {trace : List LobbyEvent}

theorem new : SendersInv Lobbies.new [] where
  timers := .refl _
  nodup := List.nodup_nil
  old shutdown hmem := by cases hmem
  kept code shutdown h := by cases h
  alone code code' shutdown h := by cases h

/-- A channel is opened, and no sender moves. -/
theorem opened (h : SendersInv lobbies trace) {later : List LobbyEvent}
    (hscheduled : scheduledIn later = scheduledIn trace)
    (hfired : firedIn later = firedIn trace) :
    SendersInv ⟨lobbies.manager, lobbies.channels + 1, lobbies.timers⟩ later := by
  constructor
  · rw [hscheduled, hfired]
    exact h.timers
  · rw [hscheduled]
    exact h.nodup
  · rw [hscheduled]
    exact fun shutdown hmem => Nat.lt_succ_of_lt (h.old shutdown hmem)
  · rw [hscheduled]
    exact fun other shutdown hother => (h.kept other shutdown hother).imp_left Nat.lt_succ_of_lt
  · exact h.alone

theorem created (h : SendersInv lobbies trace) (code : Uuid) (hostAddr : SocketAddr)
    (dropped : Option ℕ) :
    SendersInv
      ⟨⟨lobbies.manager.session.insert code ⟨hostAddr, some lobbies.channels, none⟩⟩,
        lobbies.channels + 1, lobbies.timers⟩
      (trace ++ [.created code hostAddr lobbies.channels dropped]) := by
  have hscheduled : scheduledIn (trace ++ [.created code hostAddr lobbies.channels dropped]) =
      scheduledIn trace := by simp [scheduledIn]
  have hfired : firedIn (trace ++ [.created code hostAddr lobbies.channels dropped]) =
      firedIn trace := by simp [firedIn]
  have hkeeps : ∀ other shutdown,
      RelayManager.Keeps ⟨lobbies.manager.session.insert code
        ⟨hostAddr, some lobbies.channels, none⟩⟩ other shutdown →
      (other = code ∧ shutdown = lobbies.channels) ∨ lobbies.manager.Keeps other shutdown := by
    intro other shutdown hother
    rw [RelayManager.Keeps, Table.lookup_insert_eq_ite] at hother
    split at hother
    · next heq => exact .inl ⟨heq, (Option.some.inj hother).symm⟩
    · exact .inr hother
  have hopened := h.opened hscheduled hfired
  refine ⟨hopened.timers, hopened.nodup, hopened.old, ?_, ?_⟩
  · intro other shutdown hother
    rcases hkeeps other shutdown hother with ⟨-, rfl⟩ | hold
    · rw [hscheduled]
      exact ⟨Nat.lt_succ_self _, fun hmem => absurd (h.old _ hmem) (lt_irrefl _)⟩
    · exact hopened.kept other shutdown hold
  · intro first second shutdown hfirst hsecond
    rcases hkeeps first shutdown hfirst with ⟨rfl, rfl⟩ | hold
    · rcases hkeeps second _ hsecond with ⟨rfl, -⟩ | hold
      · rfl
      · exact absurd (h.kept second _ hold).1 (lt_irrefl _)
    · rcases hkeeps second shutdown hsecond with ⟨-, rfl⟩ | hold'
      · exact absurd (h.kept first _ hold).1 (lt_irrefl _)
      · exact h.alone first second shutdown hold hold'

theorem joined (h : SendersInv lobbies trace) {code : Uuid} {session : Session}
    (hlookup : lobbies.manager.session.lookup code = some session) (clientAddr : SocketAddr)
    (response : Option SocketAddr) :
    SendersInv
      ⟨⟨lobbies.manager.session.insert code
          { session with shutdownChannel := none, clientAddr := some [clientAddr] }⟩,
        lobbies.channels + 1, lobbies.timers ++ session.shutdownChannel.toList⟩
      (trace ++ [.joined code clientAddr response session.shutdownChannel]) := by
  have hscheduled : scheduledIn
      (trace ++ [.joined code clientAddr response session.shutdownChannel]) =
        scheduledIn trace ++ session.shutdownChannel.toList := by
    cases session.shutdownChannel <;> simp [scheduledIn]
  have hfired : firedIn (trace ++ [.joined code clientAddr response session.shutdownChannel]) =
      firedIn trace := by simp [firedIn]
  have hmoved : ∀ shutdown ∈ session.shutdownChannel.toList,
      lobbies.manager.Keeps code shutdown := by
    intro shutdown hmem
    rw [RelayManager.Keeps, hlookup]
    simpa using hmem
  have hkeeps : ∀ other shutdown,
      RelayManager.Keeps ⟨lobbies.manager.session.insert code
        { session with shutdownChannel := none, clientAddr := some [clientAddr] }⟩ other shutdown →
      other ≠ code ∧ lobbies.manager.Keeps other shutdown := by
    intro other shutdown hother
    rw [RelayManager.Keeps, Table.lookup_insert_eq_ite] at hother
    split at hother
    · cases hother
    · next hne => exact ⟨hne, hother⟩
  constructor
  · rw [hscheduled, hfired, List.append_assoc]
    exact (List.perm_append_comm.append_left _).trans
      (by rw [← List.append_assoc]; exact h.timers.append_right _)
  · rw [hscheduled, List.nodup_append]
    refine ⟨h.nodup, by cases session.shutdownChannel <;> simp, fun shutdown hold other hnew => ?_⟩
    rintro rfl
    exact (h.kept code shutdown (hmoved shutdown hnew)).2 hold
  · rw [hscheduled]
    intro shutdown hmem
    rcases List.mem_append.mp hmem with hold | hnew
    · exact Nat.lt_succ_of_lt (h.old shutdown hold)
    · exact Nat.lt_succ_of_lt (h.kept code shutdown (hmoved shutdown hnew)).1
  · rw [hscheduled]
    intro other shutdown hother
    obtain ⟨hne, hold⟩ := hkeeps other shutdown hother
    refine ⟨Nat.lt_succ_of_lt (h.kept other shutdown hold).1, fun hmem => ?_⟩
    rcases List.mem_append.mp hmem with hmem | hnew
    · exact (h.kept other shutdown hold).2 hmem
    · exact hne (h.alone other code shutdown hold (hmoved shutdown hnew))
  · intro first second shutdown hfirst hsecond
    exact h.alone first second shutdown (hkeeps first shutdown hfirst).2
      (hkeeps second shutdown hsecond).2

/-- A join of a lobby that there is not moves no sender. -/
theorem refused (h : SendersInv lobbies trace) (code : Uuid) (clientAddr : SocketAddr) :
    SendersInv ⟨lobbies.manager, lobbies.channels + 1, lobbies.timers⟩
      (trace ++ [.joined code clientAddr none none]) :=
  h.opened (by simp [scheduledIn]) (by simp [firedIn])

/-- A task uses its channel. -/
theorem fired (h : SendersInv lobbies trace) {i shutdown : ℕ}
    (htask : lobbies.timers[i]? = some shutdown) :
    SendersInv { lobbies with timers := lobbies.timers.eraseIdx i } (trace ++ [.fired shutdown]) := by
  have hscheduled : scheduledIn (trace ++ [.fired shutdown]) = scheduledIn trace := by
    simp [scheduledIn]
  have hfired : firedIn (trace ++ [.fired shutdown]) = firedIn trace ++ [shutdown] := by
    simp [firedIn]
  obtain ⟨hlt, rfl⟩ := List.getElem?_eq_some_iff.mp htask
  constructor
  · rw [hscheduled, hfired]
    have hused : (lobbies.timers.eraseIdx i ++ (firedIn trace ++ [lobbies.timers[i]])).Perm
        (lobbies.timers[i] :: lobbies.timers.eraseIdx i ++ firedIn trace) := by
      rw [← List.append_assoc]
      exact List.perm_append_singleton _ _
    have htaken := (List.getElem_cons_eraseIdx_perm hlt).append_right (firedIn trace)
    exact (hused.trans htaken).trans h.timers
  · rw [hscheduled]
    exact h.nodup
  · rw [hscheduled]
    exact h.old
  · rw [hscheduled]
    exact h.kept
  · exact h.alone

theorem step (h : SendersInv lobbies trace) {next : Lobbies} {action : LobbyAction}
    {events : List LobbyEvent} (hstep : lobbies.step action = some (next, events)) :
    SendersInv next (trace ++ events) := by
  cases action with
  | message message =>
      cases hstep
      cases message with
      | createLobby code hostAddr =>
          simpa [RelayManager.handle, Lobbies.report] using h.created code hostAddr _
      | joinLobby code clientAddr =>
          simp only [RelayManager.handle, Lobbies.report]
          cases hlookup : lobbies.manager.session.lookup code with
          | none => simpa using h.refused code clientAddr
          | some session => exact h.joined hlookup clientAddr _
  | wake i =>
      simp only [Lobbies.step, Option.map_eq_some_iff, Prod.mk.injEq] at hstep
      obtain ⟨shutdown, htask, rfl, rfl⟩ := hstep
      exact h.fired htask

end SendersInv

theorem sendersInv_of_reachable {c : Lobbies × List LobbyEvent}
    (hc : lobbyMachine.Reachable c) : SendersInv c.1 c.2 := by
  refine Machine.Reachable.induct (P := fun c => SendersInv c.1 c.2) .new ?_ hc
  rintro ⟨lobbies, trace⟩ action d _ h hstep
  obtain ⟨next, events, hnext, rfl⟩ := Machine.traced_step.mp hstep
  exact h.step hnext

theorem follows_of_step {c : Lobbies × List LobbyEvent} (hc : lobbyMachine.Reachable c)
    {action : LobbyAction} {next : Lobbies} {event : LobbyEvent}
    (hstep : c.1.step action = some (next, [event])) : event.Follows c.2 := by
  cases action with
  | message message =>
      obtain rfl := List.singleton_inj.mp (congrArg Prod.snd (Option.some.inj hstep))
      exact follows_report hc message
  | wake i =>
      simp only [Lobbies.step, Option.map_eq_some_iff, Prod.mk.injEq, List.singleton_inj] at hstep
      obtain ⟨shutdown, htask, -, rfl⟩ := hstep
      refine (sendersInv_of_reachable hc).timers.subset (List.mem_append_left _ ?_)
      exact List.mem_of_getElem? htask

/-- Every event of a history follows from those before it. -/
theorem follows_of_split {c : Lobbies × List LobbyEvent} (hc : lobbyMachine.Reachable c) :
    ∀ before event after, c.2 = before ++ event :: after → event.Follows before := by
  refine Machine.Reachable.induct (P := fun c => ∀ before event after,
    c.2 = before ++ event :: after → event.Follows before) ?_ ?_ hc
  · intro before event after hsplit
    cases before <;> cases hsplit
  · rintro c action d hreach h hstep before event after hsplit
    obtain ⟨next, events, hnext, rfl⟩ := Machine.traced_step.mp hstep
    obtain ⟨last, rfl, -⟩ := Lobbies.exists_event hnext
    rcases Machine.split_concat hsplit with ⟨rfl, rfl, -⟩ | ⟨rest, -, hold⟩
    · exact follows_of_step hreach hnext
    · exact h before event rest hold

/-! ## The two sides are told -/

/-- A task of the server by itself, with what it sends. -/
def taskMachine (server : Server) (i : ℕ) : Machine (Server × List Outgoing) Unit :=
  .traced server fun server _ => (server.run i).map fun done => (done.server, done.sent)

/-- A notification sends what is pending, in this order, and then nothing more. -/
theorem exec_notify (start : Server) {server : Server} {i : ℕ} {pending : List Outgoing}
    (htask : server.tasks[i]? = some (.notify pending)) (sent : List Outgoing) :
    ∃ final, (taskMachine start i).exec (server, sent) (List.replicate pending.length ()) =
      some (final, sent ++ pending) ∧ final.run i = none := by
  induction pending generalizing server sent with
  | nil => exact ⟨server, by simp, by simp [Server.run, htask]⟩
  | cons out pending ih =>
      obtain ⟨hlt, -⟩ := List.getElem?_eq_some_iff.mp htask
      have hstep : (taskMachine start i).step (server, sent) () =
          some ({ server with tasks := server.tasks.set i (.notify pending) }, sent ++ [out]) := by
        simp [taskMachine, Machine.traced, Server.run, htask]
      have htask' : (server.tasks.set i (.notify pending))[i]? = some (.notify pending) := by
        simp [hlt]
      obtain ⟨final, hexec, hover⟩ := @ih { server with
        tasks := server.tasks.set i (.notify pending) } htask' (sent ++ [out])
      refine ⟨final, ?_, hover⟩
      rw [List.length_cons, List.replicate_succ, Machine.exec_cons, hstep, Option.bind_some,
        hexec, List.append_assoc]
      rfl

/-- Given the manager's answer, `udp_handler` leaves a task behind that sends each side
the other's address, nothing but keep-alive packets besides, and nothing to anybody
else.  Without an answer it leaves nothing behind. -/
structure Notifies (server : Server) (clientAddr : SocketAddr) : Prop where
  answered : ∀ hostAddr, ∃ final sent,
    (taskMachine (server.resume (some hostAddr)) server.tasks.length).exec
      (server.resume (some hostAddr), []) (List.replicate sent.length ()) = some (final, sent) ∧
    final.run server.tasks.length = none ∧
    (clientAddr, hostAddr.toText) ∈ sent ∧ (hostAddr, clientAddr.toText) ∈ sent ∧
    ∀ out ∈ sent, out = (clientAddr, keepAlivePacket) ∨ out = (clientAddr, hostAddr.toText) ∨
      out = (hostAddr, clientAddr.toText)
  refused : (server.resume none).tasks = server.tasks

theorem notifies_of_joining {server : Server} {clientAddr : SocketAddr}
    (hjoining : server.joining = some clientAddr) : Notifies server clientAddr where
  answered hostAddr := by
    have htask : (server.resume (some hostAddr)).tasks[server.tasks.length]? =
        some (.notify (notification clientAddr hostAddr)) := by
      simp [Server.resume, hjoining]
    obtain ⟨final, hexec, hover⟩ := exec_notify (server.resume (some hostAddr)) htask []
    refine ⟨final, _, hexec, hover, ?_, ?_, fun out hmem => ?_⟩
    · simp [notification]
    · simp [notification]
    · simpa [notification] using hmem
  refused := by simp [Server.resume, hjoining]

/-! ## The books -/

/-- The bookkeeping of the manager over a whole run. -/
structure LobbiesKept (c : Lobbies × List LobbyEvent) : Prop where
  /-- A join is answered with the host that has created the lobby, or not at all. -/
  response : ∀ {before code clientAddr response scheduled after},
    c.2 = before ++ .joined code clientAddr response scheduled :: after →
    ∀ hostAddr, response = some hostAddr ↔
      ∃ shutdown dropped, .created code hostAddr shutdown dropped ∈ before
  /-- A shutdown channel is scheduled at the first join after its lobby's creation, -/
  scheduled : ∀ {before code clientAddr response scheduled after},
    c.2 = before ++ .joined code clientAddr response scheduled :: after →
    ∀ shutdown, scheduled = some shutdown ↔ ∃ earlier hostAddr dropped between,
      before = earlier ++ .created code hostAddr shutdown dropped :: between ∧
        ∀ clientAddr response scheduled,
          .joined code clientAddr response scheduled ∉ between
  /-- only once, -/
  once : (scheduledIn c.2).Nodup
  /-- and never dropped, -/
  undropped : ∀ {code hostAddr shutdown dropped},
    .created code hostAddr shutdown dropped ∈ c.2 → dropped = none
  /-- nor used before it is scheduled. -/
  fired : ∀ {before shutdown after}, c.2 = before ++ .fired shutdown :: after →
    shutdown ∈ scheduledIn before
  /-- Nothing that is not about a lobby changes its session. -/
  frame : ∀ {action next events code}, c.1.step action = some (next, events) →
    action.code ≠ some code →
    next.manager.session.lookup code = c.1.manager.session.lookup code
  /-- Both sides of a join are told, and nobody else. -/
  notified : ∀ {server : Server} {clientAddr : SocketAddr},
    server.joining = some clientAddr → Notifies server clientAddr

theorem nodup_createdCodes_of_split {trace before after : List LobbyEvent} {event : LobbyEvent}
    (hdistinct : (createdCodes trace).Nodup) (hsplit : trace = before ++ event :: after) :
    (createdCodes before).Nodup := by
  rw [hsplit, createdCodes, List.filterMap_append] at hdistinct
  exact (List.nodup_append.mp hdistinct).1

/-- With distinct codes no lobby is replaced. -/
theorem sessionAfter_of_new {trace before after : List LobbyEvent} {code : Uuid}
    {hostAddr : SocketAddr} {shutdown : ℕ} {dropped : Option ℕ}
    (hdistinct : (createdCodes trace).Nodup)
    (hsplit : trace = before ++ .created code hostAddr shutdown dropped :: after) :
    sessionAfter code before = none := by
  by_contra hsome
  obtain ⟨session, hsession⟩ := Option.ne_none_iff_exists'.mp hsome
  have hbefore := nodup_createdCodes_of_split hdistinct hsplit
  have hhost : (sessionAfter code before).map Session.hostAddr = some session.hostAddr := by
    rw [hsession]
    rfl
  obtain ⟨other, lost, hmem⟩ := (host_sessionAfter hbefore code _).mp hhost
  rw [hsplit, createdCodes, List.filterMap_append, List.filterMap_cons] at hdistinct
  exact (List.nodup_append.mp hdistinct).2.2 code
    (mem_createdCodes.mpr ⟨_, _, _, hmem⟩) code List.mem_cons_self rfl

/-- With distinct codes only joins are about a lobby that there is. -/
theorem untouched_iff {code : Uuid} {shutdown : ℕ} {trace : List LobbyEvent}
    (hdistinct : (createdCodes trace).Nodup) :
    Untouched code shutdown trace ↔ ∃ earlier hostAddr dropped between,
      trace = earlier ++ .created code hostAddr shutdown dropped :: between ∧
        ∀ clientAddr response scheduled,
          .joined code clientAddr response scheduled ∉ between := by
  constructor
  · rintro ⟨earlier, hostAddr, dropped, between, hsplit, hother⟩
    exact ⟨earlier, hostAddr, dropped, between, hsplit,
      fun clientAddr response scheduled hmem => hother _ hmem rfl⟩
  · rintro ⟨earlier, hostAddr, dropped, between, rfl, hjoined⟩
    refine ⟨earlier, hostAddr, dropped, between, rfl, fun event hmem hcode => ?_⟩
    rw [createdCodes, List.filterMap_append, List.filterMap_cons] at hdistinct
    have hnew := (List.nodup_cons.mp (List.nodup_append.mp hdistinct).2.1).1
    cases event with
    | created other host found lost =>
        cases hcode
        exact hnew (mem_createdCodes.mpr ⟨host, found, lost, hmem⟩)
    | joined other clientAddr response scheduled =>
        cases hcode
        exact hjoined clientAddr response scheduled hmem
    | fired found => cases hcode

/-- The manager keeps its lobbies in order: for every sequence of messages in which no code
is created twice. -/
theorem lobbies_kept {c : Lobbies × List LobbyEvent} (hc : lobbyMachine.Reachable c)
    (hdistinct : (createdCodes c.2).Nodup) : LobbiesKept c where
  response {before code clientAddr response scheduled after} hsplit hostAddr := by
    obtain ⟨hresponse, -⟩ := follows_of_split hc _ _ _ hsplit
    rw [hresponse]
    exact host_sessionAfter (nodup_createdCodes_of_split hdistinct hsplit) code hostAddr
  scheduled {before code clientAddr response scheduled after} hsplit shutdown := by
    obtain ⟨-, hscheduled⟩ := follows_of_split hc _ _ _ hsplit
    rw [hscheduled, shutdown_sessionAfter]
    exact untouched_iff (nodup_createdCodes_of_split hdistinct hsplit)
  once := (sendersInv_of_reachable hc).nodup
  undropped {code hostAddr shutdown dropped} hmem := by
    obtain ⟨before, after, hsplit⟩ := List.append_of_mem hmem
    have hdropped : dropped = (sessionAfter code before).bind Session.shutdownChannel :=
      follows_of_split hc _ _ _ hsplit
    rw [hdropped, sessionAfter_of_new hdistinct hsplit]
    rfl
  fired hsplit := follows_of_split hc _ _ _ hsplit
  frame {action next events code} hstep hcode := by
    obtain ⟨event, rfl, hevent⟩ := Lobbies.exists_event hstep
    rw [Lobbies.lookup_step hstep]
    exact LobbyEvent.apply_of_ne (hevent ▸ hcode) _
  notified := notifies_of_joining

/-- A join of no lobby, two lobbies, and three joins of the first one, of which the second
comes before its shutdown channel is used and the third after. -/
def twoLobbies : List LobbyAction :=
  [.message (.joinLobby (.replicate 16 1) (.v4 9 9)),
    .message (.createLobby (.replicate 16 1) (.v4 1 1)),
    .message (.createLobby (.replicate 16 2) (.v4 2 2)),
    .message (.joinLobby (.replicate 16 1) (.v4 3 3)),
    .message (.joinLobby (.replicate 16 1) (.v4 4 4)), .wake 0,
    .message (.joinLobby (.replicate 16 1) (.v4 5 5))]

def twoLobbiesTrace : List LobbyEvent :=
  [.joined (.replicate 16 1) (.v4 9 9) none none,
    .created (.replicate 16 1) (.v4 1 1) 1 none, .created (.replicate 16 2) (.v4 2 2) 2 none,
    .joined (.replicate 16 1) (.v4 3 3) (some (.v4 1 1)) (some 1),
    .joined (.replicate 16 1) (.v4 4 4) (some (.v4 1 1)) none, .fired 1,
    .joined (.replicate 16 1) (.v4 5 5) (some (.v4 1 1)) none]

theorem exec_twoLobbies : ∃ lobbies,
    lobbyMachine.exec lobbyMachine.init twoLobbies = some (lobbies, twoLobbiesTrace) := by
  have hrun : (lobbyMachine.exec lobbyMachine.init twoLobbies).map Prod.snd =
      some twoLobbiesTrace := by decide +kernel
  obtain ⟨c, hexec, htrace⟩ := Option.map_eq_some_iff.mp hrun
  exact ⟨c.1, by rw [hexec, ← htrace]⟩

theorem lobbies_kept_twoLobbies : ∃ lobbies,
    lobbyMachine.exec lobbyMachine.init twoLobbies = some (lobbies, twoLobbiesTrace) ∧
      LobbiesKept (lobbies, twoLobbiesTrace) := by
  obtain ⟨lobbies, hexec⟩ := exec_twoLobbies
  have hdistinct : (createdCodes twoLobbiesTrace).Nodup := by decide +kernel
  exact ⟨lobbies, hexec, lobbies_kept ⟨twoLobbies, hexec⟩ hdistinct⟩

end P2PNetworking.Rendezvous
