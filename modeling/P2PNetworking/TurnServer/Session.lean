/-
# Sessions, packets, and what a relay knows

A session pairs two endpoints, and a packet from one of them goes to the other.
However its tables are laid out, a relay that has been told of a list of sessions
knows one thing about each endpoint: the last session that names it.  `Known` is
that knowledge as a function, the common abstraction of the table of the first
implementation and of the two-level tables of the shards.
-/

import P2PNetworking.Net.Address
import P2PNetworking.Lib.Table

namespace P2PNetworking.TurnServer

open P2PNetworking.Net P2PNetworking.Lib

/-! ## Data -/

/-- `BUFFER_SIZE`, the bytes of one buffer. -/
def bufferSize : ℕ := 1500

/-- A packet in a pool buffer; the payload stays in the buffer. -/
structure Packet where
  bufIdx : UInt16
  len : ℕ
  src : SocketAddr
  deriving DecidableEq, Repr

/-- One session is one pair being relayed. -/
structure Session where
  hostAddr : SocketAddr
  peerAddr : SocketAddr
  deriving DecidableEq, Repr

inductive MessageType
  | addSession (session : Session)
  | transmit (packet : Packet)
  deriving DecidableEq, Repr

/-- Destination, length and buffer of a packet to send. -/
abbrev SqeType := SocketAddr × ℕ × UInt16

namespace Session

/-- The endpoint opposite to `src`. -/
def routeTo (session : Session) (src : SocketAddr) : Option SocketAddr :=
  if src = session.hostAddr then some session.peerAddr
  else if src = session.peerAddr then some session.hostAddr
  else none

/-- The endpoint is one of the two. -/
def names (session : Session) (addr : SocketAddr) : Bool :=
  addr = session.hostAddr || addr = session.peerAddr

/-- A session routes exactly the packets of the endpoints it names. -/
theorem isSome_routeTo {session : Session} {src : SocketAddr} :
    (session.routeTo src).isSome = session.names src := by
  unfold routeTo names
  split
  · next hhost => simp [hhost]
  · next hhost =>
    split
    · next hpeer => simp [hpeer]
    · next hpeer => simp [hhost, hpeer]

theorem names_of_routeTo {session : Session} {src dst : SocketAddr}
    (h : session.routeTo src = some dst) : session.names src = true := by
  rw [← isSome_routeTo, h]
  rfl

/-- A session routes between two endpoints that it names, both ways. -/
theorem routeTo_symm {session : Session} {src dst : SocketAddr}
    (h : session.routeTo src = some dst) : session.routeTo dst = some src := by
  unfold routeTo at h ⊢
  split at h
  · next hhost =>
    cases h
    split
    · next heq => rw [hhost, heq]
    · rw [if_pos rfl, hhost]
  · split at h
    · next hpeer =>
      cases h
      rw [if_pos rfl, hpeer]
    · cases h

/-- An endpoint is routed to any other endpoint of its session. -/
theorem routeTo_of_names {session : Session} {src dst : SocketAddr}
    (hsrc : session.names src = true) (hdst : session.names dst = true) (hne : src ≠ dst) :
    session.routeTo src = some dst := by
  simp only [names, Bool.or_eq_true, decide_eq_true_eq] at hsrc hdst
  unfold routeTo
  split
  · next hhost =>
    rcases hdst with rfl | rfl
    · exact absurd hhost hne
    · rfl
  · next hhost =>
    have hpeer := hsrc.resolve_left hhost
    rw [if_pos hpeer]
    rcases hdst with rfl | rfl
    · rfl
    · exact absurd hpeer hne

end Session

/-! ## Knowledge -/

/-- The session that a relay would use for a packet from an endpoint. -/
abbrev Known := SocketAddr → Option Session

namespace Known

/-- Nothing is known. -/
def nothing : Known := fun _ => none

/-- A new session replaces what was known about both its endpoints. -/
def learn (known : Known) (session : Session) : Known := fun addr =>
  if session.names addr then some session else known addr

/-- The message for a packet, if its source is known. -/
def answer (known : Known) (packet : Packet) : Option SqeType :=
  (known packet.src).bind fun session =>
    (session.routeTo packet.src).map fun dst => (dst, packet.len, packet.bufIdx)

/-- What is known after a list of sessions. -/
def ofSessions (sessions : List Session) : Known := sessions.foldl learn nothing

@[simp]
theorem ofSessions_nil : ofSessions [] = nothing := rfl

@[simp]
theorem ofSessions_concat (sessions : List Session) (session : Session) :
    ofSessions (sessions ++ [session]) = (ofSessions sessions).learn session := by
  simp [ofSessions]

/-- An endpoint is known by the last session that names it. -/
theorem ofSessions_eq_find? (sessions : List Session) (addr : SocketAddr) :
    ofSessions sessions addr = sessions.reverse.find? fun session => session.names addr := by
  induction sessions using List.reverseRecOn with
  | nil => rfl
  | append_singleton sessions session ih =>
      rw [ofSessions_concat, List.reverse_append, List.reverse_singleton,
        List.singleton_append, List.find?_cons, learn]
      cases session.names addr with
      | true => rfl
      | false => simpa using ih

/-- Endpoints are known by sessions that name them. -/
def Honest (known : Known) : Prop :=
  ∀ addr session, known addr = some session → session.names addr = true

theorem honest_nothing : nothing.Honest := by
  intro addr session h
  cases h

theorem Honest.learn {known : Known} (h : known.Honest) (session : Session) :
    (known.learn session).Honest := by
  intro addr other hother
  unfold Known.learn at hother
  split at hother
  · next hnames =>
    cases hother
    exact hnames
  · exact h addr other hother

theorem honest_ofSessions (sessions : List Session) : (ofSessions sessions).Honest := by
  induction sessions using List.reverseRecOn with
  | nil => exact honest_nothing
  | append_singleton sessions session ih =>
      rw [ofSessions_concat]
      exact ih.learn session

/-- An honest relay that knows the source has an answer. -/
theorem Honest.exists_answer {known : Known} (h : known.Honest) {packet : Packet}
    {session : Session} (hknown : known packet.src = some session) :
    ∃ dst, session.routeTo packet.src = some dst ∧
      known.answer packet = some (dst, packet.len, packet.bufIdx) := by
  have hnames := h packet.src session hknown
  rw [← Session.isSome_routeTo] at hnames
  obtain ⟨dst, hdst⟩ := Option.isSome_iff_exists.mp hnames
  exact ⟨dst, hdst, by simp [answer, hknown, hdst]⟩

end Known

/-! ## The first implementation -/

namespace FirstImpl

/-- The relay of `first_impl`: one table from endpoint to session. -/
structure Shard where
  sessionTable : Table SocketAddr Session

namespace Shard

def new : Shard := ⟨∅⟩

def addSession (shard : Shard) (session : Session) : Shard :=
  ⟨(shard.sessionTable.insert session.hostAddr session).insert session.peerAddr session⟩

/-- The message given to `tx_out.send`. -/
def handlePacket (shard : Shard) (packet : Packet) : Option SqeType :=
  match shard.sessionTable.lookup packet.src with
  | none => none
  | some session =>
      match session.routeTo packet.src with
      | some dst => some (dst, packet.len, packet.bufIdx)
      | none => none

/-- What the table says. -/
def known (shard : Shard) : Known := fun addr => shard.sessionTable.lookup addr

@[simp]
theorem known_new : new.known = .nothing := rfl

@[simp]
theorem known_addSession (shard : Shard) (session : Session) :
    (shard.addSession session).known = shard.known.learn session := by
  funext addr
  simp only [known, addSession, Known.learn, Session.names, Table.lookup_insert_eq_ite,
    Bool.or_eq_true, decide_eq_true_eq]
  by_cases hpeer : addr = session.peerAddr
  · simp [hpeer]
  · simp [hpeer]

theorem handlePacket_eq_answer (shard : Shard) (packet : Packet) :
    shard.handlePacket packet = shard.known.answer packet := by
  unfold handlePacket Known.answer known
  cases shard.sessionTable.lookup packet.src with
  | none => rfl
  | some session =>
      simp only [Option.bind_some]
      cases session.routeTo packet.src <;> rfl

/-- After a list of sessions the table holds, for every endpoint, the last one
that names it. -/
theorem known_foldl (shard : Shard) (sessions : List Session) :
    (sessions.foldl addSession shard).known = sessions.foldl Known.learn shard.known := by
  induction sessions generalizing shard with
  | nil => rfl
  | cons session sessions ih => simp [ih]

end Shard

end FirstImpl

end P2PNetworking.TurnServer
