/-
# Whom the two sides end up with

Everything that travels is one of a few kinds of datagram: the requests, and what the
server makes of them.  A client is only ever told the address of the host that made the
code it asked for, and a host only addresses of clients that asked for one of its codes.
With several such clients the host may take up another one's address.
-/

import P2PNetworking.Rendezvous.Exchange

namespace P2PNetworking.Rendezvous

open P2PNetworking.Net P2PNetworking.Lib P2PNetworking.Peer

variable {serverAddr : SocketAddr} {trace trace' : List Event}

/-! ## What travels -/

/-- What a party sends to the server. -/
inductive IsRequest (trace : List Event) (src : SocketAddr) : List UInt8 → Prop
  | create (hlistened : .listened src ∈ trace) : IsRequest trace src [Peer.lobbyCreate]
  | join {code : Uuid} (hasked : .asked src code ∈ trace) :
      IsRequest trace src (Peer.lobbyJoin :: code.toList)
  | echo : IsRequest trace src echo

/-- What the server sends to a party. -/
inductive IsNotice (trace : List Event) (dst : SocketAddr) : List UInt8 → Prop
  | keepAlive : IsNotice trace dst keepAlivePacket
  | code {code : Uuid} (hcreated : .created code dst ∈ trace) : IsNotice trace dst code.toList
  | hostAddr {code : Uuid} {host : SocketAddr} (hcreated : .created code host ∈ trace)
      (hasked : .asked dst code ∈ trace) : IsNotice trace dst host.toText
  | clientAddr {code : Uuid} {client : SocketAddr} (hcreated : .created code dst ∈ trace)
      (hasked : .asked client code ∈ trace) : IsNotice trace dst client.toText

theorem IsRequest.mono (hsubset : trace ⊆ trace') {src : SocketAddr} {bytes : List UInt8}
    (h : IsRequest trace src bytes) : IsRequest trace' src bytes := by
  cases h with
  | create hlistened => exact .create (hsubset hlistened)
  | join hasked => exact .join (hsubset hasked)
  | echo => exact .echo

theorem IsNotice.mono (hsubset : trace ⊆ trace') {dst : SocketAddr} {bytes : List UInt8}
    (h : IsNotice trace dst bytes) : IsNotice trace' dst bytes := by
  cases h with
  | keepAlive => exact .keepAlive
  | code hcreated => exact .code (hsubset hcreated)
  | hostAddr hcreated hasked => exact .hostAddr (hsubset hcreated) (hsubset hasked)
  | clientAddr hcreated hasked => exact .clientAddr (hsubset hcreated) (hsubset hasked)

/-- What has happened hangs together. -/
structure History (serverAddr : SocketAddr) (trace : List Event) : Prop where
  listened : ∀ host, .listened host ∈ trace → IsIpv4 host ∧ host ≠ serverAddr
  asked : ∀ client code, .asked client code ∈ trace → IsIpv4 client ∧ client ≠ serverAddr
  created : ∀ code host, .created code host ∈ trace → IsUuidV4 code ∧ .listened host ∈ trace
  unique : ∀ code host host', .created code host ∈ trace → .created code host' ∈ trace →
    host = host'
  hostReturned : ∀ host addr, .hostReturned host addr ∈ trace →
    ∃ code, .created code host ∈ trace ∧ .asked addr code ∈ trace
  clientReturned : ∀ client code addr, .clientReturned client code addr ∈ trace →
    .created code addr ∈ trace ∧ .asked client code ∈ trace

theorem History.nil : History serverAddr [] := by
  constructor <;> simp

/-- What may happen after a history. -/
def Admissible (serverAddr : SocketAddr) (trace : List Event) : Event → Prop
  | .listened host => IsIpv4 host ∧ host ≠ serverAddr
  | .asked client _ => IsIpv4 client ∧ client ≠ serverAddr
  | .created code host => (IsUuidV4 code ∧ code ∉ codes trace) ∧ .listened host ∈ trace
  | .hostReturned host addr => ∃ code, .created code host ∈ trace ∧ .asked addr code ∈ trace
  | .clientReturned client code addr => .created code addr ∈ trace ∧ .asked client code ∈ trace

theorem History.concat (h : History serverAddr trace) {event : Event}
    (hevent : Admissible serverAddr trace event) : History serverAddr (trace ++ [event]) := by
  have hold : trace ⊆ trace ++ [event] := List.subset_append_left _ _
  have hsplit : ∀ {other : Event}, other ∈ trace ++ [event] → other ∈ trace ∨ other = event := by
    intro other hmem
    simpa using hmem
  constructor
  · intro host hmem
    rcases hsplit hmem with hmem | rfl
    · exact h.listened host hmem
    · exact hevent
  · intro client code hmem
    rcases hsplit hmem with hmem | rfl
    · exact h.asked client code hmem
    · exact hevent
  · intro code host hmem
    rcases hsplit hmem with hmem | rfl
    · exact (h.created code host hmem).imp_right fun hlistened => hold hlistened
    · exact ⟨hevent.1.1, hold hevent.2⟩
  · intro code host host' hmem hmem'
    rcases hsplit hmem with hfirst | rfl
    · rcases hsplit hmem' with hsecond | rfl
      · exact h.unique code host host' hfirst hsecond
      · exact absurd (mem_codes.mpr ⟨host, hfirst⟩) hevent.1.2
    · rcases hsplit hmem' with hsecond | hsame
      · exact absurd (mem_codes.mpr ⟨host', hsecond⟩) hevent.1.2
      · exact (Event.created.inj hsame).2.symm
  · intro host addr hmem
    obtain ⟨code, hcreated, hasked⟩ : ∃ code, .created code host ∈ trace ∧
        .asked addr code ∈ trace := by
      rcases hsplit hmem with hmem | rfl
      · exact h.hostReturned host addr hmem
      · exact hevent
    exact ⟨code, hold hcreated, hold hasked⟩
  · intro client code addr hmem
    obtain ⟨hcreated, hasked⟩ : .created code addr ∈ trace ∧ .asked client code ∈ trace := by
      rcases hsplit hmem with hmem | rfl
      · exact h.clientReturned client code addr hmem
      · exact hevent
    exact ⟨hold hcreated, hold hasked⟩

/-- An address that is sent is read as it was written. -/
theorem fromStr_take_of_isIpv4 {addr : SocketAddr} (haddr : IsIpv4 addr) :
    SocketAddr.fromStr (addr.toText.take Peer.bufSize) = some addr := by
  cases addr with
  | v4 ip port => exact fromStr_take_toText ip port
  | v6 => cases haddr

/-- A code is never read as an address. -/
theorem fromStr_take_code {code : Uuid} (hcode : IsUuidV4 code) :
    SocketAddr.fromStr (code.toList.take Peer.bufSize) = none := by
  have hlength : code.toList.length ≤ Peer.bufSize := by simp [Peer.bufSize]
  rw [List.take_of_length_le hlength]
  cases hparse : SocketAddr.fromStr code.toList with
  | none => rfl
  | some addr =>
      have hmem : code[8] ∈ code.toList := by simp
      have hprintable := printable_of_fromStr hparse _ hmem
      have hle : (code[8] &&& 0xc0).toNat ≤ code[8].toNat := by
        rw [UInt8.toNat_and]
        exact Nat.and_le_left
      rw [hcode.2] at hle
      exact absurd (Nat.lt_of_le_of_lt hle hprintable.2) (by decide)

/-- An address in a notice is that of a host whose code has been asked for, or that of a
client who asked for a code. -/
theorem IsNotice.address (hhistory : History serverAddr trace) {dst addr : SocketAddr}
    {bytes : List UInt8} (h : IsNotice trace dst bytes)
    (hparse : SocketAddr.fromStr (bytes.take Peer.bufSize) = some addr) :
    ∃ code, (.created code addr ∈ trace ∧ .asked dst code ∈ trace) ∨
      (.created code dst ∈ trace ∧ .asked addr code ∈ trace) := by
  cases h with
  | keepAlive =>
      have hnone : SocketAddr.fromStr (keepAlivePacket.take Peer.bufSize) = none := rfl
      rw [hnone] at hparse
      cases hparse
  | code hcreated =>
      rw [fromStr_take_code (hhistory.created _ _ hcreated).1] at hparse
      cases hparse
  | hostAddr hcreated hasked =>
      have hhost := hhistory.listened _ (hhistory.created _ _ hcreated).2
      rw [fromStr_take_of_isIpv4 hhost.1] at hparse
      cases hparse
      exact ⟨_, .inl ⟨hcreated, hasked⟩⟩
  | clientAddr hcreated hasked =>
      rw [fromStr_take_of_isIpv4 (hhistory.asked _ _ hasked).1] at hparse
      cases hparse
      exact ⟨_, .inr ⟨hcreated, hasked⟩⟩

/-! ## The server -/

/-- What the server may send. -/
def MaySend (serverAddr : SocketAddr) (trace : List Event) (out : Outgoing) : Prop :=
  out.1 ≠ serverAddr ∧ IsNotice trace out.1 out.2

/-- What is known of the channel to the manager: lobbies have been created, and a join is
the last message and the one that is waited for. -/
def InboxSound (trace : List Event) (joining : Option SocketAddr) :
    List (MessageType × ℕ) → Prop
  | [] => joining = none
  | (.createLobby code host, _) :: rest =>
      .created code host ∈ trace ∧ InboxSound trace joining rest
  | (.joinLobby code client, _) :: rest =>
      .asked client code ∈ trace ∧ joining = some client ∧ rest = []

/-- The sessions are lobbies that have been created. -/
def SessionsSound (trace : List Event) (session : Table Uuid Session) : Prop :=
  ∀ code found, session.lookup code = some found → .created code found.hostAddr ∈ trace

/-- What is known of a task. -/
def TaskSound (serverAddr : SocketAddr) (trace : List Event) : Task → Prop
  | .keepAlive _ host => host ≠ serverAddr
  | .notify pending => ∀ out ∈ pending, MaySend serverAddr trace out
  | .timer _ => True

/-- All that the server holds comes from requests. -/
structure Server.Sound (serverAddr : SocketAddr) (trace : List Event) (server : Server) :
    Prop where
  inbox : InboxSound trace server.joining server.inbox
  session : SessionsSound trace server.manager.session
  tasks : ∀ task ∈ server.tasks, TaskSound serverAddr trace task

theorem InboxSound.mono (hsubset : trace ⊆ trace') {joining : Option SocketAddr}
    {inbox : List (MessageType × ℕ)} (h : InboxSound trace joining inbox) :
    InboxSound trace' joining inbox := by
  induction inbox with
  | nil => exact h
  | cons mail rest ih =>
      obtain ⟨message, channel⟩ := mail
      cases message with
      | createLobby code host => exact ⟨hsubset h.1, ih h.2⟩
      | joinLobby code client => exact ⟨hsubset h.1, h.2⟩

theorem InboxSound.append {joining : Option SocketAddr} {inbox more : List (MessageType × ℕ)}
    (h : InboxSound trace none inbox) (hmore : InboxSound trace joining more) :
    InboxSound trace joining (inbox ++ more) := by
  induction inbox with
  | nil => exact hmore
  | cons mail rest ih =>
      obtain ⟨message, channel⟩ := mail
      cases message with
      | createLobby code host => exact ⟨h.1, ih h.2⟩
      | joinLobby code client => cases h.2.1

theorem SessionsSound.insert {session : Table Uuid Session} (h : SessionsSound trace session)
    {code : Uuid} {new : Session} (hcreated : .created code new.hostAddr ∈ trace) :
    SessionsSound trace (session.insert code new) := by
  intro other found hlookup
  rw [Table.lookup_insert_eq_ite] at hlookup
  split at hlookup
  · next hsame =>
    cases hlookup
    rw [hsame]
    exact hcreated
  · exact h other found hlookup

theorem TaskSound.mono (hsubset : trace ⊆ trace') {task : Task}
    (h : TaskSound serverAddr trace task) : TaskSound serverAddr trace' task := by
  cases task with
  | keepAlive => exact h
  | notify pending => exact fun out hout => ⟨(h out hout).1, (h out hout).2.mono hsubset⟩
  | timer => exact trivial

theorem Server.Sound.mono (hsubset : trace ⊆ trace') {server : Server}
    (h : server.Sound serverAddr trace) : server.Sound serverAddr trace' where
  inbox := h.inbox.mono hsubset
  session code session hlookup := hsubset (h.session code session hlookup)
  tasks task htask := (h.tasks task htask).mono hsubset

theorem Server.Sound.new : Server.new.Sound serverAddr trace := by
  constructor <;> simp [Server.new, InboxSound, SessionsSound]

/-- What follows a join names the host of the code and the client that asked for it. -/
theorem maySend_notification (hhistory : History serverAddr trace) {code : Uuid}
    {host client : SocketAddr} (hcreated : .created code host ∈ trace)
    (hasked : .asked client code ∈ trace) :
    ∀ out ∈ notification client host, MaySend serverAddr trace out := by
  have hhost := hhistory.listened host (hhistory.created code host hcreated).2
  have hclient := hhistory.asked client code hasked
  intro out hout
  rcases List.mem_append.mp hout with hout | hout
  · rw [List.eq_of_mem_replicate hout]
    exact ⟨hclient.2, .keepAlive⟩
  · simp only [List.mem_cons, List.not_mem_nil, or_false] at hout
    rcases hout with rfl | rfl
    · exact ⟨hclient.2, .hostAddr hcreated hasked⟩
    · exact ⟨hhost.2, .clientAddr hcreated hasked⟩

/-- A request is understood for what it is, whatever the buffer held before. -/
theorem message_of_isRequest {src : SocketAddr} {bytes : List UInt8}
    (h : IsRequest trace src bytes) (buf : RecvBuffer bufSize) (fresh : Uuid) :
    (message (buf.fill bytes) src fresh = some (.createLobby fresh src) ∧
      .listened src ∈ trace) ∨
    (∃ code, message (buf.fill bytes) src fresh = some (.joinLobby code src) ∧
      .asked src code ∈ trace) ∨
    message (buf.fill bytes) src fresh = none := by
  cases h with
  | create hlistened =>
      refine .inl ⟨?_, hlistened⟩
      rw [message, UdpHandler.head_fill_of_ne_nil (by simp)]
      rfl
  | @join code hasked =>
      refine .inr (.inl ⟨code, ?_, hasked⟩)
      have hcode : Uuid.fromSlice (((Peer.lobbyJoin :: code.toList).drop 1).take 16) =
          some code := by
        rw [Uuid.fromSlice_eq_some, List.drop_succ_cons, List.drop_zero]
        exact (List.take_of_length_le (by simp)).symm
      rw [message, UdpHandler.head_fill_of_ne_nil (by simp),
        UdpHandler.code_fill_of_le (by simp), hcode]
      rfl
  | echo =>
      refine .inr (.inr ?_)
      rw [message, UdpHandler.head_fill_of_ne_nil (by simp [Peer.echo])]
      rfl

/-- After the step the server is sound, and it may send what it sends. -/
structure ServerStep.Sound (serverAddr : SocketAddr) (trace : List Event) (done : ServerStep) :
    Prop where
  server : done.server.Sound serverAddr trace
  sent : ∀ out ∈ done.sent, MaySend serverAddr trace out

namespace Server.Sound

variable {server : Server} {done : ServerStep}

theorem receive (h : server.Sound serverAddr trace) (hhistory : History serverAddr trace)
    {request : Request} (hrequest : IsRequest trace request.src request.bytes)
    (hstep : server.receive request = some done) (hfresh : FreshCodes (trace ++ done.events)) :
    done.Sound serverAddr (trace ++ done.events) ∧
      History serverAddr (trace ++ done.events) := by
  obtain ⟨src, bytes, fresh⟩ := request
  simp only [Server.receive, UdpHandler.handle] at hstep
  split at hstep
  · cases hstep
  · next hidle =>
    obtain ⟨hmessage, hlistened⟩ | ⟨code, hmessage, hasked⟩ | hmessage :=
      message_of_isRequest hrequest server.handler.buf fresh
    · simp only [hmessage] at hstep
      split at hstep
      · cases hstep
        have hcreated : .created fresh src ∈ trace ++ [.created fresh src] := by simp
        have hsrc := (hhistory.listened src hlistened).2
        have hold := h.mono (List.subset_append_left trace [.created fresh src])
        have hinbox := hold.inbox
        have hnone := not_not.mp hidle
        rw [hnone] at hinbox
        refine ⟨⟨⟨hinbox.append ⟨hcreated, hnone⟩, hold.session, fun task htask => ?_⟩, ?_⟩,
          hhistory.concat ⟨hfresh.of_created, hlistened⟩⟩
        · rcases List.mem_append.mp htask with htask | htask
          · exact hold.tasks task htask
          · rw [List.mem_singleton.mp htask]
            exact hsrc
        · intro out hout
          rw [List.mem_singleton.mp hout]
          exact ⟨hsrc, .code hcreated⟩
      · cases hstep
    · simp only [hmessage] at hstep
      split at hstep
      · cases hstep
        simp only [ServerStep.events, Option.toList_none, List.map_nil, List.append_nil]
        have hinbox := h.inbox
        rw [not_not.mp hidle] at hinbox
        exact ⟨⟨⟨hinbox.append ⟨hasked, rfl, rfl⟩, h.session, h.tasks⟩, by simp⟩, hhistory⟩
      · cases hstep
    · simp only [hmessage] at hstep
      cases hstep
      simp only [ServerStep.events, Option.toList_none, List.map_nil, List.append_nil]
      exact ⟨⟨⟨h.inbox, h.session, h.tasks⟩, by simp⟩, hhistory⟩

theorem manage (h : server.Sound serverAddr trace) (hhistory : History serverAddr trace)
    (hstep : server.manage = some done) :
    done.opened = none ∧ done.Sound serverAddr trace := by
  unfold Server.manage at hstep
  split at hstep
  · cases hstep
  · next message channel inbox heq =>
    have hinbox := h.inbox
    rw [heq] at hinbox
    cases message with
    | createLobby code host =>
        cases hstep
        refine ⟨rfl, ⟨hinbox.2, h.session.insert hinbox.1, ?_⟩, by simp⟩
        simpa [RelayManager.handle] using h.tasks
    | joinLobby code client =>
        obtain ⟨hasked, hjoining, rfl⟩ := hinbox
        cases hstep
        cases hlookup : server.manager.session.lookup code with
        | none =>
            simp only [RelayManager.handle, hlookup, Server.resume, hjoining]
            exact ⟨trivial, ⟨rfl, h.session, by simpa using h.tasks⟩, by simp⟩
        | some session =>
            have hcreated := h.session code session hlookup
            simp only [RelayManager.handle, hlookup, Server.resume, hjoining]
            refine ⟨trivial, ⟨rfl, h.session.insert hcreated, fun task htask => ?_⟩, by simp⟩
            simp only [List.mem_append, List.mem_map, List.mem_singleton] at htask
            rcases htask with (htask | ⟨shutdown, -, rfl⟩) | rfl
            · exact h.tasks task htask
            · exact trivial
            · exact maySend_notification hhistory hcreated hasked

theorem run (h : server.Sound serverAddr trace) {i : ℕ} (hstep : server.run i = some done) :
    done.opened = none ∧ done.Sound serverAddr trace := by
  unfold Server.run at hstep
  split at hstep
  · next shutdown host htask =>
    cases hstep
    have hhost := h.tasks _ (List.mem_of_getElem? htask)
    refine ⟨rfl, h, fun out hout => ?_⟩
    rw [List.mem_singleton.mp hout]
    exact ⟨hhost, .keepAlive⟩
  · next out pending htask =>
    cases hstep
    have hpending := h.tasks _ (List.mem_of_getElem? htask)
    refine ⟨rfl, ⟨h.inbox, h.session, fun task hmem => ?_⟩, fun other hother => ?_⟩
    · rcases List.mem_or_eq_of_mem_set hmem with hmem | rfl
      · exact h.tasks task hmem
      · exact fun other hother => hpending other (List.mem_cons_of_mem _ hother)
    · rw [List.mem_singleton.mp hother]
      exact hpending out List.mem_cons_self
  · cases hstep
    exact ⟨rfl, ⟨h.inbox, h.session, fun task hmem => h.tasks task (List.mem_of_mem_eraseIdx hmem)⟩,
      by simp⟩
  · cases hstep

theorem stop (h : server.Sound serverAddr trace) {i : ℕ} (hstep : server.stop i = some done) :
    done.opened = none ∧ done.Sound serverAddr trace := by
  unfold Server.stop at hstep
  split at hstep
  · split at hstep
    · cases hstep
      exact ⟨rfl, ⟨h.inbox, h.session,
        fun task hmem => h.tasks task (List.mem_of_mem_eraseIdx hmem)⟩, by simp⟩
    · cases hstep
  · cases hstep

end Server.Sound

/-! ## The parties -/

/-- A call that has begun is still there. -/
def PartiesSound (trace : List Event) (parties : Table SocketAddr Party) : Prop :=
  ∀ addr (started : Party), started.began addr ∈ trace →
    ∃ party, parties.lookup addr = some party ∧ party.began addr = started.began addr

namespace PartiesSound

variable {parties : Table SocketAddr Party}

/-- A call begins where there was none. -/
theorem start (h : PartiesSound trace parties) {addr : SocketAddr}
    (hnone : parties.lookup addr = none) (party : Party) :
    PartiesSound (trace ++ [party.began addr]) (parties.insert addr party) := by
  intro other started hmem
  rw [Table.lookup_insert_eq_ite]
  rcases List.mem_append.mp hmem with hmem | hmem
  · obtain ⟨found, hfound, hbegan⟩ := h other started hmem
    have hne : other ≠ addr := by
      rintro rfl
      rw [hnone] at hfound
      cases hfound
    exact ⟨found, by rw [if_neg hne, hfound], hbegan⟩
  · have hbegan := List.mem_singleton.mp hmem
    obtain rfl := Party.eq_of_began_eq hbegan
    exact ⟨party, if_pos rfl, hbegan.symm⟩

/-- A call goes on. -/
theorem receive (h : PartiesSound trace parties) {addr : SocketAddr} {party : Party}
    (hparty : parties.lookup addr = some party) (incoming : Incoming) :
    PartiesSound trace (parties.insert addr (party.receive incoming).1) := by
  intro other started hmem
  obtain ⟨found, hfound, hbegan⟩ := h other started hmem
  rw [Table.lookup_insert_eq_ite]
  split
  · next hsame =>
    subst hsame
    cases hparty.symm.trans hfound
    exact ⟨_, rfl, (Party.began_receive other party incoming).trans hbegan⟩
  · exact ⟨found, hfound, hbegan⟩

/-- No call begins. -/
theorem append (h : PartiesSound trace parties) {events : List Event}
    (hnone : ∀ addr (started : Party), started.began addr ∉ events) :
    PartiesSound (trace ++ events) parties := fun addr started hmem =>
  h addr started ((List.mem_append.mp hmem).resolve_right (hnone addr started))

theorem host (h : PartiesSound trace parties) {addr : SocketAddr} (hmem : .listened addr ∈ trace) :
    ∃ call, parties.lookup addr = some (.host call) := by
  obtain ⟨party, hparty, hbegan⟩ := h addr (.host .new) hmem
  cases party with
  | host call => exact ⟨call, hparty⟩
  | client => cases hbegan

theorem client (h : PartiesSound trace parties) {addr : SocketAddr} {code : Uuid}
    (hmem : .asked addr code ∈ trace) : ∃ call, parties.lookup addr = some (.client code call) := by
  obtain ⟨party, hparty, hbegan⟩ := h addr (.client code .new) hmem
  cases party with
  | host => cases hbegan
  | client code call =>
      cases hbegan
      exact ⟨call, hparty⟩

end PartiesSound

theorem Party.sent_receive {party : Party} {incoming : Incoming} {out : Outgoing}
    (hout : out ∈ (party.receive incoming).2) :
    ∃ src bytes, incoming = .datagram src bytes ∧ out = (src, echo) := by
  cases party with
  | host call => exact ListenToRelay.sent_receive hout
  | client code call => exact RequestHostAddr.sent_receive hout

/-- A party that returns has read the address it returns. -/
theorem Party.fromStr_of_returns {party : Party} {incoming : Incoming} {addr : SocketAddr}
    {event : Event} (hmem : event ∈ Exchange.returns addr party (party.receive incoming).1) :
    ∃ src bytes found, incoming = .datagram src bytes ∧
      SocketAddr.fromStr (bytes.take Peer.bufSize) = some found ∧
      event = party.returned addr found := by
  unfold Exchange.returns at hmem
  split at hmem
  · next found hwaiting hreturned =>
    rw [List.mem_singleton.mp hmem]
    cases party with
    | host call =>
        obtain ⟨src, bytes, hincoming, hparse⟩ :=
          ListenToRelay.fromStr_of_returned hwaiting hreturned
        exact ⟨src, bytes, found, hincoming, hparse, rfl⟩
    | client code call =>
        obtain ⟨src, bytes, hincoming, hparse⟩ :=
          RequestHostAddr.fromStr_of_returned hwaiting hreturned
        exact ⟨src, bytes, found, hincoming, hparse, rfl⟩
  · cases hmem

/-! ## The system -/

/-- A datagram under way is a request or comes from the server. -/
def Carried (serverAddr : SocketAddr) (trace : List Event) (datagram : Datagram) : Prop :=
  (datagram.dst = serverAddr ∧ IsRequest trace datagram.src datagram.bytes) ∨
    (datagram.src = serverAddr ∧ MaySend serverAddr trace (datagram.dst, datagram.bytes))

theorem Carried.mono (hsubset : trace ⊆ trace') {datagram : Datagram}
    (h : Carried serverAddr trace datagram) : Carried serverAddr trace' datagram :=
  h.imp (fun h => ⟨h.1, h.2.mono hsubset⟩) fun h => ⟨h.1, h.2.1, h.2.2.mono hsubset⟩

/-- The invariant of the exchange. -/
structure Exchange.Sound (serverAddr : SocketAddr) (exchange : Exchange) (trace : List Event) :
    Prop where
  history : History serverAddr trace
  server : exchange.server.Sound serverAddr trace
  parties : PartiesSound trace exchange.parties
  inFlight : ∀ datagram ∈ exchange.inFlight, Carried serverAddr trace datagram

namespace Exchange.Sound

variable {exchange exchange' : Exchange} {events : List Event}

theorem new : Exchange.new.Sound serverAddr [] where
  history := .nil
  server := .new
  parties := fun _ _ hmem => by cases hmem
  inFlight := by simp [Exchange.new]

theorem start (h : exchange.Sound serverAddr trace) {addr : SocketAddr} {party : Party}
    {request : Outgoing} (hdst : request.1 = serverAddr)
    (hrequest : IsRequest [party.began addr] addr request.2)
    (hstep : exchange.start serverAddr addr party request = some (exchange', events)) :
    exchange'.Sound serverAddr (trace ++ events) := by
  unfold Exchange.start at hstep
  split at hstep
  · next hstart =>
    obtain ⟨hipv4, hne, hnone⟩ := hstart
    cases hstep
    have hold : trace ⊆ trace ++ [party.began addr] := List.subset_append_left _ _
    have hbegan : Admissible serverAddr trace (party.began addr) := by
      cases party with
      | host => exact ⟨hipv4, hne⟩
      | client => exact ⟨hipv4, hne⟩
    refine ⟨h.history.concat hbegan, h.server.mono hold, h.parties.start hnone party, ?_⟩
    intro datagram hmem
    rcases List.mem_append.mp hmem with hmem | hmem
    · exact (h.inFlight datagram hmem).mono hold
    · simp only [wire, List.map_cons, List.map_nil, List.mem_singleton] at hmem
      rw [hmem]
      exact .inl ⟨hdst, hrequest.mono (List.subset_append_right _ _)⟩
  · cases hstep

theorem atServer (h : exchange.Sound serverAddr trace) {step : Option ServerStep}
    (hserver : ∀ done, step = some done → done.events = events →
      done.Sound serverAddr (trace ++ events) ∧ History serverAddr (trace ++ events))
    (hstep : exchange.atServer serverAddr step = some (exchange', events)) :
    exchange'.Sound serverAddr (trace ++ events) := by
  obtain ⟨done, hdone, hsame⟩ := Option.map_eq_some_iff.mp hstep
  cases hsame
  obtain ⟨hsound, hhistory⟩ := hserver done hdone rfl
  refine ⟨hhistory, hsound.server, h.parties.append fun addr started hmem => ?_,
    fun datagram hmem => ?_⟩
  · obtain ⟨lobby, -, hlobby⟩ := List.mem_map.mp hmem
    cases started <;> cases hlobby
  · rcases List.mem_append.mp hmem with hmem | hmem
    · exact (h.inFlight datagram hmem).mono (List.subset_append_left _ _)
    · obtain ⟨out, hout, rfl⟩ := mem_wire.mp hmem
      exact .inr ⟨rfl, hsound.sent out hout⟩

/-- A step of the server that opens no lobby. -/
theorem atServer_of_opened (h : exchange.Sound serverAddr trace) {step : Option ServerStep}
    (hserver : ∀ done, step = some done → done.opened = none ∧ done.Sound serverAddr trace)
    (hstep : exchange.atServer serverAddr step = some (exchange', events)) :
    exchange'.Sound serverAddr (trace ++ events) := by
  refine h.atServer (fun done hdone hevents => ?_) hstep
  obtain ⟨hopened, hsound⟩ := hserver done hdone
  rw [← hevents, ServerStep.events, hopened, Option.toList_none, List.map_nil, List.append_nil]
  exact ⟨hsound, h.history⟩

/-- What a party returns has been told to it, and to a party of its kind. -/
theorem admissible_of_returns (h : exchange.Sound serverAddr trace) {addr : SocketAddr}
    {party : Party} (hparty : exchange.parties.lookup addr = some party) {incoming : Incoming}
    (hincoming : ∀ src bytes, incoming = .datagram src bytes → IsNotice trace addr bytes)
    {event : Event} (hmem : event ∈ returns addr party (party.receive incoming).1) :
    Admissible serverAddr trace event := by
  obtain ⟨src, bytes, found, hdatagram, hparse, rfl⟩ := Party.fromStr_of_returns hmem
  obtain ⟨code, ⟨hcreated, hasked⟩ | ⟨hcreated, hasked⟩⟩ :=
    (hincoming src bytes hdatagram).address h.history hparse
  · obtain ⟨call, hcall⟩ := h.parties.client hasked
    cases hparty.symm.trans hcall
    exact ⟨hcreated, hasked⟩
  · obtain ⟨call, hcall⟩ := h.parties.host (h.history.created code addr hcreated).2
    cases hparty.symm.trans hcall
    exact ⟨code, hcreated, hasked⟩

theorem atParty (h : exchange.Sound serverAddr trace) {addr : SocketAddr} {incoming : Incoming}
    (hincoming : ∀ src bytes, incoming = .datagram src bytes →
      src = serverAddr ∧ IsNotice trace addr bytes)
    (hstep : exchange.atParty addr incoming = some (exchange', events)) :
    exchange'.Sound serverAddr (trace ++ events) := by
  unfold Exchange.atParty at hstep
  split at hstep
  · cases hstep
    rw [List.append_nil]
    exact h
  · next party hparty =>
    cases hstep
    have hadmissible : ∀ event ∈ returns addr party (party.receive incoming).1,
        Admissible serverAddr trace event := fun event hmem =>
      h.admissible_of_returns hparty (fun src bytes hsame => (hincoming src bytes hsame).2) hmem
    have hold : trace ⊆ trace ++ returns addr party (party.receive incoming).1 :=
      List.subset_append_left _ _
    have hhistory : History serverAddr
        (trace ++ returns addr party (party.receive incoming).1) := by
      rcases returns_eq addr party (party.receive incoming).1 with hnone | ⟨found, hsome⟩
      · rw [hnone, List.append_nil]
        exact h.history
      · rw [hsome]
        exact h.history.concat (hadmissible _ (by simp [hsome]))
    refine ⟨hhistory, h.server.mono hold, (h.parties.receive hparty incoming).append ?_, ?_⟩
    · intro other started hmem
      obtain ⟨src, bytes, found, -, -, hevent⟩ := Party.fromStr_of_returns hmem
      cases started <;> cases party <;> cases hevent
    · intro datagram hmem
      rcases List.mem_append.mp hmem with hmem | hmem
      · exact (h.inFlight datagram hmem).mono hold
      · obtain ⟨out, hout, rfl⟩ := mem_wire.mp hmem
        obtain ⟨src, bytes, hdatagram, rfl⟩ := Party.sent_receive hout
        exact .inl ⟨(hincoming src bytes hdatagram).1, .echo⟩

/-- The invariant is kept by every step as long as codes are fresh. -/
theorem step (h : exchange.Sound serverAddr trace) {action : Action}
    (hstep : exchange.step serverAddr action = some (exchange', events))
    (hfresh : FreshCodes (trace ++ events)) :
    exchange'.Sound serverAddr (trace ++ events) := by
  cases action with
  | listen host =>
      have hrequest : IsRequest [(Party.host .new).began host] host
          (ListenToRelay.request serverAddr).2 := .create List.mem_cons_self
      exact h.start rfl hrequest hstep
  | ask client code =>
      have hrequest : IsRequest [(Party.client code .new).began client] client
          (RequestHostAddr.request serverAddr code).2 := .join List.mem_cons_self
      exact h.start rfl hrequest hstep
  | deliver datagram fresh =>
      simp only [Exchange.step] at hstep
      split at hstep
      · next hmem =>
        have hless : { exchange with inFlight := exchange.inFlight.erase datagram }.Sound
            serverAddr trace :=
          ⟨h.history, h.server, h.parties, fun other hother =>
            h.inFlight other (List.mem_of_mem_erase hother)⟩
        have hcarried := h.inFlight datagram hmem
        split at hstep
        · next hdst =>
          have hrequest : IsRequest trace datagram.src datagram.bytes := by
            rcases hcarried with hcarried | hcarried
            · exact hcarried.2
            · exact absurd hdst hcarried.2.1
          refine hless.atServer (fun done hdone hevents => ?_) hstep
          rw [← hevents] at hfresh ⊢
          exact h.server.receive h.history hrequest hdone hfresh
        · next hdst =>
          refine hless.atParty (fun src bytes hsame => ?_) hstep
          cases hsame
          rcases hcarried with hcarried | hcarried
          · exact absurd hcarried.1 hdst
          · exact ⟨hcarried.1, hcarried.2.2⟩
      · cases hstep
  | duplicate datagram =>
      simp only [Exchange.step] at hstep
      split at hstep
      · next hmem =>
        cases hstep
        rw [List.append_nil]
        refine ⟨h.history, h.server, h.parties, fun other hother => ?_⟩
        rcases List.mem_cons.mp hother with rfl | hother
        · exact h.inFlight _ hmem
        · exact h.inFlight other hother
      · cases hstep
  | lose datagram =>
      simp only [Exchange.step] at hstep
      split at hstep
      · cases hstep
        rw [List.append_nil]
        exact ⟨h.history, h.server, h.parties, fun other hother =>
          h.inFlight other (List.mem_of_mem_erase hother)⟩
      · cases hstep
  | fail addr => exact h.atParty (by rintro src bytes ⟨⟩) hstep
  | manage => exact h.atServer_of_opened (fun done hdone => h.server.manage h.history hdone) hstep
  | run i => exact h.atServer_of_opened (fun done hdone => h.server.run hdone) hstep
  | stop i => exact h.atServer_of_opened (fun done hdone => h.server.stop hdone) hstep

end Exchange.Sound

/-- The invariant holds after every run with fresh codes. -/
theorem sound_of_reachable {c : Exchange × List Event}
    (hc : (exchangeMachine serverAddr).Reachable c) (hfresh : FreshCodes c.2) :
    c.1.Sound serverAddr c.2 := by
  refine Machine.Reachable.induct (P := fun c => FreshCodes c.2 → c.1.Sound serverAddr c.2)
    (fun _ => .new) ?_ hc hfresh
  intro c action d _ ih hstep hfresh'
  obtain ⟨exchange', events, hnext, rfl⟩ := Machine.traced_step.mp hstep
  exact (ih hfresh'.of_append).step hnext hfresh'

/-- A client that returns an address for a code has that of the host that created the
code.  If the host returns one too, it is that of a client that asked for a code of that
host; so it is the same client's if no other asked for one. -/
theorem addresses_agree {exchange : Exchange}
    (hreachable : (exchangeMachine serverAddr).Reachable (exchange, trace))
    (hfresh : FreshCodes trace)
    {client host hostAddr : SocketAddr} {code : Uuid}
    (hclient : .clientReturned client code hostAddr ∈ trace)
    (hcreated : .created code host ∈ trace) :
    hostAddr = host ∧ ∀ clientAddr, .hostReturned host clientAddr ∈ trace →
      (∃ code', .created code' host ∈ trace ∧ .asked clientAddr code' ∈ trace) ∧
        ((∀ other code', .created code' host ∈ trace → .asked other code' ∈ trace →
          other = client) → clientAddr = client) := by
  have hhistory := (sound_of_reachable hreachable hfresh).history
  obtain ⟨hmade, -⟩ := hhistory.clientReturned client code hostAddr hclient
  refine ⟨hhistory.unique code hostAddr host hmade hcreated, fun clientAddr hhost => ?_⟩
  obtain ⟨code', hcreated', hasked⟩ := hhistory.hostReturned host clientAddr hhost
  exact ⟨⟨code', hcreated', hasked⟩, fun honly => honly clientAddr code' hcreated' hasked⟩

/-! ## Two clients with one code -/

/-- The server, a host and two clients. -/
def theServer : SocketAddr := .v4 0x0a000001 9903

def theHost : SocketAddr := .v4 0x01010101 1

def firstClient : SocketAddr := .v4 0x02020202 2

def secondClient : SocketAddr := .v4 0x03030303 3

def theCode : Uuid := #v[7, 7, 7, 7, 7, 7, 0x47, 7, 0x87, 7, 7, 7, 7, 7, 7, 7]

/-- A datagram reaches the server, -/
def toServer (src : SocketAddr) (bytes : List UInt8) : Action :=
  .deliver ⟨src, theServer, bytes⟩ theCode

/-- or comes from it. -/
def fromServer (dst : SocketAddr) (bytes : List UInt8) : Action :=
  .deliver ⟨theServer, dst, bytes⟩ theCode

/-- Both clients join; the first one's notices are sent before the second one's, but the
host receives the second one's address. -/
def twoClients : List Action :=
  List.flatten
    [[.listen theHost, .ask firstClient theCode, .ask secondClient theCode,
        toServer theHost [0], .manage, fromServer theHost theCode.toList],
      [toServer firstClient (1 :: theCode.toList), .manage], List.replicate 7 (.run 2),
      [toServer secondClient (1 :: theCode.toList), .manage], List.replicate 7 (.run 3),
      [fromServer firstClient theHost.toText, fromServer theHost secondClient.toText]]

def twoClientsTrace : List Event :=
  [.listened theHost, .asked firstClient theCode, .asked secondClient theCode,
    .created theCode theHost, .clientReturned firstClient theCode theHost,
    .hostReturned theHost secondClient]

theorem exec_twoClients : ∃ exchange,
    (exchangeMachine theServer).exec (exchangeMachine theServer).init twoClients =
      some (exchange, twoClientsTrace) := by
  have htrace : ((exchangeMachine theServer).exec (exchangeMachine theServer).init
      twoClients).map Prod.snd = some twoClientsTrace := by decide +kernel
  obtain ⟨⟨exchange, trace⟩, hexec, rfl⟩ := Option.map_eq_some_iff.mp htrace
  exact ⟨exchange, hexec⟩

theorem freshCodes_twoClientsTrace : FreshCodes twoClientsTrace := by decide +kernel

/-- The first client alone. -/
def oneClient : List Action :=
  List.flatten
    [[.listen theHost, .ask firstClient theCode,
        toServer theHost [0], .manage, fromServer theHost theCode.toList],
      [toServer firstClient (1 :: theCode.toList), .manage], List.replicate 7 (.run 2),
      [fromServer firstClient theHost.toText, fromServer theHost firstClient.toText]]

def oneClientTrace : List Event :=
  [.listened theHost, .asked firstClient theCode, .created theCode theHost,
    .clientReturned firstClient theCode theHost, .hostReturned theHost firstClient]

theorem exec_oneClient : ∃ exchange,
    (exchangeMachine theServer).exec (exchangeMachine theServer).init oneClient =
      some (exchange, oneClientTrace) := by
  have htrace : ((exchangeMachine theServer).exec (exchangeMachine theServer).init
      oneClient).map Prod.snd = some oneClientTrace := by decide +kernel
  obtain ⟨⟨exchange, trace⟩, hexec, rfl⟩ := Option.map_eq_some_iff.mp htrace
  exact ⟨exchange, hexec⟩

theorem addresses_agree_twoClients :
    (theHost = theHost ∧ ∀ clientAddr, .hostReturned theHost clientAddr ∈ twoClientsTrace →
      (∃ code, .created code theHost ∈ twoClientsTrace ∧
        .asked clientAddr code ∈ twoClientsTrace) ∧
      ((∀ other code, .created code theHost ∈ twoClientsTrace →
        .asked other code ∈ twoClientsTrace → other = firstClient) →
          clientAddr = firstClient)) ∧
    ∀ clientAddr, .hostReturned theHost clientAddr ∈ oneClientTrace →
      clientAddr = firstClient := by
  constructor
  · obtain ⟨exchange, hexec⟩ := exec_twoClients
    have hclient : .clientReturned firstClient theCode theHost ∈ twoClientsTrace := by
      simp [twoClientsTrace]
    have hcreated : .created theCode theHost ∈ twoClientsTrace := by simp [twoClientsTrace]
    exact addresses_agree ⟨twoClients, hexec⟩ freshCodes_twoClientsTrace hclient hcreated
  · intro clientAddr hhost
    obtain ⟨exchange, hexec⟩ := exec_oneClient
    have hfresh : FreshCodes oneClientTrace := by decide +kernel
    have hclient : .clientReturned firstClient theCode theHost ∈ oneClientTrace := by
      simp [oneClientTrace]
    have hcreated : .created theCode theHost ∈ oneClientTrace := by simp [oneClientTrace]
    have hagree := addresses_agree ⟨oneClient, hexec⟩ hfresh hclient hcreated
    -- Nobody else has asked for a code.
    have honly : ∀ other code, .created code theHost ∈ oneClientTrace →
        .asked other code ∈ oneClientTrace → other = firstClient := by
      simp [oneClientTrace]
    exact (hagree.2 clientAddr hhost).2 honly

/-- The first client talks to the host, and the host to the second client. -/
theorem host_takes_other_client : ∃ exchange trace,
    (exchangeMachine theServer).Reachable (exchange, trace) ∧ FreshCodes trace ∧
    .clientReturned firstClient theCode theHost ∈ trace ∧ .created theCode theHost ∈ trace ∧
    .hostReturned theHost secondClient ∈ trace ∧ secondClient ≠ firstClient := by
  obtain ⟨exchange, hexec⟩ := exec_twoClients
  refine ⟨exchange, twoClientsTrace, ⟨twoClients, hexec⟩, freshCodes_twoClientsTrace, ?_, ?_, ?_,
    by decide⟩
  · simp [twoClientsTrace]
  · simp [twoClientsTrace]
  · simp [twoClientsTrace]

end P2PNetworking.Rendezvous
