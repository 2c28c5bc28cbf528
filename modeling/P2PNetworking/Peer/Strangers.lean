/-
# Who can decide whom a peer talks to

The calls that wait for the rendezvous server's answer take an answer from anybody.  As
long as the server's own datagrams have not ended a call, a datagram of anybody else can
end it in more than one way; afterwards nobody can.
-/

import P2PNetworking.Peer.Discovery
import P2PNetworking.Lib.Purge

namespace P2PNetworking.Peer

open P2PNetworking.Net P2PNetworking.Lib.Purge

/-- It comes from the server, or is no datagram at all. -/
def Incoming.own (serverAddr : SocketAddr) : Incoming → Bool
  | .failed => true
  | .datagram src _ => src = serverAddr

/-- Somebody who is not the server. -/
def stranger (serverAddr : SocketAddr) : SocketAddr :=
  if serverAddr = .v4 0 0 then .v4 0 1 else .v4 0 0

theorem own_stranger (serverAddr : SocketAddr) (bytes : List UInt8) :
    (Incoming.datagram (stranger serverAddr) bytes).own serverAddr = false := by
  rw [Incoming.own, decide_eq_false_iff_not, stranger]
  split
  · next heq =>
    rw [heq]
    decide
  · next hne => exact Ne.symm hne

/-- The datagram is an address, as far as it is read. -/
def Incoming.isAddress : Incoming → Bool
  | .failed => false
  | .datagram _ bytes => (SocketAddr.fromStr (bytes.take bufSize)).isSome

namespace ListenToRelay

/-- One datagram. -/
def next (call : ListenToRelay) (incoming : Incoming) : ListenToRelay :=
  (call.receive incoming).1

/-- The result on a sequence of datagrams. -/
def resultOn (run : List Incoming) : Result := (run.foldl next new).result

/-- The datagrams end the call: the first receive has one that is not of the size of a
code, or a later one has an address. -/
def Decided : List Incoming → Prop
  | [] => False
  | .failed :: later => ∃ incoming ∈ later, incoming.isAddress
  | .datagram _ bytes :: later =>
      (bytes.take bufSize).length ≠ 16 ∨ ∃ incoming ∈ later, incoming.isAddress

theorem next_of_ended {call : ListenToRelay} (hended : call.result ≠ .waiting)
    (incoming : Incoming) : call.next incoming = call := by
  rw [next, receive_of_ended hended]

theorem foldl_of_ended {call : ListenToRelay} (hended : call.result ≠ .waiting)
    (run : List Incoming) : run.foldl next call = call :=
  List.foldl_fixed' (next_of_ended hended) run

section Waiting

variable {call : ListenToRelay} (hwaiting : call.result = .waiting)

include hwaiting

theorem result_next (hfirst : call.firstOver = true) (incoming : Incoming) :
    (call.next incoming).result ≠ .waiting ↔ incoming.isAddress := by
  cases incoming with
  | failed => simp [next, Incoming.isAddress, result_receive_failed hwaiting]
  | datagram src bytes =>
      rw [next, result_receive hwaiting hfirst, Incoming.isAddress]
      cases SocketAddr.fromStr (bytes.take bufSize) with
      | none => simp
      | some addr => simp

theorem ended_foldl_iff (hfirst : call.firstOver = true) (run : List Incoming) :
    (run.foldl next call).result ≠ .waiting ↔ ∃ incoming ∈ run, incoming.isAddress := by
  induction run generalizing call with
  | nil => simpa using hwaiting
  | cons incoming run ih =>
      rw [List.foldl_cons, List.exists_mem_cons_iff, ← result_next hwaiting hfirst]
      by_cases hnext : (call.next incoming).result = .waiting
      · rw [ih hnext (firstOver_receive hwaiting incoming)]
        simp [hnext]
      · rw [foldl_of_ended hnext]
        simp [hnext]

/-- After the first receive a call never panics. -/
theorem result_foldl_ne_panicked (hfirst : call.firstOver = true) (run : List Incoming) :
    (run.foldl next call).result ≠ .panicked := by
  induction run generalizing call with
  | nil => simp [hwaiting]
  | cons incoming run ih =>
      rw [List.foldl_cons]
      by_cases hnext : (call.next incoming).result = .waiting
      · exact ih hnext (firstOver_receive hwaiting incoming)
      · rw [foldl_of_ended hnext]
        cases incoming with
        | failed => exact absurd (result_receive_failed hwaiting) hnext
        | datagram src bytes =>
            rw [next, result_receive hwaiting hfirst]
            cases SocketAddr.fromStr (bytes.take bufSize) with
            | none => simp
            | some addr => simp

/-- Somebody who sends an address makes the call return it. -/
theorem result_foldl_address (hfirst : call.firstOver = true) (src : SocketAddr) (ip : UInt32)
    (port : UInt16) (rest : List Incoming) :
    (rest.foldl next (call.next (.datagram src (SocketAddr.toText (.v4 ip port))))).result =
      .returned (.v4 ip port) := by
  have hreturned : (call.next (.datagram src (SocketAddr.toText (.v4 ip port)))).result =
      .returned (.v4 ip port) := by
    rw [next, result_receive hwaiting hfirst, fromStr_take_toText]
    rfl
  rw [foldl_of_ended (by simp [hreturned]), hreturned]

end Waiting

theorem ended_iff_decided (run : List Incoming) :
    (run.foldl next new).result ≠ .waiting ↔ Decided run := by
  cases run with
  | nil => simp [new, Decided]
  | cons incoming later =>
      have hover : (new.next incoming).firstOver = true := firstOver_receive rfl incoming
      rw [List.foldl_cons]
      cases incoming with
      | failed => exact ended_foldl_iff (result_receive_failed rfl) hover later
      | datagram src bytes =>
          have hresult : (new.next (.datagram src bytes)).result = _ :=
            result_receive_first rfl rfl src bytes
          by_cases hlength : (bytes.take bufSize).length = 16
          · rw [if_pos hlength] at hresult
            rw [ended_foldl_iff hresult hover, Decided]
            simp only [hlength, ne_eq, not_true, false_or]
          · rw [if_neg hlength] at hresult
            have hended : (new.next (.datagram src bytes)).result ≠ .waiting := by
              simp [hresult]
            rw [foldl_of_ended hended]
            exact iff_of_true hended (.inl hlength)

/-- As long as the call has not ended, a stranger can end it in two ways. -/
theorem exists_strangers (serverAddr : SocketAddr) {call : ListenToRelay}
    (hwaiting : call.result = .waiting) :
    ∃ i j : Incoming, i.own serverAddr = false ∧ j.own serverAddr = false ∧
      ∀ rest : List Incoming,
        (rest.foldl next (call.next i)).result ≠ (rest.foldl next (call.next j)).result := by
  cases hfirst : call.firstOver with
  | true =>
      refine ⟨_, _, own_stranger serverAddr (SocketAddr.toText (.v4 1 1)),
        own_stranger serverAddr (SocketAddr.toText (.v4 2 2)), fun rest => ?_⟩
      rw [result_foldl_address hwaiting hfirst, result_foldl_address hwaiting hfirst]
      decide
  | false =>
      -- nothing in place of the code, or something that could be one
      refine ⟨_, _, own_stranger serverAddr [], own_stranger serverAddr (List.replicate 16 0),
        fun rest => ?_⟩
      have hpanic : (call.next (.datagram (stranger serverAddr) [])).result = .panicked := by
        rw [next, result_receive_first hwaiting hfirst, if_neg (by decide)]
      have hcode : (call.next (.datagram (stranger serverAddr) (List.replicate 16 0))).result =
          .waiting := by
        rw [next, result_receive_first hwaiting hfirst, if_pos (by decide)]
      rw [foldl_of_ended (by simp [hpanic]), hpanic]
      exact (result_foldl_ne_panicked hcode (firstOver_receive hwaiting _) rest).symm

theorem purgeable_iff_decided (serverAddr : SocketAddr) (run : List Incoming) :
    Purgeable (Incoming.own serverAddr) next result .new run ↔
      ((∃ i ∈ run, i.own serverAddr = false) →
        Decided (run.takeWhile (Incoming.own serverAddr))) := by
  have hended : ∀ (call : ListenToRelay) (i : Incoming), call.result ≠ .waiting →
      (call.next i).result ≠ .waiting ∧ (call.next i).result = call.result := by
    intro call i hcall
    rw [next_of_ended hcall]
    exact ⟨hcall, rfl⟩
  rw [← ended_iff_decided]
  exact purgeable_iff hended
    (fun call hopen => exists_strangers serverAddr (not_not.mp hopen)) _ run

end ListenToRelay

namespace RequestHostAddr

/-- One datagram. -/
def next (call : RequestHostAddr) (incoming : Incoming) : RequestHostAddr :=
  (call.receive incoming).1

/-- The result on a sequence of datagrams. -/
def resultOn (run : List Incoming) : Result := (run.foldl next new).result

/-- The datagrams end the call: one of them is text and has no zero byte in front.  The
byte in front of an empty datagram is the one that was there before. -/
def Decided : Option UInt8 → List Incoming → Prop
  | _, [] => False
  | before, .failed :: later => Decided before later
  | before, .datagram _ bytes :: later =>
      (bytes[0]?.or before ≠ some 0 ∧ IsText (bytes.take bufSize)) ∨
        Decided (bytes[0]?.or before) later

theorem next_of_ended {call : RequestHostAddr} (hended : call.result ≠ .waiting)
    (incoming : Incoming) : call.next incoming = call := by
  rw [next, receive_of_ended hended]

theorem foldl_of_ended {call : RequestHostAddr} (hended : call.result ≠ .waiting)
    (run : List Incoming) : run.foldl next call = call :=
  List.foldl_fixed' (next_of_ended hended) run

section Waiting

variable {call : RequestHostAddr} (hwaiting : call.result = .waiting)

include hwaiting

theorem ended_foldl_iff (run : List Incoming) :
    (run.foldl next call).result ≠ .waiting ↔ Decided call.buf.bytes[0]? run := by
  induction run generalizing call with
  | nil => simp [hwaiting, Decided]
  | cons incoming later ih =>
      rw [List.foldl_cons]
      cases incoming with
      | failed =>
          rw [next, receive_failed hwaiting]
          exact ih hwaiting
      | datagram src bytes =>
          have hresult : (call.next (.datagram src bytes)).result = _ :=
            result_receive hwaiting src bytes
          have hbuf : (call.next (.datagram src bytes)).buf.bytes[0]? = _ :=
            (congrArg (fun buf => buf.bytes[0]?) (buf_receive hwaiting src bytes)).trans
              (RecvBuffer.head_fill (by decide) call.buf bytes)
          rw [Decided, ← hbuf]
          by_cases hdecides : bytes[0]?.or call.buf.bytes[0]? ≠ some 0 ∧
              IsText (bytes.take bufSize)
          · rw [if_pos hdecides] at hresult
            have hended : (call.next (.datagram src bytes)).result ≠ .waiting := by
              rw [hresult]
              cases SocketAddr.fromStr (bytes.take bufSize) with
              | none => simp
              | some addr => simp
            rw [foldl_of_ended hended, hbuf]
            simp only [hended, hdecides, ne_eq, not_false_iff, and_self, true_or]
          · rw [if_neg hdecides] at hresult
            rw [ih hresult, hbuf]
            simp only [hdecides, false_or]

/-- Somebody who sends an address makes the call return it. -/
theorem result_foldl_address (src : SocketAddr) (ip : UInt32) (port : UInt16)
    (rest : List Incoming) :
    (rest.foldl next (call.next (.datagram src (SocketAddr.toText (.v4 ip port))))).result =
      .returned (.v4 ip port) := by
  have hreturned : (call.next (.datagram src (SocketAddr.toText (.v4 ip port)))).result =
      .returned (.v4 ip port) :=
    result_receive_of_fromStr hwaiting (fromStr_take_toText ip port) src
  rw [foldl_of_ended (by simp [hreturned]), hreturned]

end Waiting

theorem ended_iff_decided (run : List Incoming) :
    (run.foldl next new).result ≠ .waiting ↔ Decided (some 0) run :=
  ended_foldl_iff rfl run

/-- As long as the call has not ended, a stranger can end it in two ways. -/
theorem exists_strangers (serverAddr : SocketAddr) {call : RequestHostAddr}
    (hwaiting : call.result = .waiting) :
    ∃ i j : Incoming, i.own serverAddr = false ∧ j.own serverAddr = false ∧
      ∀ rest : List Incoming,
        (rest.foldl next (call.next i)).result ≠ (rest.foldl next (call.next j)).result := by
  refine ⟨_, _, own_stranger serverAddr (SocketAddr.toText (.v4 1 1)),
    own_stranger serverAddr (SocketAddr.toText (.v4 2 2)), fun rest => ?_⟩
  rw [result_foldl_address hwaiting, result_foldl_address hwaiting]
  decide

theorem purgeable_iff_decided (serverAddr : SocketAddr) (run : List Incoming) :
    Purgeable (Incoming.own serverAddr) next result .new run ↔
      ((∃ i ∈ run, i.own serverAddr = false) →
        Decided (some 0) (run.takeWhile (Incoming.own serverAddr))) := by
  have hended : ∀ (call : RequestHostAddr) (i : Incoming), call.result ≠ .waiting →
      (call.next i).result ≠ .waiting ∧ (call.next i).result = call.result := by
    intro call i hcall
    rw [next_of_ended hcall]
    exact ⟨hcall, rfl⟩
  rw [← ended_iff_decided]
  exact purgeable_iff hended
    (fun call hopen => exists_strangers serverAddr (not_not.mp hopen)) _ run

end RequestHostAddr

/-! ## The server alone -/

/-- Whatever strangers send in their places, the calls give the result of the server's
datagrams alone, exactly when no stranger is among the senders or the server's datagrams
before the first stranger's end the call. -/
theorem serverAlone_iff (serverAddr : SocketAddr) (run : List Incoming) :
    (Purgeable (Incoming.own serverAddr) ListenToRelay.next ListenToRelay.result .new run ↔
      ((∃ i ∈ run, i.own serverAddr = false) →
        ListenToRelay.Decided (run.takeWhile (Incoming.own serverAddr)))) ∧
    (Purgeable (Incoming.own serverAddr) RequestHostAddr.next RequestHostAddr.result .new run ↔
      ((∃ i ∈ run, i.own serverAddr = false) →
        RequestHostAddr.Decided (some 0) (run.takeWhile (Incoming.own serverAddr)))) :=
  ⟨ListenToRelay.purgeable_iff_decided serverAddr run,
    RequestHostAddr.purgeable_iff_decided serverAddr run⟩

/-- The server sends sixteen bytes and later the address 1.2.3.4:5; in between 9.9.9.9:9
sends the address 6.6.6.6:6. -/
def forgedRun : List Incoming :=
  [.datagram (.v4 0x0a000001 9903) (.replicate 16 0),
    .datagram (.v4 0x09090909 9) (SocketAddr.toText (.v4 0x06060606 6)),
    .datagram (.v4 0x0a000001 9903) (SocketAddr.toText (.v4 0x01020304 5))]

/-- Both calls return the address that the stranger has sent. -/
theorem forged_address_returned :
    ListenToRelay.resultOn forgedRun = .returned (.v4 0x06060606 6) ∧
      ListenToRelay.resultOn (forgedRun.filter (Incoming.own (.v4 0x0a000001 9903))) =
        .returned (.v4 0x01020304 5) ∧
      RequestHostAddr.resultOn forgedRun = .returned (.v4 0x06060606 6) ∧
      RequestHostAddr.resultOn (forgedRun.filter (Incoming.own (.v4 0x0a000001 9903))) =
        .returned (.v4 0x01020304 5) := by
  decide +kernel

end P2PNetworking.Peer
