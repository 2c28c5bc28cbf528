/-
# What the loop leaves unpublished when it idles

The loop publishes what it has pushed after a batch of sends, and only then.  A receive
that is posted again while completions are processed stays in the loop's private copy
of the queue until the shards have the next packet to send; an iteration that finds
nothing to do does not publish it.
-/

import P2PNetworking.TurnServer.Submissions

namespace P2PNetworking.TurnServer

open P2PNetworking.Net P2PNetworking.Lib

variable {cfg : Config}

namespace Server

/-- The loop finds no completion and goes on to its next iteration. -/
def Idles (server : Server cfg) : ServerAction cfg → Prop
  | .loop _ _ => server.point = .polling ∧ server.cq.entries = []
  | _ => False

/-- When it idles everything pushed is published. -/
def IdlesPublished (server : Server cfg) (action : ServerAction cfg) : Prop :=
  server.Idles action → server.sq.unpublished = []

/-- The loop publishes a batch of sends. -/
def publishes (server : Server cfg) : Bool :=
  match server.point with
  | .sending (_ + 1) => server.relay.txOut.isEmpty
  | _ => false

/-- A send has completed, and the queue takes a receive for its buffer. -/
def reposts (server : Server cfg) : Bool :=
  server.task.freed.isSome && decide (server.sq.HasRoom cfg.ringEntries)

/-- A receive has been posted again since the last batch of sends was published. -/
def repostedAfter (reposted : Bool) (server : Server cfg) : ServerAction cfg → Bool
  | .loop _ _ => !server.publishes && (reposted || server.reposts)
  | _ => reposted

/-- The loop idles only if nothing has been posted again. -/
def IdlesClean (reposted : Bool) (server : Server cfg) (action : ServerAction cfg) : Prop :=
  server.Idles action → reposted = false

/-- Outside a batch, what is unpublished has been posted again. -/
def Accounts (reposted : Bool) (server : Server cfg) : Prop :=
  server.InBatch ∨ (server.sq.unpublished = [] ↔ reposted = false)

section Accounts

variable {server next : Server cfg} {action : ServerAction cfg} {reposted : Bool}

theorem Accounts.idlesClean_iff (h : server.Accounts reposted) (action : ServerAction cfg) :
    server.IdlesClean reposted action ↔ server.IdlesPublished action := by
  cases action with
  | loop first second =>
      have hunless : server.Idles (.loop first second) →
          (server.sq.unpublished = [] ↔ reposted = false) := by
        rintro ⟨hpoint, -⟩
        refine h.resolve_left ?_
        simp [InBatch, hpoint]
      exact ⟨fun hclean hidles => (hunless hidles).mpr (hclean hidles),
        fun hpublished hidles => (hunless hidles).mp (hpublished hidles)⟩
  | _ => exact ⟨fun _ hidles => hidles.elim, fun _ hidles => hidles.elim⟩

theorem publishes_eq_false_of_not_inBatch (h : ¬ server.InBatch) : server.publishes = false := by
  unfold publishes
  split
  · next pushed hpoint => exact absurd ⟨pushed, hpoint⟩ h
  · rfl

theorem RingStep.accounts (hstep : RingStep server action next)
    (h : server.Accounts reposted) : next.Accounts (server.repostedAfter reposted action) := by
  cases hstep with
  | surroundings hloop hsq hpoint =>
      have hsame : server.repostedAfter reposted action = reposted := by
        cases action with
        | loop first second => exact absurd rfl (hloop first second)
        | _ => rfl
      rw [hsame, Accounts, InBatch, hpoint, hsq]
      exact h
  | take htake hpoint =>
      have hunpublished := SubmissionRing.unpublished_take htake
      rw [Accounts, InBatch, hpoint, hunpublished]
      exact h
  | readHead hreads hsq =>
      have hbatch : ¬ server.InBatch := by
        rintro ⟨pushed, hpoint⟩
        simp [ReadsHead, hpoint] at hreads
      have hrest : server.task.freed = none := by
        rcases hreads with hpoint | hpoint <;> simp [task, hpoint, Task.freed]
      refine .inr ?_
      rw [hsq, repostedAfter, publishes_eq_false_of_not_inBatch hbatch, reposts, hrest]
      simpa [SubmissionRing.refresh] using h.resolve_left hbatch
  | publish hbatch hdry hsq =>
      obtain ⟨pushed, hpoint⟩ := hbatch
      refine .inr ?_
      rw [hsq, repostedAfter, publishes, hpoint, hdry]
      simp [SubmissionRing.publish]
  | @post _ _ _ sqe hentry hsq _ hkind =>
      rcases hkind with ⟨-, hnext⟩ | ⟨hrecv, hbatch, -⟩
      · exact .inl hnext
      · have hfreed := Task.isSome_freed hentry hrecv
        have hbefore := h.resolve_left hbatch
        refine .inr ?_
        rw [hsq, repostedAfter, publishes_eq_false_of_not_inBatch hbatch, reposts, hfreed]
        by_cases hroom : server.sq.HasRoom cfg.ringEntries
        · rw [SubmissionRing.getD_push (SubmissionRing.isSome_push_iff.mpr hroom)]
          simp [hroom]
        · rw [SubmissionRing.getD_push_of_full (mt SubmissionRing.isSome_push_iff.mp hroom)]
          simpa [hroom] using hbefore
  | quiet _ hentry hbatch hsq =>
      have hfreed := Task.freed_eq_none hentry
      refine .inr ?_
      rw [hsq, repostedAfter, publishes_eq_false_of_not_inBatch hbatch, reposts, hfreed]
      simpa using h.resolve_left hbatch

end Accounts

end Server

/-- The loop never idles on unpublished operations exactly if it never idles when a
receive has been posted again since it last published a batch of sends. -/
theorem idles_published_iff (actions : List (ServerAction cfg)) :
    (serverMachine cfg).Along (fun c action => c.1.IdlesPublished action)
        (serverMachine cfg).init actions ↔
      (serverMachine cfg).AlongWith (fun reposted c action => c.1.repostedAfter reposted action)
        (fun reposted c action => c.1.IdlesClean reposted action) false
        (serverMachine cfg).init actions := by
  refine (Machine.alongWith_iff_along (R := fun reposted c => c.1.Accounts reposted)
    ?_ ?_ ?_ actions).symm
  · intro reposted c action h
    exact h.idlesClean_iff action
  · rintro reposted c action d h - hstep
    obtain ⟨next, events, hnext, rfl⟩ := Machine.traced_step.mp hstep
    exact (Server.ringStep_of_step hnext).accounts h
  · rw [serverMachine_init]
    exact .inr ⟨fun _ => rfl, fun _ => rfl⟩

/-- The kernel takes the first entries that it can see. -/
def Server.taking (server : Server cfg) (n : ℕ) : Server cfg :=
  { server with
    sq := ⟨server.sq.taken + n, server.sq.published.drop n, server.sq.unpublished⟩
    operations := server.operations ++ server.sq.published.take n }

theorem exec_submits {n : ℕ} {server : Server cfg} (hn : n ≤ server.sq.published.length)
    (trace : List (ServerEvent cfg)) :
    (serverMachine cfg).exec (server, trace) (List.replicate n .submit) =
      some (server.taking n, trace) := by
  induction n generalizing server with
  | zero => simp [Server.taking]
  | succ n ih =>
      obtain ⟨pool, ⟨taken, published, unpublished⟩, operations, cq, relay, control, point⟩ := server
      cases published with
      | nil => simp at hn
      | cons sqe rest =>
          have hstep : (serverMachine cfg).step
              (⟨pool, ⟨taken, sqe :: rest, unpublished⟩, operations, cq, relay, control, point⟩,
                trace) .submit =
              some (⟨pool, ⟨taken + 1, rest, unpublished⟩, operations ++ [sqe], cq, relay, control,
                point⟩, trace) := by
            simp [serverMachine, Machine.traced, Server.step, SubmissionRing.take]
          rw [List.replicate_succ, Machine.exec_cons, hstep, Option.bind_some,
            ih (by simpa using hn)]
          simp [Server.taking, Nat.add_assoc, Nat.add_comm 1 n]

/-- The send of a packet completes, and the loop finds nothing more to do. -/
def idleAfterSend : List (ServerAction .main) :=
  [.loop 0 0, .finishSend 1023 1500 0, .loop 0 0, .loop 0 0, .loop 0 0, .loop 0 0, .loop 0 0]

/-- One packet is relayed, the kernel takes everything published, and the loop idles. -/
def relayedOnce : List (ServerAction .main) :=
  (relayOnce ++ [.loop 0 0]) ++ (List.replicate 1024 .submit ++ idleAfterSend)

/-- The receive for its buffer is unpublished when the loop idles. -/
theorem receive_parked_when_idle :
    ∃ c, (serverMachine .main).exec (serverMachine .main).init relayedOnce = some c ∧
      c.1.Idles (.loop 0 0) ∧ c.1.sq.unpublished = [Opcode.recvMsg.build 1023] := by
  have hrun : ((serverMachine .main).exec (.started .main, []) (relayOnce ++ [.loop 0 0])).bind
      (fun c => ((serverMachine .main).exec (c.1.taking 1024, c.2) idleAfterSend).map fun d =>
        (c.1.sq.published.length, d.1.point, d.1.cq.entries, d.1.sq.unpublished)) =
      some (1024, .polling, [], [Opcode.recvMsg.build 1023]) := by decide +kernel
  obtain ⟨c, hbefore, hmap⟩ := Option.bind_eq_some_iff.mp hrun
  obtain ⟨d, hafter, hfacts⟩ := Option.map_eq_some_iff.mp hmap
  simp only [Prod.mk.injEq] at hfacts
  obtain ⟨hlength, hpoint, hcq, hunpublished⟩ := hfacts
  refine ⟨d, ?_, ⟨hpoint, hcq⟩, hunpublished⟩
  rw [serverMachine_init]
  exact Machine.exec_trans _ hbefore
    (Machine.exec_trans _ (exec_submits hlength.ge _) hafter)

end P2PNetworking.TurnServer
