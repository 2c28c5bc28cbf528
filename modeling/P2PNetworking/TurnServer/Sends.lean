/-
# Sends under way

A send is under way from when the loop pushes its entry until the loop takes its last completion.
Only a push begins one, whatever the loop and the kernel do with the ring besides; so what is
written down when a send is posted is still there when it is over.  Both implementations of the
server rest on this.
-/

import P2PNetworking.TurnServer.EventLoop

namespace P2PNetworking.TurnServer

open P2PNetworking.Net P2PNetworking.Lib

/-- A send of the buffer is among the operations, or its end among the completions. -/
def SendOf (submitted : List Sqe) (completed : List Task) (idx : UInt16) : Prop :=
  (∃ sqe ∈ submitted, sqe.opcode = .sendMsgZc ∧ sqe.bufIdx = idx) ∨ .sent idx ∈ completed

namespace SendOf

variable {before after : List Sqe} {done later : List Task} {idx other : UInt16}

/-- The same operations and fewer completions. -/
theorem mono (h : SendOf after later idx)
    (hsubmitted : ∀ sqe ∈ after, sqe.opcode = .sendMsgZc → sqe ∈ before)
    (hcompleted : ∀ task ∈ later, task ∈ done) : SendOf before done idx := by
  rcases h with ⟨sqe, hmem, hopcode, hidx⟩ | hsent
  · exact .inl ⟨sqe, hsubmitted sqe hmem hopcode, hopcode, hidx⟩
  · exact .inr (hcompleted _ hsent)

/-- A receive that is posted, whether the queue takes it or not, makes no send. -/
theorem of_repost (h : SendOf after later idx)
    (hpush : ∀ sqe ∈ after, sqe ∈ before ∨ sqe = Opcode.recvMsg.build other)
    (hcompleted : ∀ task ∈ later, task ∈ done) : SendOf before done idx := by
  refine h.mono (fun sqe hmem hopcode => ?_) hcompleted
  rcases hpush sqe hmem with hold | rfl
  · exact hold
  · cases hopcode

/-- A send that is posted is one of its buffer. -/
theorem of_post (h : SendOf after later idx)
    (hpush : ∀ sqe ∈ after, sqe ∈ before ∨ sqe = Opcode.sendMsgZc.build other)
    (hcompleted : ∀ task ∈ later, task ∈ done) : SendOf before done idx ∨ other = idx := by
  rcases h with ⟨sqe, hmem, hopcode, hidx⟩ | hsent
  · rcases hpush sqe hmem with hold | rfl
    · exact .inl (.inl ⟨sqe, hold, hopcode, hidx⟩)
    · exact .inr hidx
  · exact .inl (.inr (hcompleted _ hsent))

/-- A completion that the kernel posts is about one of its operations. -/
theorem of_completion {sqe : Sqe} {result : ℤ} {flags : UInt32}
    (h : SendOf after (done ++ [(Cqe.mk sqe.userData result flags).task]) idx)
    (hmem : sqe ∈ before) (hsubmitted : ∀ entry ∈ after, entry ∈ before) :
    SendOf before done idx := by
  rcases h with ⟨entry, hentry, hkind⟩ | hsent
  · exact .inl ⟨entry, hsubmitted entry hentry, hkind⟩
  rcases List.mem_append.mp hsent with hold | hnew
  · exact .inr hold
  · have htask := List.mem_singleton.mp hnew
    rw [Cqe.task_mk] at htask
    split at htask
    · cases htask
    · next hopcode =>
      split at htask
      · cases htask
      · cases htask
        exact .inl ⟨sqe, hmem, hopcode, rfl⟩

/-- Where the buffer is. -/
theorem buffer (h : SendOf before done idx) :
    idx ∈ before.map Sqe.bufIdx ∨ .sent idx ∈ done := by
  rcases h with ⟨sqe, hmem, -, rfl⟩ | hsent
  · exact .inl (List.mem_map_of_mem hmem)
  · exact .inr hsent

end SendOf

/-- A record that is marked whenever a send is posted is marked as long as the send is under way,
if meanwhile only records of buffers elsewhere are begun anew. -/
theorem marked_of_sends {P : Option PacketTiming → Prop}
    {old new : UInt16 → Option PacketTiming} {before after : UInt16 → Prop}
    {elsewhere : UInt16 → Prop} (hsends : ∀ idx, after idx → before idx ∨ P (new idx))
    (hrecords : ∀ idx, new idx = old idx ∨ P (new idx) ∨ elsewhere idx)
    (hapart : ∀ idx, before idx → after idx → ¬ elsewhere idx)
    (hmarked : ∀ idx, before idx → P (old idx)) {idx : UInt16} (hafter : after idx) :
    P (new idx) := by
  rcases hsends idx hafter with hbefore | hposted
  · rcases hrecords idx with hsame | hmark | haway
    · rw [hsame]
      exact hmarked idx hbefore
    · exact hmark
    · exact absurd haway (hapart idx hbefore hafter)
  · exact hposted

end P2PNetworking.TurnServer
