/-
# The reliable first-in first-out channel

The specification of an ordered, lossless, duplicate-free channel: a list of what
was sent and a mark up to which it has been delivered.  The mark never passes the
end of the list, so the delivered items are a prefix of the sent ones by
construction.
-/

import P2PNetworking.Lib.Machine

namespace P2PNetworking.Lib

universe u

/-- What was sent, and how much of it has been delivered. -/
@[ext]
structure FifoChannel (α : Type u) where
  sent : List α
  mark : ℕ
  mark_le : mark ≤ sent.length

namespace FifoChannel

variable {α : Type u}

/-- The items delivered so far. -/
def delivered (channel : FifoChannel α) : List α := channel.sent.take channel.mark

theorem delivered_prefix (channel : FifoChannel α) : channel.delivered <+: channel.sent :=
  List.take_prefix _ _

/-- Nothing sent, nothing delivered. -/
def empty : FifoChannel α := ⟨[], 0, Nat.le_refl 0⟩

/-- `some item` sends the item, `none` delivers the next one. -/
def step (channel : FifoChannel α) : Option α → Option (FifoChannel α)
  | some item =>
      some ⟨channel.sent ++ [item], channel.mark, by
        rw [List.length_append]
        exact Nat.le_add_right_of_le channel.mark_le⟩
  | none =>
      if h : channel.mark < channel.sent.length then
        some ⟨channel.sent, channel.mark + 1, h⟩
      else none

/-- The channel as a machine. -/
def machine : Machine (FifoChannel α) (Option α) := ⟨.empty, step⟩

private theorem exec_send (channel : FifoChannel α) (items : List α) :
    ∃ later : FifoChannel α, machine.exec channel (items.map some) = some later ∧
      later.sent = channel.sent ++ items ∧ later.mark = channel.mark := by
  induction items generalizing channel with
  | nil => exact ⟨channel, rfl, by simp, rfl⟩
  | cons item items ih =>
      obtain ⟨later, hexec, hsent, hmark⟩ := ih ⟨channel.sent ++ [item], channel.mark, by
        rw [List.length_append]
        exact Nat.le_add_right_of_le channel.mark_le⟩
      exact ⟨later, hexec, by simpa using hsent, hmark⟩

private theorem exec_deliver (channel : FifoChannel α) (count : ℕ)
    (hcount : channel.mark + count ≤ channel.sent.length) :
    machine.exec channel (List.replicate count none) =
      some ⟨channel.sent, channel.mark + count, hcount⟩ := by
  induction count generalizing channel with
  | zero => rfl
  | succ count ih =>
      have hlt : channel.mark < channel.sent.length := by omega
      have hrest := ih ⟨channel.sent, channel.mark + 1, hlt⟩ (by simpa [Nat.add_comm,
        Nat.add_left_comm] using hcount)
      rw [List.replicate_succ, Machine.exec_cons]
      simp only [machine, step, hlt, ↓reduceDIte, Option.bind_some]
      apply hrest.trans
      simp only [Option.some.injEq, FifoChannel.mk.injEq, true_and]
      omega

/-- Sending more and delivering more are the only changes, and any amount of
both is a schedule of the channel. -/
theorem exists_exec {first later : FifoChannel α} (hsent : first.sent <+: later.sent)
    (hmark : first.mark ≤ later.mark) : ∃ actions, machine.exec first actions = some later := by
  obtain ⟨items, hitems⟩ := hsent
  obtain ⟨middle, hexec, hmiddle, hmiddleMark⟩ := exec_send first items
  have hbound : middle.mark + (later.mark - first.mark) ≤ middle.sent.length := by
    have := later.mark_le
    rw [hmiddle, hitems, hmiddleMark]
    omega
  refine ⟨_, machine.exec_trans hexec (exec_deliver middle _ hbound |>.trans ?_)⟩
  simp only [Option.some.injEq]
  ext1
  · exact hmiddle.trans hitems
  · simp only [hmiddleMark]
    omega

end FifoChannel

end P2PNetworking.Lib
