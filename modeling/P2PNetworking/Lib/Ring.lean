/-
# Submission and completion rings

The two queues between a program and a kernel.  The program keeps its own copy of
the far end of each: entries it pushes stay private until it publishes them, and
entries that the kernel has taken, or completions that it has posted, go unnoticed
until the program looks again.  A push therefore fails on the program's count,
which may lag behind.
-/

import Mathlib.Tactic.Common

namespace P2PNetworking.Lib

universe u

/-- The queue from the program to the kernel. -/
structure SubmissionRing (α : Type u) where
  /-- Entries that the kernel has taken and the program still counts. -/
  taken : ℕ
  /-- Entries that the kernel can see. -/
  published : List α
  /-- Entries that it cannot see yet. -/
  unpublished : List α

namespace SubmissionRing

variable {α : Type u}

def empty : SubmissionRing α := ⟨0, [], []⟩

/-- The entries that are still in the queue. -/
def entries (ring : SubmissionRing α) : List α := ring.published ++ ring.unpublished

/-- The length that the program computes from its copy of the head. -/
def length (ring : SubmissionRing α) : ℕ :=
  ring.taken + ring.published.length + ring.unpublished.length

/-- The program's count leaves room for one more. -/
def HasRoom (capacity : ℕ) (ring : SubmissionRing α) : Prop := ring.length ≠ capacity

instance (capacity : ℕ) (ring : SubmissionRing α) : Decidable (ring.HasRoom capacity) :=
  inferInstanceAs (Decidable (_ ≠ _))

/-- Append an entry, or fail. -/
def push (capacity : ℕ) (ring : SubmissionRing α) (entry : α) : Option (SubmissionRing α) :=
  if ring.HasRoom capacity then
    some { ring with unpublished := ring.unpublished ++ [entry] }
  else none

/-- Show the kernel what was pushed. -/
def publish (ring : SubmissionRing α) : SubmissionRing α := ⟨ring.taken, ring.entries, []⟩

/-- Look again at what the kernel has taken. -/
def refresh (ring : SubmissionRing α) : SubmissionRing α := { ring with taken := 0 }

/-- The kernel takes the oldest entry it can see. -/
def take (ring : SubmissionRing α) : Option (α × SubmissionRing α) :=
  match ring.published with
  | [] => none
  | entry :: rest => some (entry, { ring with taken := ring.taken + 1, published := rest })

@[simp]
theorem entries_empty : (empty : SubmissionRing α).entries = [] := rfl

@[simp]
theorem entries_publish (ring : SubmissionRing α) : ring.publish.entries = ring.entries := by
  simp [publish, entries]

@[simp]
theorem entries_refresh (ring : SubmissionRing α) : ring.refresh.entries = ring.entries := rfl

/-- A push adds its entry when there is room and is without effect otherwise. -/
theorem entries_push (capacity : ℕ) (ring : SubmissionRing α) (entry : α) :
    ((ring.push capacity entry).getD ring).entries =
      ring.entries ++ if ring.HasRoom capacity then [entry] else [] := by
  unfold push
  split
  · simp [entries]
  · simp

/-- What is in the queue after a push was there before or has been pushed. -/
theorem mem_entries_push {capacity : ℕ} {ring : SubmissionRing α} {entry other : α}
    (h : other ∈ ((ring.push capacity entry).getD ring).entries) :
    other ∈ ring.entries ∨ other = entry := by
  rw [entries_push, List.mem_append] at h
  rcases h with hold | hnew
  · exact .inl hold
  · split at hnew
    · exact .inr (List.mem_singleton.mp hnew)
    · cases hnew

theorem entries_take {ring next : SubmissionRing α} {entry : α}
    (h : ring.take = some (entry, next)) : ring.entries = entry :: next.entries := by
  unfold take at h
  split at h
  · cases h
  · next hpublished =>
    cases h
    simp [entries, hpublished]

theorem isSome_push_iff {capacity : ℕ} {ring : SubmissionRing α} {entry : α} :
    (ring.push capacity entry).isSome ↔ ring.HasRoom capacity := by
  by_cases hroom : ring.HasRoom capacity
  · simp [push, hroom]
  · simp [push, hroom]

/-- What a push does when it succeeds. -/
theorem getD_push {capacity : ℕ} {ring : SubmissionRing α} {entry : α}
    (h : (ring.push capacity entry).isSome) : (ring.push capacity entry).getD ring =
      { ring with unpublished := ring.unpublished ++ [entry] } := by
  rw [push, if_pos (isSome_push_iff.mp h)]
  rfl

/-- A push that fails leaves the queue as it is. -/
theorem getD_push_of_full {capacity : ℕ} {ring : SubmissionRing α} {entry : α}
    (h : ¬ (ring.push capacity entry).isSome) : (ring.push capacity entry).getD ring = ring := by
  rw [Option.not_isSome_iff_eq_none.mp h]
  rfl

theorem length_push {capacity : ℕ} {ring : SubmissionRing α} {entry : α}
    (h : (ring.push capacity entry).isSome) :
    ((ring.push capacity entry).getD ring).length = ring.length + 1 := by
  rw [getD_push h]
  simp [length, Nat.add_assoc]

@[simp]
theorem length_publish (ring : SubmissionRing α) : ring.publish.length = ring.length := by
  simp [publish, length, entries, Nat.add_assoc]

/-- After another look at the head only what is in the queue counts. -/
@[simp]
theorem length_refresh (ring : SubmissionRing α) : ring.refresh.length = ring.entries.length := by
  simp [refresh, length, entries]

theorem length_entries_le (ring : SubmissionRing α) : ring.entries.length ≤ ring.length := by
  simp only [entries, length, List.length_append]
  omega

/-- What the kernel takes still counts. -/
theorem length_take {ring next : SubmissionRing α} {entry : α}
    (h : ring.take = some (entry, next)) : next.length = ring.length := by
  unfold take at h
  split at h
  · cases h
  · next hpublished =>
    cases h
    simp only [length, hpublished, List.length_cons]
    omega

theorem unpublished_take {ring next : SubmissionRing α} {entry : α}
    (h : ring.take = some (entry, next)) : next.unpublished = ring.unpublished := by
  unfold take at h
  split at h
  · cases h
  · cases h
    rfl

end SubmissionRing

/-- The queue from the kernel to the program. -/
structure CompletionRing (α : Type u) where
  /-- Completions that the program can see. -/
  visible : List α
  /-- Completions posted since it last looked. -/
  posted : List α

namespace CompletionRing

variable {α : Type u}

def empty : CompletionRing α := ⟨[], []⟩

/-- The completions that have not been taken. -/
def entries (ring : CompletionRing α) : List α := ring.visible ++ ring.posted

/-- The kernel posts a completion. -/
def post (ring : CompletionRing α) (entry : α) : CompletionRing α :=
  { ring with posted := ring.posted ++ [entry] }

/-- Look again at what was posted. -/
def sync (ring : CompletionRing α) : CompletionRing α := ⟨ring.entries, []⟩

/-- The program takes the oldest completion it can see. -/
def next (ring : CompletionRing α) : Option (α × CompletionRing α) :=
  match ring.visible with
  | [] => none
  | entry :: rest => some (entry, { ring with visible := rest })

/-- The program takes everything it can see. -/
def drain (ring : CompletionRing α) : List α × CompletionRing α :=
  (ring.visible, { ring with visible := [] })

@[simp]
theorem entries_empty : (empty : CompletionRing α).entries = [] := rfl

@[simp]
theorem entries_post (ring : CompletionRing α) (entry : α) :
    (ring.post entry).entries = ring.entries ++ [entry] := by
  simp [post, entries]

@[simp]
theorem entries_sync (ring : CompletionRing α) : ring.sync.entries = ring.entries := by
  simp [sync, entries]

/-- What is taken and what stays is what there was. -/
theorem entries_drain (ring : CompletionRing α) :
    ring.drain.1 ++ ring.drain.2.entries = ring.entries := rfl

theorem entries_next {ring later : CompletionRing α} {entry : α}
    (h : ring.next = some (entry, later)) : ring.entries = entry :: later.entries := by
  unfold next at h
  split at h
  · cases h
  · next hvisible =>
    cases h
    simp [entries, hvisible]

end CompletionRing

end P2PNetworking.Lib
