/-
# Ledgers: things that move between places and are never made

A ledger reads off every state of a machine which things are held anywhere in
it, and off every step which things that step gives away for good.  If the books
balance at every step, nothing is ever held twice that was not held twice at the
start, and a schedule has kept everything exactly when none of its steps gave
anything away.
-/

import P2PNetworking.Lib.Machine
import Mathlib.Algebra.BigOperators.Group.Finset.Piecewise
import Mathlib.Algebra.Order.Group.Multiset

namespace P2PNetworking.Lib

universe uσ uα uι uκ

/-- What is held in many places, when one of them changes. -/
theorem sum_update_add {κ : Type uκ} [Fintype κ] [DecidableEq κ] {A : Type uι}
    [AddCommMonoid A] (f : κ → A) (k : κ) (value : A) :
    ∑ j, Function.update f k value j + f k = ∑ j, f j + value := by
  rw [Finset.sum_update_of_mem (Finset.mem_univ k), Finset.sdiff_singleton_eq_erase,
    ← Finset.sum_erase_add _ f (Finset.mem_univ k), add_comm value, add_right_comm]

/-- Books that balance at every step of a machine. -/
structure Ledger {σ : Type uσ} {α : Type uα} (M : Machine σ α) (ι : Type uι) where
  /-- Everything held somewhere in the state, with multiplicity. -/
  held : σ → Multiset ι
  /-- Everything the step gives away for good. -/
  spent : σ → α → Multiset ι
  /-- A step moves what it does not give away. -/
  balanced : ∀ {s : σ} {a : α} {t : σ}, M.Reachable s → M.step s a = some t →
    held s = held t + spent s a

namespace Ledger

variable {σ : Type uσ} {α : Type uα} {ι : Type uι} {M : Machine σ α} (L : Ledger M ι)

theorem held_le_of_step {s t : σ} {a : α} (hs : M.Reachable s)
    (hstep : M.step s a = some t) : L.held t ≤ L.held s := by
  rw [L.balanced hs hstep]
  exact Multiset.le_add_right _ _

/-- So a schedule brings nothing back. -/
theorem held_le_of_exec {s t : σ} {as : List α} (hs : M.Reachable s)
    (hexec : M.exec s as = some t) : L.held t ≤ L.held s := by
  induction as generalizing s with
  | nil =>
      rw [Machine.exec_nil] at hexec
      cases hexec
      exact le_rfl
  | cons a as ih =>
      rw [Machine.exec_cons] at hexec
      obtain ⟨u, hstep, hrest⟩ := Option.bind_eq_some_iff.mp hexec
      exact (ih (hs.step hstep) hrest).trans (L.held_le_of_step hs hstep)

/-- What is counted as lost, and not more often than it is given away, is missing. -/
theorem card_held_add_le {lost : σ → ℕ} (hinit : lost M.init = 0)
    (hlost : ∀ {s : σ} {a : α} {t : σ}, M.Reachable s → M.step s a = some t →
      lost t ≤ lost s + Multiset.card (L.spent s a)) {s : σ} (hs : M.Reachable s) :
    Multiset.card (L.held s) + lost s ≤ Multiset.card (L.held M.init) := by
  refine Machine.Reachable.induct
    (P := fun s => Multiset.card (L.held s) + lost s ≤ Multiset.card (L.held M.init)) ?_ ?_ hs
  · rw [hinit, Nat.add_zero]
  · intro s a t hs hle hstep
    have hbalance := congrArg Multiset.card (L.balanced hs hstep)
    rw [Multiset.card_add] at hbalance
    have hmore := hlost hs hstep
    omega

/-- Nothing is ever held that was not held at the start. -/
theorem held_le_init {s : σ} (hs : M.Reachable s) : L.held s ≤ L.held M.init := by
  refine Machine.Reachable.induct (P := fun s => L.held s ≤ L.held M.init) le_rfl ?_ hs
  intro s a t hs hle hstep
  exact (L.held_le_of_step hs hstep).trans hle

/-- One holder each at the start means at most one holder each ever after. -/
theorem nodup_held (hinit : (L.held M.init).Nodup) {s : σ} (hs : M.Reachable s) :
    (L.held s).Nodup :=
  Multiset.nodup_of_le (L.held_le_init hs) hinit

/-- The step gives nothing away. -/
def KeepsAll (s : σ) (a : α) : Prop := L.spent s a = 0

/-- A schedule has kept everything exactly when each of its steps did: what is
given away once never comes back. -/
theorem held_eq_init_iff_along {as : List α} {s : σ} (hexec : M.exec M.init as = some s) :
    L.held s = L.held M.init ↔ M.Along L.KeepsAll M.init as := by
  induction as using List.reverseRecOn generalizing s with
  | nil =>
      rw [Machine.exec_nil] at hexec
      cases hexec
      simp
  | append_singleton as a ih =>
      obtain ⟨t, hpre, hstep⟩ := M.exec_concat.mp hexec
      have ht : M.Reachable t := ⟨as, hpre⟩
      have hbalance := L.balanced ht hstep
      rw [Machine.along_concat hpre, ← ih hpre]
      constructor
      · intro hkept
        have hback : L.held t = L.held M.init :=
          le_antisymm (L.held_le_init ht) (hkept ▸ L.held_le_of_step ht hstep)
        refine ⟨hback, ?_⟩
        rw [hback, ← hkept] at hbalance
        exact left_eq_add.mp hbalance
      · rintro ⟨hback, hnothing⟩
        rw [hnothing, add_zero] at hbalance
        rw [← hbalance, hback]

/-- The same, thing by thing, when each has one holder at the start. -/
theorem forall_mem_held_iff_along (hinit : (L.held M.init).Nodup) {as : List α} {s : σ}
    (hexec : M.exec M.init as = some s) :
    (∀ i ∈ L.held M.init, i ∈ L.held s) ↔ M.Along L.KeepsAll M.init as := by
  rw [← L.held_eq_init_iff_along hexec]
  constructor
  · intro hall
    exact le_antisymm (L.held_le_init ⟨as, hexec⟩) ((Multiset.le_iff_subset hinit).mpr hall)
  · intro heq i hi
    rwa [heq]

end Ledger

end P2PNetworking.Lib
