/-
# Two-run noninterference

A component consumes events one after another; some of them are its own, the others
come from strangers.  A run can be purged when its result is that of its own events
alone, and stays so whatever the strangers put in the place of their events.

For a component that may end, and that strangers can bring to different results as long
as it has not, this comes down to one question: has it ended before the first stranger's
event?
-/

import Mathlib.Data.List.Forall2
import Mathlib.Data.List.TakeWhile

namespace P2PNetworking.Lib.Purge

universe uσ uι uρ

variable {σ : Type uσ} {ι : Type uι} {ρ : Type uρ} {own : ι → Bool} {run mixed : List ι}

variable (own) in
/-- Place by place the same event, or the events of two strangers. -/
def Alike (mixed run : List ι) : Prop :=
  List.Forall₂ (fun i j => i = j ∨ own i = false ∧ own j = false) mixed run

theorem alike_refl (run : List ι) : Alike own run run :=
  List.forall₂_same.mpr fun _ _ => .inl rfl

/-- Without strangers there is nothing to replace. -/
theorem Alike.eq_of_forall (halike : Alike own mixed run) (hown : ∀ i ∈ run, own i = true) :
    mixed = run := by
  induction halike with
  | nil => rfl
  | cons hhead _ ih =>
      obtain ⟨hi, hrun⟩ := List.forall_mem_cons.mp hown
      rcases hhead with rfl | ⟨-, hstranger⟩
      · rw [ih hrun]
      · rw [hi] at hstranger
        cases hstranger

/-- Up to the first stranger the runs are the same. -/
theorem Alike.takeWhile_eq (halike : Alike own mixed run) :
    mixed.takeWhile own = run.takeWhile own := by
  induction halike with
  | nil => rfl
  | cons hhead _ ih =>
      rcases hhead with rfl | ⟨hi, hj⟩
      · rw [List.takeWhile_cons, List.takeWhile_cons, ih]
      · simp [hi, hj]

variable (step : σ → ι → σ) (result : σ → ρ)

variable (own) in
/-- Whatever strangers do in their places, the result is that of the own events alone. -/
def Purgeable (s : σ) (run : List ι) : Prop :=
  ∀ mixed, Alike own mixed run →
    result (mixed.foldl step s) = result ((run.filter own).foldl step s)

variable {step result}

section Ended

variable {ended : σ → Prop}
  (hended : ∀ s i, ended s → ended (step s i) ∧ result (step s i) = result s)

include hended

/-- Once ended, nothing changes the result. -/
theorem result_foldl_of_ended {s : σ} (hs : ended s) (run : List ι) :
    result (run.foldl step s) = result s := by
  induction run generalizing s with
  | nil => rfl
  | cons i run ih =>
      obtain ⟨hnext, hsame⟩ := hended s i hs
      rw [List.foldl_cons, ih hnext, hsame]

/-- A run can be purged exactly when no stranger is in it, or it has ended before the
first of them. -/
theorem purgeable_iff
    (hopen : ∀ s, ¬ ended s → ∃ i j, own i = false ∧ own j = false ∧
      ∀ rest : List ι,
        result (rest.foldl step (step s i)) ≠ result (rest.foldl step (step s j)))
    (s : σ) (run : List ι) :
    Purgeable own step result s run ↔
      ((∃ i ∈ run, own i = false) → ended ((run.takeWhile own).foldl step s)) := by
  have hsplit := List.takeWhile_append_dropWhile (p := own) (l := run)
  constructor
  · rintro hpurge ⟨i, hi, hstranger⟩
    by_contra hopen'
    obtain ⟨first, second, hfirst, hsecond, hdiffer⟩ := hopen _ hopen'
    cases hrest : run.dropWhile own with
    | nil =>
        have hall := List.dropWhile_eq_nil_iff.mp hrest i hi
        rw [hstranger] at hall
        cases hall
    | cons found rest =>
        have hfound : own found = false := by
          have := List.head?_dropWhile_not own run
          simpa [hrest] using this
        have halike : ∀ k, own k = false →
            Alike own (run.takeWhile own ++ k :: rest) run := by
          intro k hk
          conv => rhs; rw [← hsplit, hrest]
          exact List.rel_append (alike_refl _) (.cons (.inr ⟨hk, hfound⟩) (alike_refl rest))
        have hresult := (hpurge _ (halike first hfirst)).trans (hpurge _ (halike second hsecond)).symm
        rw [List.foldl_append, List.foldl_append, List.foldl_cons, List.foldl_cons] at hresult
        exact hdiffer rest hresult
  · intro h mixed halike
    by_cases hstrangers : ∃ i ∈ run, own i = false
    · have hdone := h hstrangers
      have hmixed := List.takeWhile_append_dropWhile (p := own) (l := mixed)
      have hown : (run.takeWhile own).filter own = run.takeWhile own :=
        List.filter_eq_self.mpr fun i hi => List.mem_takeWhile_imp hi
      have hfilter : run.filter own = run.takeWhile own ++ (run.dropWhile own).filter own := by
        conv => lhs; rw [← hsplit, List.filter_append, hown]
      rw [← hmixed, hfilter, halike.takeWhile_eq, List.foldl_append, List.foldl_append,
        result_foldl_of_ended hended hdone, result_foldl_of_ended hended hdone]
    · have hall : ∀ i ∈ run, own i = true := fun i hi =>
        (Bool.not_eq_false _).mp fun hstranger => hstrangers ⟨i, hi, hstranger⟩
      rw [halike.eq_of_forall hall, List.filter_eq_self.mpr hall]

end Ended

end P2PNetworking.Lib.Purge
