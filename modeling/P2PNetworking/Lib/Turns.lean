/-
# Round trips: things that go out and come back

A special ledger.  Everything is either at home or away, and the history records
who goes out and who comes back.  Where the books balance, departures and returns
of each thing alternate, however the trips of different things are interleaved.
-/

import P2PNetworking.Lib.Ledger
import Mathlib.Tactic.Abel

namespace P2PNetworking.Lib

universe uσ uα uι

/-- A thing goes out, or it comes back. -/
inductive Turn
  | out
  | back
  deriving DecidableEq, Repr

variable {ι : Type uι} [DecidableEq ι]

/-- The last turn of a thing; at the start everything counts as having come back. -/
def lastTurn (i : ι) (turns : List (ι × Turn)) : Turn :=
  turns.foldl (fun last turn => if turn.1 = i then turn.2 else last) .back

@[simp]
theorem lastTurn_nil (i : ι) : lastTurn i [] = .back := rfl

@[simp]
theorem lastTurn_concat (i : ι) (turns : List (ι × Turn)) (turn : ι × Turn) :
    lastTurn i (turns ++ [turn]) = if turn.1 = i then turn.2 else lastTurn i turns := by
  simp [lastTurn]

/-- The last turn stays what it is as long as no other turn is taken. -/
theorem lastTurn_append {i : ι} {last : Turn} {turns more : List (ι × Turn)}
    (hturns : lastTurn i turns = last) (hmore : ∀ turn ∈ more, turn.1 = i → turn.2 = last) :
    lastTurn i (turns ++ more) = last := by
  induction more using List.reverseRecOn with
  | nil => rwa [List.append_nil]
  | append_singleton more turn ih =>
      rw [← List.append_assoc, lastTurn_concat]
      split
      · next heq => exact hmore turn (by simp) heq
      · exact ih fun other hother => hmore other (by simp [hother])

/-- Every turn of a thing differs from its turn before. -/
def Alternates (turns : List (ι × Turn)) : Prop :=
  ∀ before i turn after, turns = before ++ (i, turn) :: after → lastTurn i before ≠ turn

theorem alternates_nil : Alternates ([] : List (ι × Turn)) := by
  intro before i turn after h
  simp at h

theorem Alternates.concat {turns : List (ι × Turn)} (h : Alternates turns) {i : ι}
    {turn : Turn} (hturn : lastTurn i turns ≠ turn) : Alternates (turns ++ [(i, turn)]) := by
  intro before j other after hsplit
  obtain ⟨rfl, hlast, -⟩ | ⟨rest, -, hold⟩ := Machine.split_concat hsplit
  · cases hlast
    exact hturn
  · exact h before j other rest hold

/-- Between a departure and the next return there is no other departure. -/
theorem Alternates.not_out_between {turns : List (ι × Turn)} (h : Alternates turns) {i : ι}
    {before between after : List (ι × Turn)}
    (hsplit : turns = before ++ (i, .out) :: between ++ (i, .back) :: after)
    (hback : (i, Turn.back) ∉ between) : (i, Turn.out) ∉ between := by
  intro hout
  -- the first departure in between follows a departure
  obtain ⟨first, rest, rfl, hfirst⟩ := List.eq_append_cons_of_mem hout
  refine h (before ++ [(i, .out)] ++ first) i .out (rest ++ (i, .back) :: after) ?_ ?_
  · rw [hsplit]
    simp
  · refine lastTurn_append (by rw [lastTurn_concat, if_pos rfl]) ?_
    rintro ⟨j, turn⟩ hmem rfl
    cases turn with
    | out => rfl
    | back => exact absurd (List.mem_append_left _ hmem) hback

/-- Between two returns there is a departure. -/
theorem Alternates.out_between {turns : List (ι × Turn)} (h : Alternates turns) {i : ι}
    {before between after : List (ι × Turn)}
    (hsplit : turns = before ++ (i, .back) :: between ++ (i, .back) :: after) :
    (i, Turn.out) ∈ between := by
  by_contra hout
  refine h (before ++ [(i, .back)] ++ between) i .back after (by simp [hsplit]) ?_
  apply lastTurn_append (by rw [lastTurn_concat, if_pos rfl])
  rintro ⟨j, turn⟩ hmem rfl
  cases turn with
  | out => exact absurd hmem hout
  | back => rfl

/-! ## Books -/

/-- What a step may do to those at home and those away: some of either are lost, or
one goes out, or one comes back and is possibly lost. -/
inductive Moved (home away home' away' : Multiset ι) :
    List (ι × Turn) → Multiset ι → Prop
  | lostHome {lost : Multiset ι} (hhome : home = home' + lost) (haway : away' = away) :
      Moved home away home' away' [] lost
  | lostAway {lost : Multiset ι} (hhome : home' = home) (haway : away = away' + lost) :
      Moved home away home' away' [] lost
  | wentOut {i : ι} (hhome : home = home' + {i}) (haway : away' = away + {i}) :
      Moved home away home' away' [(i, .out)] 0
  | cameBack {i : ι} {lost : Multiset ι} (haway : away = away' + {i})
      (hhome : home + {i} = home' + lost) : Moved home away home' away' [(i, .back)] lost

omit [DecidableEq ι] in
/-- A step may also move nothing. -/
theorem Moved.rest {home away home' away' : Multiset ι} (hhome : home' = home)
    (haway : away' = away) : Moved home away home' away' [] 0 :=
  .lostHome (hhome ▸ (add_zero home).symm) haway

omit [DecidableEq ι] in
/-- Whatever moves, the books balance. -/
theorem Moved.balanced {home away home' away' lost : Multiset ι} {turns : List (ι × Turn)}
    (h : Moved home away home' away' turns lost) :
    home + away = home' + away' + lost := by
  cases h with
  | lostHome hhome haway => rw [hhome, haway, add_right_comm]
  | lostAway hhome haway => rw [hhome, haway, add_assoc]
  | wentOut hhome haway =>
      rw [hhome, haway]
      abel
  | @cameBack i lost haway hhome =>
      calc home + away
          = home + {i} + away' := by rw [haway]; abel
        _ = home' + away' + lost := by rw [hhome]; abel

/-- Those at home have come back last, those away have gone out last. -/
structure InTurn (home away : Multiset ι) (turns : List (ι × Turn)) : Prop where
  alternates : Alternates turns
  home : ∀ i ∈ home, lastTurn i turns = .back
  away : ∀ i ∈ away, lastTurn i turns = .out

/-- A step that keeps the books keeps the turns, as long as nothing is held twice. -/
theorem InTurn.moved {home away home' away' lost : Multiset ι}
    {turns new : List (ι × Turn)} (h : InTurn home away turns)
    (hnodup : (home + away).Nodup) (hmoved : Moved home away home' away' new lost) :
    InTurn home' away' (turns ++ new) := by
  have hnodup' : (home' + away').Nodup := by
    rw [hmoved.balanced] at hnodup
    exact Multiset.nodup_of_le (Multiset.le_add_right _ _) hnodup
  cases hmoved with
  | lostHome hhome haway =>
      rw [List.append_nil, haway]
      refine ⟨h.alternates, fun i hi => h.home i ?_, h.away⟩
      rw [hhome]
      exact Multiset.mem_add.mpr (.inl hi)
  | lostAway hhome haway =>
      rw [List.append_nil, hhome]
      refine ⟨h.alternates, h.home, fun i hi => h.away i ?_⟩
      rw [haway]
      exact Multiset.mem_add.mpr (.inl hi)
  | @wentOut i hhome haway =>
      have hi : lastTurn i turns = .back := h.home i (by simp [hhome])
      refine ⟨h.alternates.concat (by simp [hi]), fun j hj => ?_, fun j hj => ?_⟩
      · have hne : i ≠ j := by
          rintro rfl
          have hdisjoint := (Multiset.nodup_add.mp hnodup').2.2
          exact Multiset.disjoint_left.mp hdisjoint hj (by simp [haway])
        rw [lastTurn_concat, if_neg hne]
        exact h.home j (by simp [hhome, hj])
      · rw [lastTurn_concat]
        split
        · rfl
        · next hne =>
          have hold : j ∈ away := by simpa [haway, Ne.symm hne] using hj
          exact h.away j hold
  | @cameBack i _ haway hhome =>
      have hi : lastTurn i turns = .out := h.away i (by simp [haway])
      refine ⟨h.alternates.concat (by simp [hi]), fun j hj => ?_, fun j hj => ?_⟩
      · rw [lastTurn_concat]
        split
        · rfl
        · next hne =>
          have hold : j ∈ home + {i} := by
            rw [hhome]
            exact Multiset.mem_add.mpr (.inl hj)
          apply h.home j
          simpa [Ne.symm hne] using hold
      · have hne : i ≠ j := by
          rintro rfl
          rw [haway] at hnodup
          have hdisjoint := (Multiset.nodup_add.mp (Multiset.nodup_add.mp hnodup).2.1).2.2
          exact Multiset.disjoint_left.mp hdisjoint hj (by simp)
        rw [lastTurn_concat, if_neg hne]
        exact h.away j (by simp [haway, hj])

/-- Books that balance at every step of a machine, with the turns it has recorded. -/
structure RoundTrips {σ : Type uσ} {α : Type uα} (M : Machine σ α) (ι : Type uι) where
  home : σ → Multiset ι
  away : σ → Multiset ι
  turns : σ → List (ι × Turn)
  /-- Everything the step gives away for good. -/
  spent : σ → α → Multiset ι
  away_init : away M.init = 0
  turns_init : turns M.init = []
  moved : ∀ {s : σ} {a : α} {t : σ}, M.Reachable s → M.step s a = some t →
    ∃ new, turns t = turns s ++ new ∧ Moved (home s) (away s) (home t) (away t) new (spent s a)

namespace RoundTrips

variable {σ : Type uσ} {α : Type uα} {M : Machine σ α} (R : RoundTrips M ι)

omit [DecidableEq ι] in
/-- Home and away together are a ledger. -/
def ledger : Ledger M ι where
  held s := R.home s + R.away s
  spent := R.spent
  balanced hs hstep :=
    let ⟨_, _, hmoved⟩ := R.moved hs hstep
    hmoved.balanced

omit [DecidableEq ι] in
theorem held_ledger (s : σ) : R.ledger.held s = R.home s + R.away s := rfl

/-- One of each at the start means alternating turns ever after. -/
theorem inTurn (hinit : (R.home M.init).Nodup) {s : σ} (hs : M.Reachable s) :
    InTurn (R.home s) (R.away s) (R.turns s) := by
  refine Machine.Reachable.induct (P := fun s => InTurn (R.home s) (R.away s) (R.turns s))
    ?_ ?_ hs
  · rw [R.away_init, R.turns_init]
    exact ⟨alternates_nil, fun _ _ => rfl, fun i hi => absurd hi (Multiset.notMem_zero i)⟩
  · intro s a t hs h hstep
    obtain ⟨new, hturns, hmoved⟩ := R.moved hs hstep
    have hnodup : (R.home s + R.away s).Nodup :=
      R.ledger.nodup_held (by simpa [held_ledger, R.away_init] using hinit) hs
    rw [hturns]
    exact h.moved hnodup hmoved

end RoundTrips

end P2PNetworking.Lib
