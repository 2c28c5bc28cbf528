/-
# Machines that take one action at a time

A machine is an initial state and a partial step function; `none` says that the
action is not enabled.  Everything the surroundings decide (which message
arrives, what a clock reads, which thread runs next) is part of the action.  A
schedule is therefore a list of actions, and playing one is a computation.

Two kinds of statement are used throughout.  A safety statement holds after
every schedule, possibly of only those schedules whose steps all meet a guard;
`Reachable.induct` and `along_induct` reduce it to one step.  A progress
statement says that some schedule of permitted actions leads from a state to a
goal; `CanReach` composes such schedules, and `Ensures` those in which only part
of each action can be chosen.

Histories are kept outside the state.  `traced` turns a step that reports events
into a machine on pairs of a state and the events so far, so that a program
model needs no bookkeeping fields of its own.
-/

import Mathlib.Data.List.Induction
import Mathlib.Tactic.Common

namespace P2PNetworking.Lib

universe uσ uα uτ uβ uε uγ uω uχ

/-- An initial state and a partial step function. -/
structure Machine (σ : Type uσ) (α : Type uα) where
  /-- Where every schedule starts. -/
  init : σ
  /-- One action, or `none` when the action is not enabled. -/
  step : σ → α → Option σ

namespace Machine

variable {σ : Type uσ} {α : Type uα} (M : Machine σ α)

/-! ## Schedules -/

/-- Play a schedule from a state. -/
def exec : σ → List α → Option σ
  | s, [] => some s
  | s, a :: as => (M.step s a).bind fun t => exec t as

@[simp]
theorem exec_nil (s : σ) : M.exec s [] = some s := rfl

theorem exec_cons (s : σ) (a : α) (as : List α) :
    M.exec s (a :: as) = (M.step s a).bind fun t => M.exec t as := rfl

/-- Playing a schedule in two parts. -/
theorem exec_append (s : σ) (as bs : List α) :
    M.exec s (as ++ bs) = (M.exec s as).bind fun t => M.exec t bs := by
  induction as generalizing s with
  | nil => rfl
  | cons a as ih =>
      cases hstep : M.step s a with
      | none => simp [exec_cons, hstep]
      | some t => simp [exec_cons, hstep, ih]

theorem exec_trans {s t u : σ} {as bs : List α}
    (hfirst : M.exec s as = some t) (hsecond : M.exec t bs = some u) :
    M.exec s (as ++ bs) = some u := by
  rw [exec_append, hfirst]
  exact hsecond

theorem exec_singleton {s t : σ} {a : α} (hstep : M.step s a = some t) :
    M.exec s [a] = some t := by
  simp [exec_cons, hstep]

/-- The last action of a schedule. -/
theorem exec_concat {s u : σ} {as : List α} {a : α} :
    M.exec s (as ++ [a]) = some u ↔
      ∃ t, M.exec s as = some t ∧ M.step t a = some u := by
  rw [exec_append]
  cases hpre : M.exec s as with
  | none => simp
  | some t =>
      cases hstep : M.step t a with
      | none => simp [exec_cons, hstep]
      | some v => simp [exec_cons, hstep]

/-! ## Reachable states -/

/-- Some schedule leads from the initial state here. -/
def Reachable (s : σ) : Prop := ∃ as, M.exec M.init as = some s

theorem reachable_init : M.Reachable M.init := ⟨[], rfl⟩

variable {M}

theorem Reachable.step {s t : σ} {a : α} (hs : M.Reachable s)
    (hstep : M.step s a = some t) : M.Reachable t := by
  obtain ⟨as, hexec⟩ := hs
  exact ⟨as ++ [a], M.exec_concat.mpr ⟨s, hexec, hstep⟩⟩

theorem Reachable.exec {s t : σ} {as : List α} (hs : M.Reachable s)
    (hexec : M.exec s as = some t) : M.Reachable t := by
  obtain ⟨bs, hpre⟩ := hs
  exact ⟨bs ++ as, M.exec_trans hpre hexec⟩

/-- The invariant rule: what holds initially and is kept by every step from a
reachable state holds in every reachable state. -/
theorem Reachable.induct {P : σ → Prop} (hinit : P M.init)
    (hkeep : ∀ s a t, M.Reachable s → P s → M.step s a = some t → P t)
    {s : σ} (hs : M.Reachable s) : P s := by
  obtain ⟨as, hexec⟩ := hs
  induction as using List.reverseRecOn generalizing s with
  | nil =>
      rw [exec_nil] at hexec
      cases hexec
      exact hinit
  | append_singleton as a ih =>
      obtain ⟨t, hpre, hstep⟩ := M.exec_concat.mp hexec
      exact hkeep t a s ⟨as, hpre⟩ (ih hpre) hstep

/-! ## Guarded schedules -/

variable (M) in
/-- Every step of the schedule is taken in a state where the guard allows it. -/
def Along (guard : σ → α → Prop) : σ → List α → Prop
  | _, [] => True
  | s, a :: as => guard s a ∧ ∀ t, M.step s a = some t → Along guard t as

/-- Guards that can be evaluated can be evaluated along a schedule. -/
instance Along.decidable (guard : σ → α → Prop) [∀ s a, Decidable (guard s a)] :
    ∀ s as, Decidable (M.Along guard s as)
  | _, [] => .isTrue trivial
  | s, a :: as =>
      match hstep : M.step s a with
      | none => decidable_of_iff (guard s a) (by simp [Along, hstep])
      | some t =>
          have := Along.decidable guard t as
          decidable_of_iff (guard s a ∧ M.Along guard t as) (by simp [Along, hstep])

@[simp]
theorem along_nil (guard : σ → α → Prop) (s : σ) : M.Along guard s [] := trivial

theorem along_append {guard : σ → α → Prop} {s t : σ} {as bs : List α}
    (hexec : M.exec s as = some t) :
    M.Along guard s (as ++ bs) ↔ M.Along guard s as ∧ M.Along guard t bs := by
  induction as generalizing s with
  | nil =>
      rw [exec_nil] at hexec
      cases hexec
      simp
  | cons a as ih =>
      rw [exec_cons, Option.bind_eq_some_iff] at hexec
      obtain ⟨u, hstep, hrest⟩ := hexec
      constructor
      · rintro ⟨hguard, hafter⟩
        obtain ⟨hhead, htail⟩ := (ih hrest).mp (hafter u hstep)
        refine ⟨⟨hguard, fun v hv => ?_⟩, htail⟩
        cases hstep.symm.trans hv
        exact hhead
      · rintro ⟨⟨hguard, hafter⟩, htail⟩
        refine ⟨hguard, fun v hv => ?_⟩
        cases hstep.symm.trans hv
        exact (ih hrest).mpr ⟨hafter u hstep, htail⟩

theorem along_concat {guard : σ → α → Prop} {s t : σ} {as : List α} {a : α}
    (hexec : M.exec s as = some t) :
    M.Along guard s (as ++ [a]) ↔ M.Along guard s as ∧ guard t a := by
  rw [along_append hexec]
  constructor
  · rintro ⟨has, hguard, -⟩
    exact ⟨has, hguard⟩
  · rintro ⟨has, hguard⟩
    exact ⟨has, hguard, fun _ _ => trivial⟩

/-- A schedule meets a guard when every single step does. -/
theorem along_iff_forall {guard : σ → α → Prop} {s : σ} {as : List α} :
    M.Along guard s as ↔ ∀ before a after t, as = before ++ a :: after →
      M.exec s before = some t → guard t a := by
  induction as generalizing s with
  | nil => simp
  | cons a as ih =>
      constructor
      · rintro ⟨hguard, hafter⟩ before b after t hsplit hexec
        rcases List.cons_eq_append_iff.mp hsplit with ⟨rfl, hcons⟩ | ⟨rest, rfl, rfl⟩
        · cases hcons
          cases hexec
          exact hguard
        · rw [exec_cons, Option.bind_eq_some_iff] at hexec
          obtain ⟨u, hstep, hrest⟩ := hexec
          exact ih.mp (hafter u hstep) rest b after t rfl hrest
      · intro hall
        refine ⟨hall [] a as s rfl rfl, fun u hstep => ih.mpr ?_⟩
        intro before b after t hsplit hexec
        refine hall (a :: before) b after t (by rw [hsplit]; rfl) ?_
        rw [exec_cons, hstep]
        exact hexec

/-- The invariant rule for schedules whose steps all meet a guard. -/
theorem along_induct {guard : σ → α → Prop} {P : σ → Prop} (hinit : P M.init)
    (hkeep : ∀ s a t, M.Reachable s → P s → guard s a → M.step s a = some t → P t)
    {as : List α} {s : σ} (hexec : M.exec M.init as = some s)
    (halong : M.Along guard M.init as) : P s := by
  induction as using List.reverseRecOn generalizing s with
  | nil =>
      rw [exec_nil] at hexec
      cases hexec
      exact hinit
  | append_singleton as a ih =>
      obtain ⟨t, hpre, hstep⟩ := M.exec_concat.mp hexec
      obtain ⟨has, hguard⟩ := (along_concat hpre).mp halong
      exact hkeep t a s ⟨as, hpre⟩ (ih hpre has) hguard hstep

/-- What every step that meets the guard keeps, a schedule of such steps keeps. -/
theorem along_keep {guard : σ → α → Prop} {P : σ → Prop}
    (hkeep : ∀ s a t, P s → guard s a → M.step s a = some t → P t)
    {as : List α} {s t : σ} (hexec : M.exec s as = some t) (halong : M.Along guard s as)
    (hs : P s) : P t := by
  induction as generalizing s with
  | nil =>
      rw [exec_nil] at hexec
      cases hexec
      exact hs
  | cons a as ih =>
      rw [exec_cons, Option.bind_eq_some_iff] at hexec
      obtain ⟨u, hstep, hrest⟩ := hexec
      exact ih hrest (halong.2 u hstep) (hkeep s a u hs halong.1 hstep)

/-- Where every permitted step that counts is paid for by a potential, and no permitted step
raises it, a schedule has no more steps that count than the potential allows. -/
theorem countP_add_le {permitted : α → Prop} {counts : α → Bool} {potential : σ → ℕ}
    (hpay : ∀ s a t, permitted a → M.step s a = some t →
      (counts a).toNat + potential t ≤ potential s)
    {as : List α} {s t : σ} (has : ∀ a ∈ as, permitted a) (hexec : M.exec s as = some t) :
    as.countP counts + potential t ≤ potential s := by
  induction as generalizing s with
  | nil =>
      rw [exec_nil] at hexec
      cases hexec
      exact Nat.le_of_eq (Nat.zero_add _)
  | cons a as ih =>
      rw [exec_cons, Option.bind_eq_some_iff] at hexec
      obtain ⟨u, hstep, hrest⟩ := hexec
      have hhead := hpay s a u (has a List.mem_cons_self) hstep
      have htail := ih (fun b hb => has b (List.mem_cons_of_mem _ hb)) hrest
      rw [List.countP_cons]
      cases hcounts : counts a <;> simp only [hcounts, Bool.toNat_false, Bool.toNat_true] at hhead
      · simp only [Bool.false_eq_true, if_false]
        omega
      · simp only [if_true]
        omega

/-! ## Guards with a memory -/

section AlongWith

variable {γ : Type uγ} {remember : γ → σ → α → γ} {guard : γ → σ → α → Prop}

variable (M remember guard) in
/-- Every step of the schedule is allowed by a guard that may also look at what is
remembered of the steps before. -/
def AlongWith : γ → σ → List α → Prop
  | _, _, [] => True
  | memory, s, a :: as => guard memory s a ∧
      ∀ t, M.step s a = some t → AlongWith (remember memory s a) t as

/-- Guards that can be evaluated can be evaluated along a schedule. -/
instance AlongWith.decidable [∀ memory s a, Decidable (guard memory s a)] :
    ∀ memory s as, Decidable (M.AlongWith remember guard memory s as)
  | _, _, [] => .isTrue trivial
  | memory, s, a :: as =>
      match hstep : M.step s a with
      | none => decidable_of_iff (guard memory s a) (by simp [AlongWith, hstep])
      | some t =>
          have := AlongWith.decidable (remember memory s a) t as
          decidable_of_iff (guard memory s a ∧
            M.AlongWith remember guard (remember memory s a) t as) (by simp [AlongWith, hstep])

/-- If what is remembered stands for something in the state, a guard on the one is a
guard on the other. -/
theorem alongWith_iff_along {R : γ → σ → Prop} {guard' : σ → α → Prop}
    (hguard : ∀ memory s a, R memory s → (guard memory s a ↔ guard' s a))
    (hkeep : ∀ memory s a t, R memory s → guard' s a → M.step s a = some t →
      R (remember memory s a) t)
    {memory : γ} {s : σ} (hrel : R memory s) (as : List α) :
    M.AlongWith remember guard memory s as ↔ M.Along guard' s as := by
  induction as generalizing memory s with
  | nil => exact Iff.rfl
  | cons a as ih =>
      constructor
      · rintro ⟨hhead, htail⟩
        have hhead' := (hguard memory s a hrel).mp hhead
        exact ⟨hhead', fun t hstep =>
          (ih (hkeep memory s a t hrel hhead' hstep)).mp (htail t hstep)⟩
      · rintro ⟨hhead, htail⟩
        exact ⟨(hguard memory s a hrel).mpr hhead, fun t hstep =>
          (ih (hkeep memory s a t hrel hhead hstep)).mpr (htail t hstep)⟩

end AlongWith

/-! ## What a schedule puts out -/

section Outputs

variable {β : Type uβ}

variable (M) in
/-- What the steps of a schedule put out, in order. -/
def outputs (out : σ → α → List β) : σ → List α → List β
  | _, [] => []
  | s, a :: as =>
      match M.step s a with
      | none => []
      | some t => out s a ++ outputs out t as

/-- The last action puts out last. -/
theorem outputs_concat {out : σ → α → List β} {s t u : σ} {as : List α} {a : α}
    (hexec : M.exec s as = some t) (hstep : M.step t a = some u) :
    M.outputs out s (as ++ [a]) = M.outputs out s as ++ out t a := by
  induction as generalizing s with
  | nil =>
      rw [exec_nil] at hexec
      cases hexec
      simp [outputs, hstep]
  | cons b as ih =>
      rw [exec_cons, Option.bind_eq_some_iff] at hexec
      obtain ⟨v, hfirst, hrest⟩ := hexec
      simp only [List.cons_append, outputs, hfirst, ih hrest, List.append_assoc]

end Outputs

/-! ## Progress -/

variable (M) in
/-- A schedule of permitted actions leads from here to the goal. -/
def CanReach (permitted : α → Prop) (s : σ) (goal : σ → Prop) : Prop :=
  ∃ as t, (∀ a ∈ as, permitted a) ∧ M.exec s as = some t ∧ goal t

section CanReach

variable {permitted : α → Prop}

theorem CanReach.here {s : σ} {goal : σ → Prop} (hgoal : goal s) :
    M.CanReach permitted s goal :=
  ⟨[], s, by simp, rfl, hgoal⟩

theorem CanReach.trans {s : σ} {middle goal : σ → Prop}
    (hfirst : M.CanReach permitted s middle)
    (hsecond : ∀ t, middle t → M.CanReach permitted t goal) :
    M.CanReach permitted s goal := by
  obtain ⟨as, t, has, hexec, hmiddle⟩ := hfirst
  obtain ⟨bs, u, hbs, hexec', hgoal⟩ := hsecond t hmiddle
  refine ⟨as ++ bs, u, fun a ha => ?_, M.exec_trans hexec hexec', hgoal⟩
  exact (List.mem_append.mp ha).elim (has a) (hbs a)

theorem CanReach.mono {s : σ} {goal goal' : σ → Prop}
    (hreach : M.CanReach permitted s goal) (himp : ∀ t, goal t → goal' t) :
    M.CanReach permitted s goal' :=
  hreach.trans fun t ht => .here (himp t ht)

theorem CanReach.cons {s t : σ} {a : α} {goal : σ → Prop} (ha : permitted a)
    (hstep : M.step s a = some t) (hrest : M.CanReach permitted t goal) :
    M.CanReach permitted s goal := by
  have hone : M.CanReach permitted s (· = t) :=
    ⟨[a], t, by simpa using ha, M.exec_singleton hstep, rfl⟩
  exact hone.trans fun u hu => hu ▸ hrest

theorem CanReach.one {s t : σ} {a : α} {goal : σ → Prop} (ha : permitted a)
    (hstep : M.step s a = some t) (hgoal : goal t) : M.CanReach permitted s goal :=
  .cons ha hstep (.here hgoal)

theorem CanReach.weaken {permitted' : α → Prop} {s : σ} {goal : σ → Prop}
    (hreach : M.CanReach permitted s goal) (himp : ∀ a, permitted a → permitted' a) :
    M.CanReach permitted' s goal := by
  obtain ⟨as, t, has, hexec, hgoal⟩ := hreach
  exact ⟨as, t, fun a ha => himp a (has a ha), hexec, hgoal⟩

/-- The goal of a progress statement may also use whatever every permitted
schedule keeps. -/
theorem CanReach.keeping {s : σ} {goal keep : σ → Prop}
    (hreach : M.CanReach permitted s goal) (hs : keep s)
    (hkeep : ∀ t a u, keep t → permitted a → M.step t a = some u → keep u) :
    M.CanReach permitted s fun t => goal t ∧ keep t := by
  obtain ⟨as, t, has, hexec, hgoal⟩ := hreach
  refine ⟨as, t, has, hexec, hgoal, ?_⟩
  clear hgoal
  induction as generalizing s with
  | nil =>
      rw [exec_nil] at hexec
      cases hexec
      exact hs
  | cons a as ih =>
      rw [exec_cons, Option.bind_eq_some_iff] at hexec
      obtain ⟨u, hstep, hrest⟩ := hexec
      exact ih (hkeep s a u hs (has a (by simp)) hstep)
        (fun b hb => has b (by simp [hb])) hrest

/-- Progress by a measure: if every state short of the goal can reach one of
smaller measure, every state can reach the goal. -/
theorem CanReach.of_measure {keep goal : σ → Prop} (measure : σ → ℕ)
    (hdescend : ∀ s, keep s → ¬ goal s →
      M.CanReach permitted s fun t => keep t ∧ measure t < measure s)
    {s : σ} (hs : keep s) : M.CanReach permitted s goal := by
  induction hn : measure s using Nat.strongRecOn generalizing s with
  | ind n ih =>
      subst hn
      by_cases hgoal : goal s
      · exact .here hgoal
      · exact (hdescend s hs hgoal).trans fun t ht => ih (measure t) ht.2 ht.1 rfl

end CanReach

/-! ## Progress against the surroundings -/

section Ensures

variable {ω : Type uω} {χ : Type uχ} {act : ω → χ → α}

variable (M act) in
/-- The goal can be brought about by choosing moves one after the other, whatever the
surroundings choose to complete each of them with. -/
inductive Ensures (goal : σ → Prop) : σ → Prop
  | here {s : σ} (hgoal : goal s) : Ensures goal s
  | move {s : σ} (chosen : ω) (next : χ → σ)
      (hstep : ∀ answer, M.step s (act chosen answer) = some (next answer))
      (hrest : ∀ answer, Ensures goal (next answer)) : Ensures goal s

theorem Ensures.of_forall {s : σ} {goal : σ → Prop} (chosen : ω)
    (h : ∀ answer, ∃ t, M.step s (act chosen answer) = some t ∧ M.Ensures act goal t) :
    M.Ensures act goal s := by
  choose next hstep hrest using h
  exact .move chosen next hstep hrest

theorem Ensures.trans {s : σ} {middle goal : σ → Prop} (hfirst : M.Ensures act middle s)
    (hsecond : ∀ t, middle t → M.Ensures act goal t) : M.Ensures act goal s := by
  induction hfirst with
  | here hmiddle => exact hsecond _ hmiddle
  | move chosen next hstep _ ih => exact .move chosen next hstep ih

/-- The goal may also use whatever every move keeps. -/
theorem Ensures.keeping {s : σ} {goal keep : σ → Prop} (h : M.Ensures act goal s) (hs : keep s)
    (hkeep : ∀ t chosen answer u, keep t → M.step t (act chosen answer) = some u → keep u) :
    M.Ensures act (fun t => goal t ∧ keep t) s := by
  induction h with
  | here hgoal => exact .here ⟨hgoal, hs⟩
  | move chosen next hstep _ ih =>
      exact .move chosen next hstep fun answer =>
        ih answer (hkeep _ chosen answer _ hs (hstep answer))

/-- A measure that can be made to fall ensures the goal. -/
theorem Ensures.of_measure {keep goal : σ → Prop} (measure : σ → ℕ)
    (hkeep : ∀ t chosen answer u, keep t → M.step t (act chosen answer) = some u → keep u)
    (hdescend : ∀ s, keep s → ¬ goal s → M.Ensures act (fun t => measure t < measure s) s)
    {s : σ} (hs : keep s) : M.Ensures act goal s := by
  induction hn : measure s using Nat.strongRecOn generalizing s with
  | ind n ih =>
      subst hn
      by_cases hgoal : goal s
      · exact .here hgoal
      · exact ((hdescend s hs hgoal).keeping hs hkeep).trans fun t ht =>
          ih (measure t) ht.1 ht.2 rfl

/-- What can be ensured can be reached, with whatever answers one likes. -/
theorem Ensures.canReach {s : σ} {goal : σ → Prop} (h : M.Ensures act goal s)
    (answer : σ → ω → χ) {permitted : α → Prop}
    (hpermitted : ∀ t chosen, permitted (act chosen (answer t chosen))) :
    M.CanReach permitted s goal := by
  induction h with
  | here hgoal => exact .here hgoal
  | @move s chosen next hstep _ ih =>
      exact .cons (hpermitted s chosen) (hstep (answer s chosen)) (ih (answer s chosen))

end Ensures

/-! ## Event histories -/

section Traced

variable {ε : Type uε} {init : σ} {next : σ → α → Option (σ × List ε)}

variable (init next) in
/-- The machine on pairs of a state and the events reported so far. -/
def traced : Machine (σ × List ε) α where
  init := (init, [])
  step c a := (next c.1 a).map fun r => (r.1, c.2 ++ r.2)

@[simp]
theorem traced_init : (traced init next).init = (init, []) := rfl

/-- What one step does to the state and to the history. -/
theorem traced_step {c d : σ × List ε} {a : α} :
    (traced init next).step c a = some d ↔
      ∃ t events, next c.1 a = some (t, events) ∧ d = (t, c.2 ++ events) := by
  simp only [traced, Option.map_eq_some_iff, Prod.exists]
  constructor
  · rintro ⟨t, events, hnext, rfl⟩
    exact ⟨t, events, hnext, rfl⟩
  · rintro ⟨t, events, hnext, rfl⟩
    exact ⟨t, events, hnext, rfl⟩

/-- Histories only grow. -/
theorem traced_step_prefix {c d : σ × List ε} {a : α}
    (hstep : (traced init next).step c a = some d) : c.2 <+: d.2 := by
  obtain ⟨t, events, -, rfl⟩ := traced_step.mp hstep
  exact List.prefix_append _ _

theorem traced_exec_prefix {c d : σ × List ε} {as : List α}
    (hexec : (traced init next).exec c as = some d) : c.2 <+: d.2 := by
  induction as generalizing c with
  | nil =>
      rw [exec_nil] at hexec
      cases hexec
      exact List.prefix_rfl
  | cons a as ih =>
      rw [exec_cons, Option.bind_eq_some_iff] at hexec
      obtain ⟨e, hstep, hrest⟩ := hexec
      have hpre := traced_step_prefix hstep
      exact hpre.trans (ih hrest)

/-- An event of a history that has grown by one is the new one or an old one. -/
theorem split_concat {history before after : List ε} {last event : ε}
    (h : history ++ [last] = before ++ event :: after) :
    (history = before ∧ last = event ∧ after = []) ∨
      ∃ rest, after = rest ++ [last] ∧ history = before ++ event :: rest := by
  rcases List.eq_nil_or_concat after with rfl | ⟨rest, final, rfl⟩
  · obtain ⟨rfl, hlast⟩ := List.append_inj' h rfl
    exact .inl ⟨rfl, List.singleton_inj.mp hlast, rfl⟩
  · rw [List.concat_eq_append, ← List.cons_append, ← List.append_assoc] at h
    obtain ⟨rfl, hlast⟩ := List.append_inj' h rfl
    obtain rfl := List.singleton_inj.mp hlast
    exact .inr ⟨rest, List.concat_eq_append, rfl⟩

/-- An event that is not among the new ones is an old one. -/
theorem split_append {history new before after : List ε} {event : ε}
    (h : history ++ new = before ++ event :: after) (hnew : event ∉ new) :
    ∃ rest, history = before ++ event :: rest := by
  obtain ⟨gap, rfl, rfl⟩ | ⟨gap, rfl, hgap⟩ := List.append_eq_append_iff.mp h
  · exact absurd (List.mem_append_right gap List.mem_cons_self) hnew
  · cases gap with
    | nil =>
        obtain rfl : event :: after = new := hgap
        exact absurd List.mem_cons_self hnew
    | cons first rest =>
        obtain ⟨rfl, -⟩ := List.cons.inj hgap
        exact ⟨rest, rfl⟩

end Traced

/-! ## Simulation -/

section Simulation

variable {τ : Type uτ} {β : Type uβ} {N : Machine τ β}

/-- If every step of `M` from related states can be matched by a schedule of
`N`, every reachable state of `M` is related to a reachable state of `N`. -/
theorem Reachable.simulate {rel : σ → τ → Prop} (hinit : rel M.init N.init)
    (hmatch : ∀ s t a s', M.Reachable s → N.Reachable t → rel s t →
      M.step s a = some s' → ∃ bs t', N.exec t bs = some t' ∧ rel s' t')
    {s : σ} (hs : M.Reachable s) : ∃ t, N.Reachable t ∧ rel s t := by
  refine Reachable.induct (P := fun s => ∃ t, N.Reachable t ∧ rel s t)
    ⟨N.init, N.reachable_init, hinit⟩ ?_ hs
  rintro s a s' hs ⟨t, ht, hrel⟩ hstep
  obtain ⟨bs, t', hexec, hrel'⟩ := hmatch s t a s' hs ht hrel hstep
  exact ⟨t', ht.exec hexec, hrel'⟩

end Simulation

/-! ## Memories -/

section Remembering

variable {γ : Type uγ} {start : γ} {remember : γ → σ → α → γ}

variable (M start remember) in
/-- The machine with a memory of its steps, which it never looks at. -/
def remembering : Machine (σ × γ) α where
  init := (M.init, start)
  step c a := (M.step c.1 a).map fun t => (t, remember c.2 c.1 a)

theorem remembering_step {c d : σ × γ} {a : α} :
    (M.remembering start remember).step c a = some d ↔
      M.step c.1 a = some d.1 ∧ d.2 = remember c.2 c.1 a := by
  simp only [remembering, Option.map_eq_some_iff]
  constructor
  · rintro ⟨t, hstep, rfl⟩
    exact ⟨hstep, rfl⟩
  · rintro ⟨hstep, hmemory⟩
    exact ⟨d.1, hstep, Prod.ext rfl hmemory.symm⟩

theorem Reachable.forget {c : σ × γ} (hc : (M.remembering start remember).Reachable c) :
    M.Reachable c.1 := by
  refine Reachable.induct (P := fun c : σ × γ => M.Reachable c.1) M.reachable_init ?_ hc
  intro c a d _ h hstep
  exact h.step (remembering_step.mp hstep).1

/-- A memory stops nothing. -/
theorem Reachable.remembering {s : σ} (hs : M.Reachable s) :
    ∃ memory, (M.remembering start remember).Reachable (s, memory) := by
  refine Reachable.induct
    (P := fun s => ∃ memory, (M.remembering start remember).Reachable (s, memory))
    ⟨start, reachable_init _⟩ ?_ hs
  rintro s a t _ ⟨memory, hmemory⟩ hstep
  exact ⟨_, hmemory.step (remembering_step.mpr ⟨hstep, rfl⟩)⟩

end Remembering

/-! ## Guarded machines -/

section Guarded

variable (M) in
/-- The machine that takes only the steps that a guard allows. -/
def guarded (guard : σ → α → Prop) [∀ s a, Decidable (guard s a)] : Machine σ α where
  init := M.init
  step s a := if guard s a then M.step s a else none

theorem guarded_step {guard : σ → α → Prop} [∀ s a, Decidable (guard s a)] {s t : σ} {a : α} :
    (M.guarded guard).step s a = some t ↔ guard s a ∧ M.step s a = some t := by
  by_cases hguard : guard s a
  · simp [guarded, hguard]
  · simp [guarded, hguard]

/-- What can be reached can be reached under a guard that the permitted actions meet. -/
theorem CanReach.guarded {guard : σ → α → Prop} [∀ s a, Decidable (guard s a)]
    {permitted : α → Prop} {keep goal : σ → Prop} {s : σ}
    (hreach : M.CanReach permitted s goal) (hs : keep s)
    (hkeep : ∀ t a u, keep t → permitted a → M.step t a = some u → keep u)
    (hguard : ∀ t a, keep t → permitted a → guard t a) :
    (M.guarded guard).CanReach permitted s goal := by
  obtain ⟨as, t, has, hexec, hgoal⟩ := hreach
  induction as generalizing s with
  | nil =>
      rw [exec_nil] at hexec
      cases hexec
      exact .here hgoal
  | cons a as ih =>
      rw [exec_cons, Option.bind_eq_some_iff] at hexec
      obtain ⟨u, hstep, hrest⟩ := hexec
      have ha := has a List.mem_cons_self
      have hlater := ih (hkeep s a u hs ha hstep) (fun b hb => has b (List.mem_cons_of_mem _ hb))
        hrest
      exact .cons ha (guarded_step.mpr ⟨hguard s a hs ha, hstep⟩) hlater

/-- A guard on what is remembered and on the state: the runs are those whose steps meet it. -/
theorem exec_of_guarded_remembering {γ : Type uγ} {start : γ} {remember : γ → σ → α → γ}
    {G : γ → σ → α → Prop} [∀ memory s a, Decidable (G memory s a)] {as : List α} {c d : σ × γ}
    (hexec : ((M.remembering start remember).guarded fun c a => G c.2 c.1 a).exec c as =
      some d) :
    M.exec c.1 as = some d.1 ∧ M.AlongWith remember G c.2 c.1 as := by
  induction as generalizing c with
  | nil =>
      rw [exec_nil] at hexec
      cases hexec
      exact ⟨rfl, trivial⟩
  | cons a as ih =>
      rw [exec_cons, Option.bind_eq_some_iff] at hexec
      obtain ⟨e, hstep, hrest⟩ := hexec
      obtain ⟨hguard, hremembered⟩ := guarded_step.mp hstep
      obtain ⟨hfirst, hmemory⟩ := remembering_step.mp hremembered
      obtain ⟨hexec', halong⟩ := ih hrest
      rw [hmemory] at halong
      refine ⟨by rw [exec_cons, hfirst]; exact hexec', hguard, fun t ht => ?_⟩
      cases hfirst.symm.trans ht
      exact halong

end Guarded

/-! ## Components -/

variable (M) in
/-- A part of a machine that is a machine of its own: it takes the step that its
share of an action asks for, and rests when it has no share. -/
structure Component {τ : Type uτ} {β : Type uβ} (N : Machine τ β) where
  view : σ → τ
  share : σ → α → Option β
  view_init : view M.init = N.init
  step_share : ∀ {s : σ} {a : α} {t : σ} {b : β}, M.step s a = some t → share s a = some b →
    N.step (view s) b = some (view t)
  step_rest : ∀ {s : σ} {a : α} {t : σ}, M.step s a = some t → share s a = none →
    view t = view s

namespace Component

variable {τ : Type uτ} {β : Type uβ} {N : Machine τ β} (C : M.Component N)

/-- What a schedule of the whole asks of the part. -/
def schedule : σ → List α → List β
  | _, [] => []
  | s, a :: as =>
      match M.step s a with
      | none => []
      | some t => (C.share s a).toList ++ schedule t as

theorem schedule_cons {s t : σ} {a : α} {as : List α} (hstep : M.step s a = some t) :
    C.schedule s (a :: as) = (C.share s a).toList ++ C.schedule t as := by
  simp only [schedule, hstep]

theorem schedule_append {s t : σ} {as bs : List α} (hexec : M.exec s as = some t) :
    C.schedule s (as ++ bs) = C.schedule s as ++ C.schedule t bs := by
  induction as generalizing s with
  | nil =>
      rw [exec_nil] at hexec
      cases hexec
      rfl
  | cons a as ih =>
      rw [exec_cons, Option.bind_eq_some_iff] at hexec
      obtain ⟨u, hstep, hrest⟩ := hexec
      rw [List.cons_append, C.schedule_cons hstep, C.schedule_cons hstep, ih hrest,
        List.append_assoc]

/-- It is a schedule of the part. -/
theorem exec_view {as : List α} {s t : σ} (hexec : M.exec s as = some t) :
    N.exec (C.view s) (C.schedule s as) = some (C.view t) := by
  induction as generalizing s with
  | nil =>
      rw [exec_nil] at hexec
      cases hexec
      rfl
  | cons a as ih =>
      rw [exec_cons, Option.bind_eq_some_iff] at hexec
      obtain ⟨u, hstep, hrest⟩ := hexec
      rw [C.schedule_cons hstep]
      cases hshare : C.share s a with
      | none =>
          rw [← C.step_rest hstep hshare]
          exact ih hrest
      | some b =>
          rw [Option.toList_some, List.singleton_append, exec_cons, C.step_share hstep hshare]
          exact ih hrest

theorem reachable_view {s : σ} (hs : M.Reachable s) : N.Reachable (C.view s) := by
  obtain ⟨as, hexec⟩ := hs
  have hview := C.exec_view hexec
  rw [C.view_init] at hview
  exact ⟨C.schedule M.init as, hview⟩

/-- A guard of the part, asked of the whole. -/
def lift (guard : τ → β → Prop) (s : σ) (a : α) : Prop :=
  ∀ b, C.share s a = some b → guard (C.view s) b

instance (guard : τ → β → Prop) [∀ s b, Decidable (guard s b)] (s : σ) (a : α) :
    Decidable (C.lift guard s a) :=
  match hshare : C.share s a with
  | none => .isTrue (by simp [lift, hshare])
  | some b => decidable_of_iff (guard (C.view s) b) (by simp [lift, hshare])

theorem along_lift_and {first second : τ → β → Prop} {s : σ} {as : List α}
    (hfirst : M.Along (C.lift first) s as) (hsecond : M.Along (C.lift second) s as) :
    M.Along (C.lift fun t b => first t b ∧ second t b) s as := by
  rw [along_iff_forall] at hfirst hsecond ⊢
  intro before a after t hsplit hexec b hshare
  exact ⟨hfirst before a after t hsplit hexec b hshare,
    hsecond before a after t hsplit hexec b hshare⟩

theorem along_view {guard : τ → β → Prop} {as : List α} {s t : σ}
    (hexec : M.exec s as = some t) (halong : M.Along (C.lift guard) s as) :
    N.Along guard (C.view s) (C.schedule s as) := by
  induction as generalizing s with
  | nil => exact trivial
  | cons a as ih =>
      rw [exec_cons, Option.bind_eq_some_iff] at hexec
      obtain ⟨u, hstep, hrest⟩ := hexec
      obtain ⟨hguard, hafter⟩ := halong
      have htail := ih hrest (hafter u hstep)
      rw [C.schedule_cons hstep]
      cases hshare : C.share s a with
      | none =>
          rw [← C.step_rest hstep hshare]
          exact htail
      | some b =>
          rw [Option.toList_some, List.singleton_append]
          refine ⟨hguard b hshare, fun v hv => ?_⟩
          cases (C.step_share hstep hshare).symm.trans hv
          exact htail

/-- The invariant rule for one part under a guard on its own steps. -/
theorem along_induct {guard : τ → β → Prop} {P : τ → Prop} (hinit : P N.init)
    (hkeep : ∀ s b t, N.Reachable s → P s → guard s b → N.step s b = some t → P t)
    {as : List α} {s : σ} (hexec : M.exec M.init as = some s)
    (halong : M.Along (C.lift guard) M.init as) : P (C.view s) := by
  have hview := C.exec_view hexec
  have hguard := C.along_view hexec halong
  rw [C.view_init] at hview hguard
  exact Machine.along_induct hinit hkeep hview hguard

end Component

end Machine

end P2PNetworking.Lib
