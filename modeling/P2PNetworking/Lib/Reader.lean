/-
# Readers

A reader takes what it wants from the front of its input and gives back the rest, or
fails and takes nothing.  Readers compose as a state monad; a second reader can be
tried where the first fails.

`Takes` says what the tokens that a reader takes have in common, whatever it makes of
them, and is built up along with the reader.
-/

import Mathlib.Data.List.Basic

namespace P2PNetworking.Lib

universe uτ uα

/-- From an input to a value and the rest of the input. -/
abbrev Reader (τ : Type uτ) (α : Type uτ) := StateT (List τ) Option α

namespace Reader

variable {τ α β : Type uτ}

/-- Exactly this token. -/
def token [DecidableEq τ] (target : τ) : Reader τ PUnit
  | [] => none
  | first :: rest => if first = target then some (⟨⟩, rest) else none

/-- Every token that has a value, up to the first that has none. -/
def many (value : τ → Option α) : Reader τ (List α)
  | [] => some ([], [])
  | first :: rest =>
      match value first with
      | none => some ([], first :: rest)
      | some a => (many value rest).map fun found => (a :: found.1, found.2)

/-- The value of an input that is taken to its end. -/
def run (reader : Reader τ α) (input : List τ) : Option α :=
  match reader input with
  | some (a, []) => some a
  | _ => none

theorem run_eq_some {reader : Reader τ α} {input : List τ} {a : α} :
    reader.run input = some a ↔ reader input = some (a, []) := by
  unfold run
  split
  · next heq => simp [heq]
  · next hne =>
    constructor
    · rintro ⟨⟩
    · exact fun h => absurd h (hne a)

theorem bind_apply (first : Reader τ α) (next : α → Reader τ β) (input : List τ) :
    (first >>= next) input = (first input).bind fun found => next found.1 found.2 := rfl

theorem map_apply (f : α → β) (reader : Reader τ α) (input : List τ) :
    (f <$> reader) input = (reader input).map fun found => (f found.1, found.2) := by
  rw [map_eq_pure_bind, bind_apply, Option.map_eq_bind]
  rfl

theorem orElse_apply (first second : Reader τ α) (input : List τ) :
    (first <|> second) input = (first input).orElse fun _ => second input := rfl

theorem token_cons_self [DecidableEq τ] (target : τ) (rest : List τ) :
    token target (target :: rest) = some (⟨⟩, rest) := if_pos rfl

theorem many_append {value : τ → Option α} {text rest : List τ} {found : List α}
    (htext : text.map value = found.map some) (hrest : ∀ t ∈ rest.head?, value t = none) :
    many value (text ++ rest) = some (found, rest) := by
  induction text generalizing found with
  | nil =>
      obtain rfl : found = [] := by simpa using htext.symm
      cases rest with
      | nil => rfl
      | cons t rest => simp [many, hrest t (by simp)]
  | cons t text ih =>
      cases found with
      | nil => simp at htext
      | cons a found =>
          obtain ⟨hvalue, htail⟩ := List.cons.inj htext
          simp [many, hvalue, ih htail]

/-! ## What is taken -/

/-- All that the reader takes has the property. -/
def Takes (property : τ → Prop) (reader : Reader τ α) : Prop :=
  ∀ input a rest, reader input = some (a, rest) →
    ∃ taken, input = taken ++ rest ∧ ∀ t ∈ taken, property t

namespace Takes

variable {property : τ → Prop} {first second : Reader τ α}

theorem pure (a : α) : Takes property (pure a : Reader τ α) := by
  rintro input _ _ ⟨⟩
  exact ⟨[], rfl, by simp⟩

theorem failure : Takes property (failure : Reader τ α) := by
  rintro input _ _ ⟨⟩

theorem bind {next : α → Reader τ β} (hfirst : Takes property first)
    (hnext : ∀ a, Takes property (next a)) : Takes property (first >>= next) := by
  intro input b rest h
  rw [bind_apply, Option.bind_eq_some_iff] at h
  obtain ⟨⟨a, middle⟩, hread, hread'⟩ := h
  obtain ⟨taken, rfl, htaken⟩ := hfirst _ _ _ hread
  obtain ⟨taken', rfl, htaken'⟩ := hnext a _ _ _ hread'
  refine ⟨taken ++ taken', by simp, fun t ht => ?_⟩
  exact (List.mem_append.mp ht).elim (htaken t) (htaken' t)

theorem orElse (hfirst : Takes property first) (hsecond : Takes property second) :
    Takes property (first <|> second) := by
  intro input a rest h
  rw [orElse_apply] at h
  cases hread : first input with
  | none => exact hsecond _ _ _ (by simpa [hread] using h)
  | some found => exact hfirst _ _ _ (by simpa [hread] using h)

theorem map (hfirst : Takes property first) (f : α → β) : Takes property (f <$> first) := by
  rw [map_eq_pure_bind]
  exact hfirst.bind fun a => pure (f a)

theorem mapM {ι : Type uα} {reader : ι → Reader τ α} (htakes : ∀ i, Takes property (reader i))
    (is : List ι) : Takes property (is.mapM reader) := by
  induction is with
  | nil =>
      rw [List.mapM_nil]
      exact pure []
  | cons i is ih =>
      rw [List.mapM_cons]
      exact (htakes i).bind fun a => ih.bind fun as => pure (a :: as)

theorem token [DecidableEq τ] {target : τ} (htarget : property target) :
    Takes property (token target) := by
  intro input _ rest h
  cases input with
  | nil => cases h
  | cons t input =>
      by_cases heq : t = target
      · rw [Reader.token, if_pos heq] at h
        cases h
        exact ⟨[t], rfl, by simpa [heq] using htarget⟩
      · rw [Reader.token, if_neg heq] at h
        cases h

theorem many {value : τ → Option α} (hvalue : ∀ t a, value t = some a → property t) :
    Takes property (many value) := by
  intro input
  induction input with
  | nil =>
      rintro _ _ ⟨⟩
      exact ⟨[], rfl, by simp⟩
  | cons t input ih =>
      intro found rest h
      unfold Reader.many at h
      split at h
      · cases h
        exact ⟨[], rfl, by simp⟩
      · next a ha =>
        obtain ⟨⟨found', rest'⟩, hread, hsame⟩ := Option.map_eq_some_iff.mp h
        cases hsame
        obtain ⟨taken, rfl, htaken⟩ := ih _ _ hread
        refine ⟨t :: taken, rfl, fun u hu => ?_⟩
        rcases List.mem_cons.mp hu with rfl | hu
        · exact hvalue _ a ha
        · exact htaken u hu

/-- An input that is taken to its end has the property all through. -/
theorem run {reader : Reader τ α} (htakes : Takes property reader) {input : List τ} {a : α}
    (h : reader.run input = some a) : ∀ t ∈ input, property t := by
  obtain ⟨taken, rfl, htaken⟩ := htakes _ _ _ (run_eq_some.mp h)
  simpa using htaken

end Takes

end Reader

end P2PNetworking.Lib
