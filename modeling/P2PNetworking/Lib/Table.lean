/-
# Finite tables

Association lists with distinct keys, for programs that keep hash maps.  Lookup,
insertion and removal are the library's; this module adds what a program that
also walks through a table needs: its values, and an update of all of them.
-/

import Mathlib.Data.List.AList

namespace P2PNetworking.Lib

universe uκ uν

/-- A finite table from keys to values. -/
abbrev Table (κ : Type uκ) (ν : Type uν) := AList fun _ : κ => ν

namespace Table

variable {κ : Type uκ} {ν : Type uν} [DecidableEq κ]

/-- An insertion is seen at its own key only. -/
theorem lookup_insert_eq_ite (table : Table κ ν) (key other : κ) (value : ν) :
    (table.insert key value).lookup other =
      if other = key then some value else table.lookup other := by
  split
  · next h => rw [h, AList.lookup_insert]
  · next h => exact AList.lookup_insert_ne h

/-- So is a removal. -/
theorem lookup_erase_eq_ite (table : Table κ ν) (key other : κ) :
    (table.erase key).lookup other = if other = key then none else table.lookup other := by
  split
  · next h => rw [h, AList.lookup_erase]
  · next h => exact AList.lookup_erase_ne h

omit [DecidableEq κ] in
/-- The values, in the order of the table. -/
def values (table : Table κ ν) : List ν := table.entries.map Sigma.snd

/-- A value stands in the table under some key. -/
theorem mem_values {table : Table κ ν} {value : ν} :
    value ∈ table.values ↔ ∃ key, table.lookup key = some value := by
  simp only [values, List.mem_map]
  constructor
  · rintro ⟨⟨key, value⟩, hmem, rfl⟩
    exact ⟨key, AList.mem_lookup_iff.mpr hmem⟩
  · rintro ⟨key, hlookup⟩
    exact ⟨⟨key, value⟩, AList.mem_lookup_iff.mp hlookup, rfl⟩

omit [DecidableEq κ] in
/-- Change every value in place. -/
def mapValues (f : ν → ν) (table : Table κ ν) : Table κ ν where
  entries := table.entries.map (.map id fun _ => f)
  nodupKeys := List.NodupKeys.map₂ (fun _ => f) table.entries table.nodupKeys

theorem lookup_mapValues (f : ν → ν) (table : Table κ ν) (key : κ) :
    (table.mapValues f).lookup key = (table.lookup key).map f :=
  List.dlookup_map₂ (l := table.entries) (f := fun _ => f) key

/-- Where every value knows its key, one value at most knows a key. -/
theorem countP_values {f : ν → κ} {table : Table κ ν}
    (hkeys : ∀ key value, table.lookup key = some value → f value = key) (p : ν → Bool)
    (key : κ) :
    table.values.countP (fun value => decide (f value = key) && p value) =
      ((table.lookup key).any p).toNat := by
  obtain ⟨entries, hnodup⟩ := table
  have hmem : ∀ entry ∈ entries, f entry.2 = entry.1 := fun entry hentry =>
    hkeys entry.1 entry.2 (List.mem_dlookup hnodup hentry)
  clear hkeys
  simp only [values, AList.lookup]
  induction entries with
  | nil => rfl
  | cons entry rest ih =>
      obtain ⟨first, value⟩ := entry
      have hfirst : f value = first := hmem ⟨first, value⟩ List.mem_cons_self
      have hrest := ih (List.nodupKeys_of_nodupKeys_cons hnodup)
        fun entry hentry => hmem entry (List.mem_cons_of_mem _ hentry)
      rw [List.map_cons, List.countP_cons, hrest, hfirst]
      by_cases heq : first = key
      · subst heq
        have hnone : List.dlookup first rest = none :=
          List.dlookup_eq_none.mpr (List.notMem_keys_of_nodupKeys_cons hnodup)
        rw [List.dlookup_cons_eq, hnone]
        cases hp : p value <;> simp [hp]
      · have hlookup : List.dlookup key (⟨first, value⟩ :: rest) = List.dlookup key rest :=
          List.dlookup_cons_ne _ _ (Ne.symm heq)
        rw [hlookup]
        simp [heq]

end Table

end P2PNetworking.Lib
