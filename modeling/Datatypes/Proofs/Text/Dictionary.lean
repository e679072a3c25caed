import Datatypes.Text.Dictionary

/-!
Dictionaries as the record of what was put into them: the keys stay in strictly increasing order,
and under each key stands the value that was put there last.
-/

namespace Datatypes.Dictionary

variable {α : Type} {dict : Dictionary α}

def Sorted (dict : Dictionary α) : Prop := dict.keys.Pairwise (· < ·)

def valuesFor (entries : List (String × α)) (key : String) : List α :=
  (entries.filter (·.1 = key)).map (·.2)

theorem valuesFor_append (entries more : List (String × α)) (key : String) :
    valuesFor (entries ++ more) key = valuesFor entries key ++ valuesFor more key := by
  simp [valuesFor]

theorem valuesFor_cons (k key : String) (value : α) (entries : List (String × α)) :
    valuesFor ((k, value) :: entries) key =
      (if k = key then [value] else []) ++ valuesFor entries key := by
  by_cases h : k = key <;> simp [valuesFor, h]

theorem mem_keys_insert {k key : String} {value : α} :
    k ∈ (dict.insert key value).keys ↔ k = key ∨ k ∈ dict.keys := by
  induction dict with
  | nil => simp [insert, keys]
  | cons entry rest ih =>
    obtain ⟨l, v⟩ := entry
    rw [insert]
    split
    · next h => simp [keys, h]
    · split
      · simp [keys]
      · simp only [keys, List.map_cons, List.mem_cons] at ih ⊢
        rw [ih, or_left_comm]

theorem mem_keys_of_get? {key : String} {value : α} (h : dict.get? key = some value) :
    key ∈ dict.keys := by
  obtain ⟨before, after, rfl, -⟩ := List.lookup_eq_some_iff.mp h
  simp [keys]

theorem sorted_nil : Sorted ([] : Dictionary α) := .nil

theorem sorted_cons {key : String} {value : α} :
    Sorted ((key, value) :: dict) ↔ (∀ k ∈ dict.keys, key < k) ∧ Sorted dict :=
  List.pairwise_cons

theorem Sorted.insert (h : dict.Sorted) (key : String) (value : α) :
    (dict.insert key value).Sorted := by
  induction dict with
  | nil => simp [Dictionary.insert, Sorted, keys]
  | cons entry rest ih =>
    obtain ⟨l, v⟩ := entry
    obtain ⟨first, later⟩ := sorted_cons.mp h
    rw [Dictionary.insert]
    split
    · next heq =>
      subst heq
      exact h
    · next hne =>
      split
      · next hlt =>
        refine sorted_cons.mpr ⟨fun k hk => ?_, h⟩
        rcases List.mem_cons.mp hk with rfl | hk
        · exact hlt
        · exact String.lt_trans hlt (first k hk)
      · next hge =>
        refine sorted_cons.mpr ⟨fun k hk => ?_, ih later⟩
        rcases mem_keys_insert.mp hk with rfl | hk
        · exact Std.lt_of_le_of_ne (String.not_lt.mp hge) (Ne.symm hne)
        · exact first k hk

theorem Sorted.insertAll (h : dict.Sorted) (entries : List (String × α)) :
    (dict.insertAll entries).Sorted := by
  induction entries generalizing dict with
  | nil => exact h
  | cons entry entries ih => exact ih (h.insert entry.1 entry.2)

theorem get?_insertAll (entries : List (String × α)) (key : String) :
    (dict.insertAll entries).get? key = (valuesFor entries key).getLast?.or (dict.get? key) := by
  induction entries generalizing dict with
  | nil => rfl
  | cons entry entries ih =>
    obtain ⟨k, v⟩ := entry
    have put : dict.insertAll ((k, v) :: entries) = (dict.insert k v).insertAll entries := rfl
    rw [put, ih, get?_insert, valuesFor_cons, List.getLast?_append, Option.or_assoc]
    by_cases hk : k = key
    · simp [hk]
    · simp [hk, Ne.symm hk]

theorem valuesFor_of_not_mem {key : String} (h : key ∉ dict.keys) : valuesFor dict key = [] := by
  simp only [valuesFor, List.map_eq_nil_iff, List.filter_eq_nil_iff, decide_eq_true_eq]
  rintro entry hentry rfl
  exact h (List.mem_map_of_mem hentry)

theorem Sorted.valuesFor_eq (h : dict.Sorted) (key : String) :
    valuesFor dict key = (dict.get? key).toList := by
  induction dict with
  | nil => rfl
  | cons entry rest ih =>
    obtain ⟨k, v⟩ := entry
    obtain ⟨first, later⟩ := sorted_cons.mp h
    rw [valuesFor_cons, get?_cons]
    by_cases hk : key = k
    · subst hk
      have once : key ∉ keys rest := fun hmem => String.lt_irrefl key (first key hmem)
      simp [valuesFor_of_not_mem once]
    · simp [hk, Ne.symm hk, ih later]

theorem Sorted.get?_eq_some_iff (h : dict.Sorted) {key : String} {value : α} :
    dict.get? key = some value ↔ (key, value) ∈ dict := by
  have listed : value ∈ valuesFor dict key ↔ (key, value) ∈ dict := by
    simp [valuesFor]
  rw [← listed, h.valuesFor_eq, Option.mem_toList]

end Datatypes.Dictionary
