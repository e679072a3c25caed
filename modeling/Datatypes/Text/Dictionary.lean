/-! Dictionaries: values under distinct texts, in increasing order of the texts. -/

namespace Datatypes

abbrev Dictionary (α : Type) := List (String × α)

namespace Dictionary

variable {α : Type}

def insert (dict : Dictionary α) (key : String) (value : α) : Dictionary α :=
  match dict with
  | [] => [(key, value)]
  | (k, v) :: rest =>
    if key = k then (key, value) :: rest
    else if key < k then (key, value) :: (k, v) :: rest
    else (k, v) :: insert rest key value

def get? (dict : Dictionary α) (key : String) : Option α := dict.lookup key

def keys (dict : Dictionary α) : List String := dict.map (·.1)

def insertAll (dict : Dictionary α) (entries : List (String × α)) : Dictionary α :=
  entries.foldl (fun dict (key, value) => dict.insert key value) dict

theorem get?_cons (k key : String) (value : α) (rest : Dictionary α) :
    get? ((key, value) :: rest) k = if k = key then some value else get? rest k := by
  rw [get?, List.lookup_cons]
  by_cases h : k = key
  · simp [h]
  · have hb : (k == key) = false := by simpa using h
    simp [hb, h, get?]

theorem get?_insert (dict : Dictionary α) (key k : String) (value : α) :
    (dict.insert key value).get? k = if k = key then some value else dict.get? k := by
  induction dict with
  | nil => rw [insert, get?_cons]
  | cons entry rest ih =>
    obtain ⟨l, v⟩ := entry
    rw [insert]
    split
    · next h => rw [get?_cons, get?_cons, h]; split <;> rfl
    · next h =>
      split
      · rw [get?_cons]
      · rw [get?_cons, get?_cons, ih]
        split
        · next hk => rw [if_neg (fun e => h (e.symm.trans hk))]
        · rfl

end Dictionary

end Datatypes
