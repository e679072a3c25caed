import Mathlib.Data.List.TakeWhile
import Datatypes.Text.Segments

/-!
Cutting a text at a separator and putting its segments together again. The separator is given as
a character `sep` and as the text `u` that consists of it.
-/

namespace Datatypes.Text

variable {sep : Char} {u : String}

theorem split_ne_nil (sep : Char) (s : String) : split sep s ≠ [] := by
  simp [split]

theorem flatten_splitOn (sep : Char) (cs : List Char) :
    (cs.splitOn sep).flatten = cs.filter (· ≠ sep) := by
  induction cs with
  | nil => rfl
  | cons c cs ih =>
    obtain ⟨piece, pieces, hs⟩ := List.exists_cons_of_ne_nil (List.splitOn_ne_nil sep cs)
    rw [List.splitOn_cons_eq_if_modifyHead]
    by_cases hc : c = sep
    · simpa [hc] using ih
    · rw [if_neg (by simpa using hc), List.filter_cons_of_pos (by simpa using hc), ← ih, hs]
      rfl

theorem mem_of_mem_split {s part : String} (h : part ∈ split sep s) {c : Char}
    (hc : c ∈ part.toList) : c ∈ s.toList ∧ c ≠ sep := by
  obtain ⟨piece, hp, rfl⟩ := List.mem_map.mp h
  rw [String.toList_ofList] at hc
  have member : c ∈ (s.toList.splitOn sep).flatten := List.mem_flatten_of_mem hp hc
  rw [flatten_splitOn] at member
  simpa using member

theorem exists_mem_split {s : String} {c : Char} (h : c ∈ s.toList) (hc : c ≠ sep) :
    ∃ part ∈ split sep s, c ∈ part.toList := by
  have member : c ∈ (s.toList.splitOn sep).flatten := by
    rw [flatten_splitOn]
    simpa using ⟨h, hc⟩
  obtain ⟨piece, hp, hin⟩ := List.mem_flatten.mp member
  exact ⟨String.ofList piece, List.mem_map_of_mem hp, by simpa using hin⟩

theorem not_mem_of_mem_split {s part : String} (h : part ∈ split sep s) : sep ∉ part.toList :=
  fun hc => (mem_of_mem_split h hc).2 rfl

theorem segments_eq_nil_iff {s : String} : segments sep s = [] ↔ ∀ c ∈ s.toList, c = sep := by
  have pieces : segments sep s = [] ↔ (s.toList.splitOn sep).flatten = [] := by
    simp [segments, split, List.flatten_eq_nil_iff]
  rw [pieces, flatten_splitOn, List.filter_eq_nil_iff]
  simp

theorem map_toList_ofList (pieces : List (List Char)) :
    (pieces.map String.ofList).map String.toList = pieces := by
  simp [Function.comp_def]

theorem map_ofList_toList (parts : List String) :
    (parts.map String.toList).map String.ofList = parts := by
  simp [Function.comp_def]

theorem split_append (hu : u.toList = [sep]) (s t : String) :
    split sep (s ++ u ++ t) = split sep s ++ split sep t := by
  have text : (s ++ u ++ t).toList = s.toList ++ sep :: t.toList := by simp [hu]
  rw [split, split, split, text, List.splitOn_append_cons_self,
    List.map_append]

theorem intercalate_split (hu : u.toList = [sep]) (s : String) :
    u.intercalate (split sep s) = s := by
  rw [← String.toList_inj, String.toList_intercalate, split, map_toList_ofList, hu,
    List.intercalate_splitOn]

theorem split_intercalate (hu : u.toList = [sep]) {parts : List String} (hne : parts ≠ [])
    (h : ∀ s ∈ parts, sep ∉ s.toList) : split sep (u.intercalate parts) = parts := by
  have pieces : ∀ l ∈ parts.map String.toList, sep ∉ l := by simpa using h
  rw [split, String.toList_intercalate, hu,
    List.splitOn_intercalate sep pieces (by simpa using hne), map_ofList_toList]

theorem afterLast_of_split (hu : u.toList = [sep]) {s last : String} {before : List String}
    (h : split sep s = before ++ [last]) : afterLast sep s = last := by
  have apart : ∀ c ∈ last.toList.reverse, decide (c ≠ sep) = true := by
    intro c hc
    have noSep : sep ∉ last.toList := not_mem_of_mem_split (s := s) (by simp [h])
    have other : c ≠ sep := by
      rintro rfl
      exact noSep (List.mem_reverse.mp hc)
    simpa using other
  have ending (rest : List Char) (hs : s.toList.reverse = last.toList.reverse ++ rest)
      (hrest : rest.takeWhile (· ≠ sep) = []) : afterLast sep s = last := by
    rw [afterLast, hs, List.takeWhile_append_of_pos apart, hrest, List.append_nil,
      List.reverse_reverse, String.ofList_toList]
  have whole := intercalate_split hu s
  rw [h] at whole
  cases before with
  | nil =>
    rw [List.nil_append, String.intercalate_singleton] at whole
    exact ending [] (by simp [whole]) rfl
  | cons first rest =>
    rw [String.intercalate_append_of_ne_nil (by simp) (by simp), String.intercalate_singleton]
      at whole
    refine ending (sep :: (u.intercalate (first :: rest)).toList.reverse) ?_ (by simp)
    simp [← whole, hu]

theorem exists_eq_dropTrailing_append (c : Char) (s : String) :
    ∃ k, s = dropTrailing c s ++ String.ofList (List.replicate k c) := by
  have all : ∀ x ∈ s.toList.reverse.takeWhile (· = c), x = c := fun x hx => by
    simpa using List.mem_takeWhile_imp hx
  refine ⟨(s.toList.reverse.takeWhile (· = c)).length, ?_⟩
  rw [← List.eq_replicate_of_mem all, ← String.toList_inj, String.toList_append, dropTrailing,
    String.toList_ofList, String.toList_ofList]
  have whole := congrArg List.reverse
    (List.takeWhile_append_dropWhile (p := fun x => decide (x = c)) (l := s.toList.reverse))
  rw [List.reverse_append, List.reverse_reverse] at whole
  have same : (s.toList.reverse.takeWhile (· = c)).reverse =
      s.toList.reverse.takeWhile (· = c) := by
    rw [List.eq_replicate_of_mem all, List.reverse_replicate]
  rw [← same, whole]

theorem forall_mem_intercalate {α : Type} {P : α → Prop} {sep : List α} {parts : List (List α)}
    (hs : ∀ x ∈ sep, P x) (h : ∀ part ∈ parts, ∀ x ∈ part, P x) :
    ∀ x ∈ sep.intercalate parts, P x := by
  induction parts with
  | nil => simp
  | cons part parts ih =>
    have first := h part (by simp)
    have further := ih fun x hx => h x (by simp [hx])
    cases parts with
    | nil => simpa using first
    | cons next parts =>
      intro x hx
      rw [List.intercalate_cons_cons, List.mem_append, List.mem_append] at hx
      rcases hx with (hx | hx) | hx
      · exact first x hx
      · exact hs x hx
      · exact further x hx

theorem intercalate_append {α : Type} (sep : List α) (xs : List (List α)) {ys : List (List α)}
    (hy : ys ≠ []) :
    sep.intercalate (xs ++ ys) = xs.flatMap (· ++ sep) ++ sep.intercalate ys := by
  induction xs with
  | nil => rfl
  | cons x xs ih =>
    obtain ⟨next, more, hmore⟩ := List.exists_cons_of_ne_nil (by simp [hy] : xs ++ ys ≠ [])
    rw [List.cons_append, hmore, List.intercalate_cons_cons, ← hmore, ih, List.flatMap_cons,
      List.append_assoc (x ++ sep)]

end Datatypes.Text
