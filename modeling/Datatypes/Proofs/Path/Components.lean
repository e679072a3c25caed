import Datatypes.Proofs.Path.Join

/-!
What a path goes through, read from its end. The segments that are left out at the end of a path are
those that it does not go through, so that the path of the directory lacks exactly the last
component, and an extension changes no other one.
-/

namespace Datatypes.Path

open Text

def Above (p q : String) : Prop :=
  components p <+: components q ∧ components p ≠ components q

theorem above_of_append {p q : String} {more : List Component} (hne : more ≠ [])
    (h : components q = components p ++ more) : Above p q := by
  rw [Above, h]
  exact ⟨List.prefix_append _ _, by simpa using hne⟩

theorem Above.trans {p q r : String} (h : Above p q) (h' : Above q r) : Above p r := by
  refine ⟨h.1.trans h'.1, fun heq => h'.2 ?_⟩
  have back : components r <+: components q := heq ▸ h.1
  exact h'.1.eq_of_length_le back.length_le

section Back

def componentsBack : List String → List Component
  | [] => []
  | s :: before => componentsBack before ++ (component? before.isEmpty s).toList

theorem componentsBack_eq (back : List String) :
    componentsBack back = (back.reverse.take 1).filterMap (component? true) ++
      (back.reverse.drop 1).filterMap (component? false) := by
  induction back with
  | nil => rfl
  | cons s before ih =>
    rw [componentsBack, ih, List.reverse_cons]
    cases hb : before.reverse with
    | nil =>
      obtain rfl : before = [] := by simpa using hb
      cases hs : component? true s <;> simp [hs]
    | cons first rest =>
      have inner : before.isEmpty = false := by
        cases before with
        | nil => cases hb
        | cons => rfl
      cases hs : component? false s <;> simp [hs, inner]

theorem fromLast_suffix (back : List String) : fromLast back <:+ back := by
  induction back with
  | nil => exact List.suffix_refl _
  | cons s before ih =>
    rw [fromLast]
    split
    · exact ih.trans (List.suffix_cons _ _)
    · exact List.suffix_refl _

theorem componentsBack_fromLast (back : List String) :
    componentsBack (fromLast back) = componentsBack back := by
  induction back with
  | nil => rfl
  | cons s before ih =>
    rw [fromLast]
    split
    · next hs =>
      have out : component? before.isEmpty s = none := by
        simp only [Bool.or_eq_true, Bool.and_eq_true, decide_eq_true_eq] at hs
        rcases hs with rfl | ⟨rfl, hne⟩
        · rfl
        · cases before with
          | nil => exact absurd rfl hne
          | cons => rfl
      rw [ih, componentsBack, out, Option.toList_none, List.append_nil]
    · rfl

theorem fromLast_eq_cons {s : String} {back before : List String}
    (h : fromLast back = s :: before) : s ≠ "" ∧ ∃ c, component? before.isEmpty s = some c := by
  induction back with
  | nil => cases h
  | cons u rest ih =>
    rw [fromLast] at h
    split at h
    · exact ih h
    · next hs =>
      cases h
      simp only [Bool.or_eq_true, Bool.and_eq_true, decide_eq_true_eq, not_or, not_and,
        ne_eq, not_not] at hs
      refine ⟨hs.1, ?_⟩
      by_cases hdot : s = "."
      · obtain rfl := hs.2 hdot
        exact ⟨.current, by simp [component?, hdot]⟩
      · by_cases hup : s = ".."
        · exact ⟨.parent, by simp [component?, hup]⟩
        · exact ⟨.name s, by simp [component?, hs.1, hdot, hup]⟩

end Back

section Segments

variable {p q : String}

theorem isAbsolute_of_split {front rest : List String} {s : String}
    (h : split '/' p = front ++ s :: rest) (hs : s ≠ "") :
    isAbsolute p = decide (front.head? = some "") := by
  have relative {u : String} {more : List String} (hu : split '/' p = u :: more) (hne : u ≠ "") :
      isAbsolute p = false := by
    have noSlash : '/' ∉ u.toList := not_mem_of_mem_split (s := p) (by simp [hu])
    rw [← intercalate_split slash_toList p, hu]
    cases more with
    | nil => simpa using isAbsolute_of_noSlash hne noSlash ""
    | cons v more =>
      rw [String.intercalate_cons_cons, String.append_assoc]
      exact isAbsolute_of_noSlash hne noSlash _
  cases front with
  | nil => simp [relative h hs]
  | cons u front =>
    by_cases hu : u = ""
    · obtain ⟨v, more, hv⟩ := List.exists_cons_of_ne_nil (by simp : front ++ s :: rest ≠ [])
      rw [List.cons_append, hv] at h
      rw [← intercalate_split slash_toList p, h, String.intercalate_cons_cons]
      simp [isAbsolute, hu]
    · simp [relative h hu, hu]

theorem split_of_isAbsolute (h : isAbsolute p = true) : ∃ rest, split '/' p = "" :: rest := by
  obtain ⟨cs, hcs⟩ := List.head?_eq_some_iff.mp (by simpa [isAbsolute] using h)
  have parts : p = "" ++ "/" ++ String.ofList cs := by simp [← String.toList_inj, hcs]
  rw [parts, split_append slash_toList]
  exact ⟨_, rfl⟩

def start (p : String) : List Component := if isAbsolute p then [.root] else []

theorem components_eq_start (p : String) :
    components p = start p ++ componentsBack (split '/' p).reverse := by
  rw [componentsBack_eq, List.reverse_reverse, components, start]
  cases ha : isAbsolute p with
  | false => simp
  | true =>
    obtain ⟨rest, hs⟩ := split_of_isAbsolute ha
    have none : component? true "" = none := rfl
    simp [hs, none]

theorem components_eq (p : String) : components p = start p ++ componentsBack (backward p) := by
  rw [components_eq_start, backward, componentsBack_fromLast]

theorem components_of_back {back before : List String} {s u : String}
    (hp : (split '/' p).reverse = back ++ s :: before) (hs : s ≠ "")
    (hq : split '/' q = (u :: before).reverse) (hu : u ≠ "") :
    components q = start p ++ componentsBack (u :: before) := by
  have hp' : split '/' p = before.reverse ++ s :: back.reverse := by
    rw [← List.reverse_reverse (split '/' p), hp]
    simp
  have hq' : split '/' q = before.reverse ++ u :: [] := by rw [hq, List.reverse_cons]
  have same : isAbsolute q = isAbsolute p := by
    rw [isAbsolute_of_split hq' hu, isAbsolute_of_split hp' hs]
  rw [components_eq_start, start, start, same, hq, List.reverse_reverse]

theorem exists_of_backward {name : String} {before : List String}
    (h : backward p = name :: before) :
    name ≠ "" ∧ (∃ c, component? before.isEmpty name = some c) ∧
      ∃ back, (split '/' p).reverse = back ++ name :: before := by
  obtain ⟨hne, hc⟩ := fromLast_eq_cons h
  obtain ⟨back, hback⟩ := fromLast_suffix (split '/' p).reverse
  exact ⟨hne, hc, back, by rw [← hback, ← h, backward]⟩

theorem noSlash_of_back {back more : List String} (h : (split '/' p).reverse = back ++ more) :
    ∀ s ∈ more, '/' ∉ s.toList := fun s hs =>
  not_mem_of_mem_split (List.mem_reverse.mp (by rw [h]; exact List.mem_append_right _ hs))

theorem components_parent? (h : parent? p = some q) : ∃ c, components p = components q ++ [c] := by
  rw [parent?] at h
  split at h
  · cases h
  · next name before hb =>
    obtain ⟨-, ⟨c, hc⟩, back, hback⟩ := exists_of_backward hb
    have whole : components p = start p ++ componentsBack before ++ [c] := by
      rw [components_eq, hb, componentsBack, hc, Option.toList_some, List.append_assoc]
    refine ⟨c, ?_⟩
    rw [whole, ← componentsBack_fromLast before]
    cases hf : fromLast before with
    | nil =>
      simp only [hf, Option.some.injEq] at h
      rw [← h, start]
      split <;> rfl
    | cons u rest =>
      simp only [hf, Option.some.injEq] at h
      obtain ⟨between, hbetween⟩ := fromLast_suffix before
      have hback' : (split '/' p).reverse = (back ++ name :: between) ++ u :: rest := by
        rw [hback, ← hbetween, hf]
        simp
      have named := (fromLast_eq_cons hf).1
      have cut : split '/' ("/".intercalate (u :: rest).reverse) = (u :: rest).reverse :=
        split_intercalate slash_toList (by simp) fun s hs =>
          noSlash_of_back hback' s (List.mem_reverse.mp hs)
      rw [← h, components_of_back hback' named cut named]

theorem above_of_parent? (h : parent? p = some q) : Above q p := by
  obtain ⟨c, hc⟩ := components_parent? h
  exact above_of_append (by simp) hc

theorem stem_subset (name : String) : ∀ c ∈ (stem name).toList, c ∈ name.toList := by
  intro c hc
  rw [stem] at hc
  split at hc
  · exact hc
  · next dot before hd =>
    split at hc
    · exact hc
    · have whole : dot :: before <:+ name.toList.reverse := hd ▸ List.dropWhile_suffix _
      have mem : c ∈ before := by simpa using hc
      exact List.mem_reverse.mp (whole.subset (List.mem_cons_of_mem _ mem))

theorem named_or_unnamed (p : String) :
    (∃ name before, backward p = name :: before ∧ name ≠ "." ∧ name ≠ "..") ∨
      ∀ name before, backward p = name :: before → name = "." ∨ name = ".." := by
  by_contra h
  obtain ⟨unnamed, h⟩ := not_or.mp h
  refine h fun name before hb => ?_
  by_contra hn
  exact unnamed ⟨name, before, hb, not_or.mp hn⟩

theorem withExtension_of_unnamed
    (h : ∀ name before, backward p = name :: before → name = "." ∨ name = "..")
    (extension : String) : withExtension p extension = p := by
  rw [withExtension]
  split
  · rfl
  · next name before hb => exact if_pos (by simpa using h name before hb)

theorem split_withExtension {name : String} {before : List String}
    (h : backward p = name :: before) (hn : name ≠ "." ∧ name ≠ "..") {extension : String}
    (hx : '/' ∉ extension.toList) :
    split '/' (withExtension p extension) =
      ((stem name ++ "." ++ extension) :: before).reverse := by
  obtain ⟨-, -, back, hback⟩ := exists_of_backward h
  have noSlash := noSlash_of_back hback
  rw [withExtension, h]
  simp only [hn.1, hn.2, decide_false, Bool.or_false, Bool.false_eq_true, if_false]
  refine split_intercalate slash_toList (by simp) fun s hs => ?_
  rcases List.mem_cons.mp (List.mem_reverse.mp hs) with rfl | hs
  · have hstem : '/' ∉ (stem name).toList := fun hc =>
      noSlash name (by simp) (stem_subset name _ hc)
    simp [hstem, hx]
  · exact noSlash s (List.mem_cons_of_mem _ hs)

theorem component?_classFile (first : Bool) (s : String) :
    component? first (s ++ "." ++ "php") = some (.name (s ++ "." ++ "php")) := by
  have long : (s ++ "." ++ "php").length = s.length + 4 := by
    rw [String.length_append, String.length_append]
    rfl
  have other {u : String} (hu : u.length < 4) : s ++ "." ++ "php" ≠ u := by
    rintro rfl
    omega
  have named : s ++ "." ++ "php" ≠ "" ∧ s ++ "." ++ "php" ≠ "." ∧ s ++ "." ++ "php" ≠ ".." :=
    ⟨other (by decide), other (by decide), other (by decide)⟩
  simp [component?, named]

theorem length_components_withExtension (p : String) :
    (components (withExtension p "php")).length = (components p).length := by
  rcases named_or_unnamed p with ⟨name, before, hb, hn⟩ | unnamed
  · obtain ⟨hne, ⟨c, hc⟩, back, hback⟩ := exists_of_backward hb
    have cut : split '/' (withExtension p "php") = ((stem name ++ "." ++ "php") :: before).reverse :=
      split_withExtension hb hn (by decide)
    rw [components_of_back hback hne cut (by simp), components_eq p, hb, componentsBack,
      componentsBack, hc, component?_classFile]
    simp
  · rw [withExtension_of_unnamed unnamed]

end Segments

end Datatypes.Path
