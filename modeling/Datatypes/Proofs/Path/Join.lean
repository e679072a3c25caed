import Mathlib.Data.List.TakeWhile
import Datatypes.Autoload
import Datatypes.Proofs.Text.Segments

/-!
Joining paths. Whatever path it starts from, joining names adds exactly these names to what the
path goes through, and an extension changes only the last one.
-/

namespace Datatypes.Path

open Text

structure IsName (s : String) : Prop where
  ne_empty : s ≠ ""
  ne_current : s ≠ "."
  ne_parent : s ≠ ".."
  noSlash : '/' ∉ s.toList

def base (p : String) : String :=
  if p.toList.getLast? = some '/' then String.ofList p.toList.dropLast else p

theorem slash_toList : "/".toList = ['/'] := rfl

theorem base_append_slash {p : String} (h : p.toList.getLast? = some '/') : base p ++ "/" = p := by
  obtain ⟨cs, hcs⟩ := List.getLast?_eq_some_iff.mp h
  rw [base, if_pos h, hcs, List.dropLast_concat, ← String.toList_inj, String.toList_append,
    String.toList_ofList, slash_toList, hcs]

theorem join_of_ne_empty {p q : String} (hp : p ≠ "") (hq : isAbsolute q = false) :
    join p q = base p ++ "/" ++ q := by
  by_cases hs : p.toList.getLast? = some '/'
  · rw [base_append_slash hs]
    simp [join, hq, hs]
  · simp [join, base, hq, hs, hp]

theorem join_empty (q : String) : join "" q = q := by
  rw [join]
  split
  · rfl
  · simp

theorem suffix_join (p q : String) : q.toList <:+ (join p q).toList := by
  rw [join]
  split
  · exact List.suffix_refl _
  · split
    · rw [String.toList_append]
      exact List.suffix_append _ _
    · rw [String.toList_append]
      exact List.suffix_append _ _

theorem isAbsolute_append {p : String} (hp : p ≠ "") (q : String) :
    isAbsolute (p ++ q) = isAbsolute p := by
  obtain ⟨c, cs, hcs⟩ := List.exists_cons_of_ne_nil (by simpa using hp : p.toList ≠ [])
  simp [isAbsolute, hcs]

theorem isAbsolute_of_noSlash {s : String} (hne : s ≠ "") (h : '/' ∉ s.toList) (q : String) :
    isAbsolute (s ++ q) = false := by
  rw [isAbsolute_append hne]
  obtain ⟨c, cs, hcs⟩ := List.exists_cons_of_ne_nil (by simpa using hne : s.toList ≠ [])
  simp only [hcs, List.mem_cons, not_or] at h
  simpa [isAbsolute, hcs] using fun hc => h.1 hc.symm

theorem IsName.isAbsolute_append {s : String} (h : IsName s) (q : String) :
    isAbsolute (s ++ q) = false :=
  isAbsolute_of_noSlash h.ne_empty h.noSlash q

theorem IsName.base_append {s : String} (h : IsName s) (p : String) : base (p ++ s) = p ++ s := by
  rw [base, if_neg]
  intro hlast
  rcases List.eq_nil_or_concat s.toList with hs | ⟨cs, c, hs⟩
  · exact h.ne_empty (by simpa using hs)
  · have last : c = '/' := by simpa [hs] using hlast
    exact h.noSlash (by simp [hs, last])

theorem join_join {s : String} (h : IsName s) (p : String) {q : String}
    (hq : isAbsolute q = false) : join (join p s) q = join p (s ++ "/" ++ q) := by
  have relative : isAbsolute s = false := by simpa using h.isAbsolute_append ""
  have longer : isAbsolute (s ++ "/" ++ q) = false := by
    rw [String.append_assoc]
    exact h.isAbsolute_append _
  by_cases hp : p = ""
  · rw [hp, join_empty, join_empty, join_of_ne_empty h.ne_empty hq]
    simpa using congrArg (· ++ "/" ++ q) (h.base_append "")
  · have named : base p ++ "/" ++ s ≠ "" := by simp
    rw [join_of_ne_empty hp relative, join_of_ne_empty hp longer, join_of_ne_empty named hq,
      h.base_append]
    simp only [String.append_assoc]

section Names

variable {names : List String}

theorem isAbsolute_intercalate (h : ∀ s ∈ names, IsName s) :
    isAbsolute ("/".intercalate names) = false := by
  match names with
  | [] => rfl
  | [s] => simpa using (h s (by simp)).isAbsolute_append ""
  | s :: u :: rest =>
    rw [String.intercalate_cons_cons, String.append_assoc]
    exact (h s (by simp)).isAbsolute_append _

theorem foldl_join (hne : names ≠ []) (h : ∀ s ∈ names, IsName s) (p : String) :
    names.foldl join p = join p ("/".intercalate names) := by
  induction names generalizing p with
  | nil => exact absurd rfl hne
  | cons s names ih =>
    cases names with
    | nil => simp
    | cons u rest =>
      have further : ∀ x ∈ u :: rest, IsName x := fun x hx => h x (List.mem_cons_of_mem _ hx)
      rw [List.foldl_cons, ih (by simp) further, String.intercalate_cons_cons,
        join_join (h s (by simp)) p (isAbsolute_intercalate further)]

def leading (p : String) : List String := if p = "" then [] else split '/' (base p)

theorem split_join (hne : names ≠ []) (h : ∀ s ∈ names, IsName s) (p : String) :
    split '/' (join p ("/".intercalate names)) = leading p ++ names := by
  have cut : split '/' ("/".intercalate names) = names :=
    split_intercalate slash_toList hne fun s hs => (h s hs).noSlash
  rw [leading]
  split
  · next hp => rw [hp, join_empty, cut, List.nil_append]
  · next hp =>
    rw [join_of_ne_empty hp (isAbsolute_intercalate h), split_append slash_toList, cut]

theorem stem_of_noDot {s : String} (h : '.' ∉ s.toList) : stem s = s := by
  have none_left : s.toList.reverse.dropWhile (· ≠ '.') = [] := by
    rw [List.dropWhile_eq_nil_iff]
    intro c hc
    have : c ≠ '.' := by
      rintro rfl
      exact h (List.mem_reverse.mp hc)
    simpa using this
  rw [stem, none_left]

theorem withExtension_join {before : List String} {last : String}
    (h : ∀ s ∈ before ++ [last], IsName s) (hdot : '.' ∉ last.toList) {extension : String}
    (hx : IsName (last ++ "." ++ extension)) (p : String) :
    withExtension (join p ("/".intercalate (before ++ [last]))) extension =
      join p ("/".intercalate (before ++ [last ++ "." ++ extension])) := by
  have name := h last (by simp)
  have renamed : ∀ s ∈ before ++ [last ++ "." ++ extension], IsName s := by
    intro s hs
    rcases List.mem_append.mp hs with hs | hs
    · exact h s (List.mem_append_left _ hs)
    · rwa [List.mem_singleton.mp hs]
  have back : backward (join p ("/".intercalate (before ++ [last]))) =
      last :: (leading p ++ before).reverse := by
    rw [backward, split_join (by simp) h, ← List.append_assoc, List.reverse_append,
      List.reverse_singleton, List.singleton_append, fromLast]
    simp [name.ne_empty, name.ne_current]
  have front := intercalate_split slash_toList
    (join p ("/".intercalate (before ++ [last ++ "." ++ extension])))
  rw [split_join (by simp) renamed] at front
  rw [withExtension, back]
  simp only [name.ne_current, name.ne_parent, decide_false, Bool.or_false, Bool.false_eq_true,
    if_false, stem_of_noDot hdot]
  rw [← front, List.reverse_cons, List.reverse_reverse, List.append_assoc]

end Names

section Components

theorem filterMap_component {names : List String} (h : ∀ s ∈ names, IsName s) (first : Bool) :
    names.filterMap (component? first) = names.map .name := by
  induction names with
  | nil => rfl
  | cons s names ih =>
    have name := h s (by simp)
    have named : component? first s = some (.name s) := by
      simp [component?, name.ne_empty, name.ne_current, name.ne_parent]
    rw [List.filterMap_cons, named, List.map_cons, ih fun x hx => h x (List.mem_cons_of_mem _ hx)]

theorem filterMap_empty : [""].filterMap (component? false) = [] := rfl

theorem split_slash (p : String) : split '/' (p ++ "/") = split '/' p ++ [""] := by
  have cut := split_append slash_toList p ""
  rwa [String.append_empty] at cut

theorem components_slash (p q : String) :
    components (p ++ "/" ++ q) =
      components (p ++ "/") ++ (split '/' q).filterMap (component? false) := by
  have absolute : isAbsolute (p ++ "/" ++ q) = isAbsolute (p ++ "/") :=
    isAbsolute_append (by simp) q
  obtain ⟨s, rest, hs⟩ := List.exists_cons_of_ne_nil (split_ne_nil '/' p)
  simp only [components, absolute, split_slash, split_append slash_toList, hs, List.cons_append,
    List.drop_succ_cons, List.drop_zero, List.take_succ_cons, List.take_zero,
    List.filterMap_append]
  rw [filterMap_empty, List.append_nil]
  split <;> simp

theorem components_base {p : String} (hp : p ≠ "") : components (base p ++ "/") = components p := by
  by_cases hs : p.toList.getLast? = some '/'
  · rw [base_append_slash hs]
  · obtain ⟨s, rest, hs'⟩ := List.exists_cons_of_ne_nil (split_ne_nil '/' p)
    rw [base, if_neg hs]
    simp only [components, isAbsolute_append hp, split_slash, hs', List.cons_append,
      List.drop_succ_cons, List.drop_zero, List.take_succ_cons, List.take_zero,
      List.filterMap_append, filterMap_empty, List.append_nil]

theorem components_join {names : List String} (hne : names ≠ []) (h : ∀ s ∈ names, IsName s)
    (p : String) :
    components (join p ("/".intercalate names)) = components p ++ names.map .name := by
  have relative := isAbsolute_intercalate h
  have cut : split '/' ("/".intercalate names) = names :=
    split_intercalate slash_toList hne fun s hs => (h s hs).noSlash
  by_cases hp : p = ""
  · have empty : components "" = [] := rfl
    rw [hp, join_empty, empty, List.nil_append, components, relative, cut]
    simp only [Bool.false_eq_true, if_false]
    rw [filterMap_component fun s hs => h s (List.mem_of_mem_take hs),
      filterMap_component fun s hs => h s (List.mem_of_mem_drop hs), ← List.map_append,
      List.take_append_drop]
  · rw [join_of_ne_empty hp relative, components_slash, components_base hp, cut,
      filterMap_component h]

end Components

section Segments

variable {p : String} (h : ∀ s ∈ split '/' p, s ≠ "")

include h

theorem ne_empty_of_segments : p ≠ "" := by
  rintro rfl
  exact h "" (by simp [split]) rfl

theorem isAbsolute_of_segments : isAbsolute p = false := by
  rw [isAbsolute, decide_eq_false_iff_not, List.head?_eq_some_iff]
  rintro ⟨cs, hcs⟩
  have parts : p = "" ++ "/" ++ String.ofList cs := by simp [← String.toList_inj, hcs]
  refine h "" ?_ rfl
  rw [parts, split_append rfl, List.mem_append]
  exact .inl (by simp [split])

theorem getLast?_of_segments : p.toList.getLast? ≠ some '/' := by
  intro hl
  refine h "" ?_ rfl
  rw [← base_append_slash hl, split_slash]
  simp

theorem join_of_segments {q : String} (hq : isAbsolute q = false) :
    join p q = p ++ "/" ++ q := by
  simp [join, hq, ne_empty_of_segments h, getLast?_of_segments h]

theorem dropTrailing_of_segments : dropTrailing '/' p = p := by
  have last := getLast?_of_segments h
  rw [List.getLast?_eq_head?_reverse] at last
  have kept : p.toList.reverse.dropWhile (· = '/') = p.toList.reverse := by
    cases hr : p.toList.reverse with
    | nil => rfl
    | cons c cs =>
      have hc : c ≠ '/' := by
        rintro rfl
        simp [hr] at last
      simp [hc]
  rw [dropTrailing, kept, List.reverse_reverse, String.ofList_toList]

end Segments

end Datatypes.Path
