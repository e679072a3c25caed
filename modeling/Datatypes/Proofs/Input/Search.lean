import Mathlib.Data.String.Basic
import Datatypes.Input
import Datatypes.Proofs.FileTree.Listing
import Datatypes.Proofs.Path.Components
import Datatypes.Proofs.Text.Bytes

/-!
Searching a directory. The input files below it are found, each once and in the order of the names
and bytes of their paths, whatever the order of the entries. A path that begins with dots and then
repeats a slash leads to none of them, and those with too long a path are not found.
-/

namespace Datatypes

open FileTree (isLongPath Trail)

namespace Path

def Component.rank : Component → Nat
  | .root => 0
  | .current => 1
  | .parent => 2
  | .name _ => 3

def Component.Precedes : Component → Component → Prop
  | .name a, .name b => Text.bytes a < Text.bytes b
  | c, d => c.rank < d.rank

def Precedes (p q : String) : Prop := List.Lex Component.Precedes (components p) (components q)

theorem lex_map_name {names names' : List String} (h : List.Lex (· < ·) names names') :
    List.Lex Component.Precedes (names.map .name) (names'.map .name) := by
  induction h with
  | nil => exact .nil
  | rel h => exact .rel (Text.bytes_lt h)
  | cons h ih => exact .cons ih

theorem precedes_join {names names' : List String} (hne : names ≠ []) (hne' : names' ≠ [])
    (h : ∀ s ∈ names, IsName s) (h' : ∀ s ∈ names', IsName s)
    (hlt : List.Lex (· < ·) names names')
    (p : String) :
    Precedes (join p ("/".intercalate names)) (join p ("/".intercalate names')) := by
  rw [Precedes, components_join hne h, components_join hne' h']
  exact List.Lex.append_left _ (lex_map_name hlt) _

section Leading

variable {kept : List String}

theorem split_kept (h : ∀ s ∈ kept, s ≠ "" ∧ '/' ∉ s.toList) (hne : kept ≠ []) :
    Text.split '/' ("/".intercalate kept) = kept ∧
      ∀ s ∈ Text.split '/' ("/".intercalate kept), s ≠ "" := by
  have cut : Text.split '/' ("/".intercalate kept) = kept :=
    Text.split_intercalate slash_toList hne fun s hs => (h s hs).2
  refine ⟨cut, ?_⟩
  rw [cut]
  exact fun s hs => (h s hs).1

theorem leading_intercalate (h : ∀ s ∈ kept, s ≠ "" ∧ '/' ∉ s.toList) :
    leading ("/".intercalate kept) = kept := by
  by_cases hne : kept = []
  · rw [hne]
    rfl
  · obtain ⟨cut, filled⟩ := split_kept h hne
    rw [leading, if_neg (ne_empty_of_segments filled), base,
      if_neg (getLast?_of_segments filled), cut]

theorem leading_slash_intercalate (h : ∀ s ∈ kept, s ≠ "" ∧ '/' ∉ s.toList) :
    leading ("/" ++ "/".intercalate kept) = "" :: kept := by
  by_cases hne : kept = []
  · rw [hne]
    rfl
  · obtain ⟨cut, filled⟩ := split_kept h hne
    have last : ("/" ++ "/".intercalate kept).toList.getLast? ≠ some '/' := by
      rw [String.toList_append, List.getLast?_append_of_ne_nil _
        (mt String.toList_eq_nil_iff.mp (ne_empty_of_segments filled))]
      exact getLast?_of_segments filled
    have parts : "/" ++ "/".intercalate kept = "" ++ "/" ++ "/".intercalate kept := by simp
    rw [leading, if_neg (by simp), base, if_neg last, parts, Text.split_append slash_toList, cut]
    rfl

theorem split_slashes (p : String) (k : Nat) :
    Text.split '/' (p ++ String.ofList (List.replicate k '/')) =
      Text.split '/' p ++ List.replicate k "" := by
  induction k with
  | zero => simp
  | succ k ih =>
    have step : p ++ String.ofList (List.replicate (k + 1) '/') =
        p ++ String.ofList (List.replicate k '/') ++ "/" := by
      simp [← String.toList_inj, List.replicate_succ']
    rw [step, split_slash, ih, List.replicate_succ', List.append_assoc]

theorem split_dropTrailing (p : String) :
    ∃ k, Text.split '/' p = Text.split '/' (Text.dropTrailing '/' p) ++ List.replicate k "" := by
  obtain ⟨k, hk⟩ := Text.exists_eq_dropTrailing_append '/' p
  refine ⟨k, ?_⟩
  rw [← split_slashes, ← hk]

end Leading

end Path

namespace Input

variable {t : FileTree} {p base : String} {n : Node} {files : List String}

theorem mem_pathsFrom {places : List (List String)} :
    p ∈ pathsFrom base places ↔
      ∃ names ∈ places, Path.join base ("/".intercalate names) = p := by
  rw [pathsFrom, List.mem_map]
  simp only [(perm_sortBy placeLe places).mem_iff]

theorem unlisted?_eq_none_iff :
    unlisted? base n = none ↔ ∀ names ∈ n.directories, names ≠ [] →
      isLongPath (Path.join base ("/".intercalate names)) = false := by
  rw [unlisted?, List.find?_eq_none]
  constructor
  · intro h names hn hne
    have short := h _ (mem_pathsFrom.mpr ⟨names, by simpa using ⟨hn, hne⟩, rfl⟩)
    simpa using short
  · intro h q hq
    obtain ⟨names, hn, rfl⟩ := mem_pathsFrom.mp hq
    simp only [List.mem_filter, decide_eq_true_eq] at hn
    simp [h names hn.1 hn.2]

theorem scan_eq_ok_iff :
    scan t p = .ok files ↔ (∃ c, t.node p = .ok (.file c) ∧ files = [p]) ∨
      ∃ es base, t.node p = .ok (.directory es) ∧ base? p = some base ∧
        unlisted? base (.directory es) = none ∧ files ≠ [] ∧
        filesBelow base (.directory es) = files := by
  rw [scan]
  cases hn : t.node p with
  | error e => simp
  | ok n =>
    cases n with
    | file c => simp [eq_comm]
    | directory es =>
      cases hb : base? p with
      | none => simp
      | some base =>
        cases hu : unlisted? base (.directory es) with
        | some d => simp [hu]
        | none =>
          cases hf : filesBelow base (.directory es) with
          | nil => simp [hu, hf]
          | cons first rest =>
            simp only [hu, hf, Except.ok.injEq, Option.some.injEq, Node.directory.injEq,
              reduceCtorEq, false_and, exists_false, false_or]
            constructor
            · rintro rfl
              exact ⟨es, base, rfl, rfl, hu, by simp, hf⟩
            · rintro ⟨es', base', rfl, rfl, -, -, hf'⟩
              rw [← hf, hf']

theorem scan_of_unlisted? {es : List (String × Node)} {d : String}
    (hn : t.node p = .ok (.directory es)) (hb : base? p = some base)
    (hu : unlisted? base (.directory es) = some d) :
    scan t p = .error (.notListed d .nameTooLong) := by
  simp only [scan, hn, hb, hu]

theorem placeLe_iff {a b : List String} :
    placeLe a b = true ↔ a = b ∨ List.Lex (· < ·) a b := by
  induction a generalizing b with
  | nil => cases b <;> simp [placeLe]
  | cons x a ih =>
    cases b with
    | nil => simp [placeLe]
    | cons y b =>
      rw [placeLe, List.cons_lex_cons_iff]
      split
      · next same =>
        rw [ih]
        simp [same]
      · next other => simp [other]

theorem pairwise_sortBy_placeLe {places : List (List String)} (h : places.Nodup) :
    (sortBy placeLe places).Pairwise (List.Lex (· < ·)) := by
  have sorted : (sortBy placeLe places).Pairwise fun a b => placeLe a b = true := by
    refine pairwise_sortBy ?_ ?_ places
    · intro a b
      simp only [placeLe_iff]
      rcases trichotomous_of (List.Lex (· < · : String → String → Prop)) a b with lt | eq | gt
      · exact .inl (.inr lt)
      · exact .inl (.inl eq)
      · exact .inr (.inr gt)
    · intro a b c hab hbc
      rw [placeLe_iff] at hab hbc ⊢
      rcases hab with rfl | hab
      · exact hbc
      · rcases hbc with rfl | hbc
        · exact .inr hab
        · exact .inr (List.lt_trans hab hbc)
  have distinct := (perm_sortBy placeLe places).nodup_iff.mpr h
  exact (sorted.and distinct).imp fun ⟨le, ne⟩ => (placeLe_iff.mp le).resolve_left ne

/-- The path begins with dots before a repeated slash. -/
def Blocked (p : String) : Prop :=
  ∃ dots rest, dots ≠ [] ∧ (∀ s ∈ dots, s = ".") ∧
    Text.split '/' (Text.dropTrailing '/' p) = dots ++ "" :: rest

theorem exists_dropDots (segments : List String) :
    ∃ dots, (∀ s ∈ dots, s = ".") ∧ segments = dots ++ dropDots segments := by
  induction segments with
  | nil => exact ⟨[], by simp, rfl⟩
  | cons s segments ih =>
    rw [dropDots]
    split
    · next hs =>
      obtain ⟨dots, all, whole⟩ := ih
      exact ⟨s :: dots, List.forall_mem_cons.mpr ⟨hs, all⟩, by rw [List.cons_append, ← whole]⟩
    · exact ⟨[], by simp, rfl⟩

theorem dropDots_append {dots rest : List String} (h : ∀ s ∈ dots, s = ".") :
    dropDots (dots ++ "" :: rest) = "" :: rest := by
  induction dots with
  | nil => simp [dropDots]
  | cons s dots ih =>
    obtain ⟨hs, hdots⟩ := List.forall_mem_cons.mp h
    rw [List.cons_append, dropDots, if_pos hs, ih hdots]

theorem head_dropTrailing (hp : p ≠ "") (hr : Path.isAbsolute p = false) {rest : List String} :
    Text.split '/' (Text.dropTrailing '/' p) ≠ "" :: rest := by
  intro hs
  obtain ⟨k, hk⟩ := Path.split_dropTrailing p
  rw [hs, List.cons_append] at hk
  have whole := Text.intercalate_split Path.slash_toList p
  rw [hk] at whole
  cases hrest : rest ++ List.replicate k "" with
  | nil => exact hp (by simpa [hrest] using whole.symm)
  | cons s more =>
    rw [hrest, String.intercalate_cons_cons] at whole
    rw [← whole] at hr
    simp [Path.isAbsolute] at hr

theorem base?_eq_none_iff (hp : p ≠ "") : base? p = none ↔ Blocked p := by
  constructor
  · intro h
    unfold base? at h
    split at h
    · cases h
    · next hr =>
      dsimp only at h
      split at h
      · next rest hd =>
        obtain ⟨dots, all, whole⟩ := exists_dropDots (Text.split '/' (Text.dropTrailing '/' p))
        rw [hd] at whole
        refine ⟨dots, rest, ?_, all, whole⟩
        rintro rfl
        exact head_dropTrailing hp (by simpa using hr) whole
      · cases h
  · rintro ⟨dots, rest, hne, all, whole⟩
    have hr : Path.isAbsolute p = false := by
      by_contra ha
      obtain ⟨k, hk⟩ := Path.split_dropTrailing p
      obtain ⟨more, hs⟩ := Path.split_of_isAbsolute (by simpa using ha : Path.isAbsolute p = true)
      obtain ⟨dot, dots', rfl⟩ := List.exists_cons_of_ne_nil hne
      rw [whole, hs, List.cons_append, List.cons_append] at hk
      have first : dot = "." := all dot (by simp)
      have same : "" = dot := (List.cons.inj hk).1
      rw [first] at same
      exact absurd same (by decide)
    simp only [base?, hr, whole, dropDots_append all, Bool.false_eq_true, if_false]

def kept (p : String) : List String :=
  let segments := Text.split '/' (Text.dropTrailing '/' p)
  (if Path.isAbsolute p then segments else dropDots segments).filter (· ≠ "")

theorem kept_subset : kept p ⊆ Text.split '/' p := by
  intro s hs
  obtain ⟨k, hk⟩ := Path.split_dropTrailing p
  obtain ⟨dots, -, whole⟩ := exists_dropDots (Text.split '/' (Text.dropTrailing '/' p))
  rw [hk, List.mem_append]
  refine .inl ?_
  have member := (List.mem_filter.mp hs).1
  split at member
  · exact member
  · rw [whole, List.mem_append]
    exact .inr member

theorem leading_of_base? (h : base? p = some base) :
    Path.leading base = (if Path.isAbsolute p then [""] else []) ++ kept p := by
  have proper : ∀ s ∈ kept p, s ≠ "" ∧ '/' ∉ s.toList := fun s hs =>
    ⟨by simpa using (List.mem_filter.mp hs).2, Text.not_mem_of_mem_split (kept_subset hs)⟩
  unfold base? at h
  split at h
  · next ha =>
    have hk : kept p = (Text.split '/' (Text.dropTrailing '/' p)).filter (· ≠ "") := by
      simp only [kept, ha, if_true]
    rw [← Option.some.inj h, ← hk, Path.leading_slash_intercalate proper, if_pos ha]
    rfl
  · next ha =>
    have hk : kept p = (dropDots (Text.split '/' (Text.dropTrailing '/' p))).filter (· ≠ "") := by
      simp only [kept, ha, if_false, Bool.false_eq_true]
    dsimp only at h
    split at h
    · cases h
    · rw [← Option.some.inj h, ← hk, Path.leading_intercalate proper, if_neg ha]
      rfl

theorem walk_leading {trail : Trail} (hb : base? p = some base)
    (hw : t.walk [] (Text.split '/' p) = .ok trail) :
    t.walk [] (Path.leading base) = .ok trail := by
  obtain ⟨k, hk⟩ := Path.split_dropTrailing p
  obtain ⟨dots, all, whole⟩ := exists_dropDots (Text.split '/' (Text.dropTrailing '/' p))
  have trimmed : t.walk [] (Text.split '/' (Text.dropTrailing '/' p)) = .ok trail := by
    rw [hk] at hw
    obtain ⟨middle, front, back⟩ := FileTree.exists_of_walk_append hw
    have stays : ∀ s ∈ List.replicate k "", s = "" ∨ s = "." := fun s hs =>
      .inl (List.eq_of_mem_replicate hs)
    rw [front, FileTree.eq_of_walk_stays stays back]
  have undotted : t.walk [] (dropDots (Text.split '/' (Text.dropTrailing '/' p))) = .ok trail := by
    rw [whole] at trimmed
    obtain ⟨middle, front, back⟩ := FileTree.exists_of_walk_append trimmed
    rwa [FileTree.eq_of_walk_stays (fun s hs => .inr (all s hs)) front] at back
  have steps : t.walk [] (kept p) = .ok trail := by
    refine FileTree.walk_filter (fun s hs => .inl (by simpa using hs)) ?_
    split
    · exact trimmed
    · exact undotted
  have start : t.nodeAt [] = .directory t.entries := rfl
  rw [leading_of_base? hb]
  split
  · rw [List.singleton_append, FileTree.walk_stay start _ (.inl rfl), steps]
  · exact steps

theorem place?_join {place names : List String} (wf : t.root.WellFormed)
    (hp : t.place? p = some place) (hb : base? p = some base) (hne : names ≠ [])
    (hn : t.root.get? (place ++ names) = some n)
    (short : isLongPath (Path.join base ("/".intercalate names)) = false) :
    t.place? (Path.join base ("/".intercalate names)) = some (place ++ names) := by
  obtain ⟨fine, trail, hw, rfl⟩ := FileTree.place?_eq_some_iff.mp hp
  have named : ∀ s ∈ names, IsEntryName s := fun s hs =>
    (wf.get? hn).2 s (List.mem_append_right _ hs)
  have cut := Path.split_join hne (fun s hs => (named s hs).toIsName) base
  have noZero : Char.ofNat 0 ∉ (Path.join base ("/".intercalate names)).toList := by
    intro zero
    obtain ⟨s, hs, hin⟩ := Text.exists_mem_split zero (by decide : Char.ofNat 0 ≠ '/')
    rw [cut, leading_of_base? hb, List.mem_append, List.mem_append] at hs
    rcases hs with (hs | hs) | hs
    · have empty : s = "" := by
        split at hs
        · exact List.mem_singleton.mp hs
        · cases hs
      simp [empty] at hin
    · exact (FileTree.pathError?_eq_none_iff.mp fine).1
        (Text.mem_of_mem_split (kept_subset hs) hin).1
    · exact (named s hs).noZero hin
  have filled : Path.join base ("/".intercalate names) ≠ "" := by
    intro empty
    rw [empty] at cut
    have one : Path.leading base ++ names = [""] := cut.symm
    obtain ⟨s, hs⟩ := List.exists_mem_of_ne_nil names hne
    have member : s ∈ [""] := one ▸ List.mem_append_right _ hs
    exact (named s hs).ne_empty (List.mem_singleton.mp member)
  have lead := FileTree.Leads.nil.walk hw
  have below : (t.nodeAt trail).get? names = some n := by
    rw [FileTree.get?_append, lead.get?] at hn
    exact hn
  obtain ⟨result, walked, same⟩ := FileTree.walk_names named below
  refine FileTree.place?_eq_some_iff.mpr
    ⟨FileTree.pathError?_eq_none_iff.mpr ⟨noZero, filled, short⟩, result, ?_, same⟩
  rw [cut, FileTree.walk_append, walk_leading hb hw]
  exact walked

structure IsInput (t : FileTree) (place names : List String) : Prop where
  file : ∃ content, t.item? (place ++ names) = some (.file content)
  named : ∃ front name, names = front ++ [name] ∧ ".datatypes".toList <:+ name.toList

structure Lists (t : FileTree) (place : List String) (files : List String) : Prop where
  sound : ∀ q ∈ files, ∃ names, IsInput t place names ∧ t.place? q = some (place ++ names)
  complete : ∀ names, IsInput t place names → ∃ q ∈ files, t.place? q = some (place ++ names)
  once : files.Pairwise fun q q' => t.place? q ≠ t.place? q'
  increasing : files.Pairwise Path.Precedes

def Finds (t : FileTree) (p : String) (place : List String) : Prop :=
  (∃ files, scan t p = .ok files ∧ files ≠ [] ∧ Lists t place files) ∨
    scan t p = .error (.noInputFiles p) ∧ ∀ names, ¬ IsInput t place names

/-- No directory and no input file below the path has too long a path, as the path is spelled. -/
def Reachable (t : FileTree) (p : String) (place : List String) : Prop :=
  ∀ base, base? p = some base → ∀ names, names ≠ [] →
    t.item? (place ++ names) = some .directory ∨ IsInput t place names →
    isLongPath (Path.join base ("/".intercalate names)) = false

theorem getLast?_any_iff {names : List String} :
    names.getLast?.any isInputName = true ↔
      ∃ front name, names = front ++ [name] ∧ ".datatypes".toList <:+ name.toList := by
  rcases List.eq_nil_or_concat names with rfl | ⟨front, name, rfl⟩
  · simp
  · simp [isInputName, extension, List.isSuffixOf_iff_suffix]

section Search

variable {place names : List String} {es : List (String × Node)}

theorem IsInput.ne_nil (h : IsInput t place names) : names ≠ [] := by
  obtain ⟨front, name, rfl, -⟩ := h.named
  simp

theorem IsInput.place?_join (h : IsInput t place names) (wf : t.root.WellFormed)
    (hp : t.place? p = some place) (hb : base? p = some base)
    (short : isLongPath (Path.join base ("/".intercalate names)) = false) :
    t.place? (Path.join base ("/".intercalate names)) = some (place ++ names) := by
  obtain ⟨c, hc⟩ := h.file
  exact Input.place?_join wf hp hb h.ne_nil (FileTree.item?_eq_file_iff.mp hc) short

theorem IsInput.isName (h : IsInput t place names) (wf : t.root.WellFormed) :
    ∀ s ∈ names, Path.IsName s := by
  obtain ⟨c, hc⟩ := h.file
  intro s hs
  exact ((wf.get? (FileTree.item?_eq_file_iff.mp hc)).2 s (List.mem_append_right _ hs)).toIsName

variable (hes : t.root.get? place = some (.directory es))

include hes

theorem item?_below (names : List String) :
    t.item? (place ++ names) = ((Node.directory es).get? names).map Node.item := by
  rw [FileTree.item?, FileTree.get?_append, hes, Option.bind_some]

variable (wf : t.root.WellFormed)

include wf

theorem mem_inputs_iff :
    names ∈ (Node.directory es).files.filter (fun ns => ns.getLast?.any isInputName) ↔
      IsInput t place names := by
  have formed := (wf.get? hes).1
  rw [List.mem_filter, Node.mem_files_iff formed, getLast?_any_iff]
  constructor
  · rintro ⟨⟨c, hc⟩, named⟩
    refine ⟨⟨c, ?_⟩, named⟩
    rw [item?_below hes, hc]
    rfl
  · rintro ⟨⟨c, hc⟩, named⟩
    rw [FileTree.item?_eq_file_iff, FileTree.get?_append, hes, Option.bind_some] at hc
    exact ⟨⟨c, hc⟩, named⟩

theorem mem_filesBelow_iff {q : String} :
    q ∈ filesBelow base (.directory es) ↔
      ∃ names, IsInput t place names ∧ Path.join base ("/".intercalate names) = q ∧
        isLongPath q = false := by
  rw [filesBelow, List.mem_filter, mem_pathsFrom]
  simp only [mem_inputs_iff hes wf, Bool.not_eq_true']
  constructor
  · rintro ⟨⟨names, input, hq⟩, short⟩
    exact ⟨names, input, hq, short⟩
  · rintro ⟨names, input, hq, short⟩
    exact ⟨⟨names, input, hq⟩, short⟩

theorem unlisted?_eq_none_iff_item? :
    unlisted? base (.directory es) = none ↔ ∀ names, names ≠ [] →
      t.item? (place ++ names) = some .directory →
      isLongPath (Path.join base ("/".intercalate names)) = false := by
  have formed := (wf.get? hes).1
  have listed (names : List String) : names ∈ (Node.directory es).directories ↔
      t.item? (place ++ names) = some .directory := by
    rw [Node.mem_directories_iff formed, FileTree.item?_eq_directory_iff, FileTree.get?_append,
      hes, Option.bind_some]
  rw [unlisted?_eq_none_iff]
  simp only [listed]
  exact ⟨fun h names hne hd => h names hd hne, fun h names hd hne => h names hne hd⟩

theorem reachable_iff (hb : base? p = some base) :
    Reachable t p place ↔ unlisted? base (.directory es) = none ∧
      ∀ names, IsInput t place names →
        isLongPath (Path.join base ("/".intercalate names)) = false := by
  rw [Reachable, hb, unlisted?_eq_none_iff_item? hes wf]
  constructor
  · intro h
    exact ⟨fun names hne hdir => h base rfl names hne (.inl hdir),
      fun names input => h base rfl names input.ne_nil (.inr input)⟩
  · rintro ⟨hdirs, hfiles⟩ base' ⟨⟩ names hne (hdir | input)
    · exact hdirs names hne hdir
    · exact hfiles names input

variable (hp : t.place? p = some place) (hb : base? p = some base)

include hp hb

theorem pairwise_filesBelow :
    (filesBelow base (.directory es)).Pairwise fun q q' =>
      t.place? q ≠ t.place? q' ∧ Path.Precedes q q' := by
  have formed := (wf.get? hes).1
  have distinct := (Node.nodup_files formed).filter fun ns => ns.getLast?.any isInputName
  have sorted := (pairwise_sortBy_placeLe distinct).and
    ((perm_sortBy placeLe _).nodup_iff.mpr distinct)
  -- The paths that are left out for their length cannot be followed, so they are put aside first.
  rw [filesBelow, pathsFrom, List.pairwise_filter, List.pairwise_map]
  refine sorted.imp_of_mem fun {names names'} h h' ⟨before, ne⟩ short short' => ?_
  have input := (mem_inputs_iff hes wf).mp ((perm_sortBy placeLe _).mem_iff.mp h)
  have input' := (mem_inputs_iff hes wf).mp ((perm_sortBy placeLe _).mem_iff.mp h')
  constructor
  · rw [input.place?_join wf hp hb (by simpa using short),
      input'.place?_join wf hp hb (by simpa using short')]
    simpa using ne
  · exact Path.precedes_join input.ne_nil input'.ne_nil (input.isName wf) (input'.isName wf)
      before base

theorem lists_filesBelow_iff :
    Lists t place (filesBelow base (.directory es)) ↔ ∀ names, IsInput t place names →
      isLongPath (Path.join base ("/".intercalate names)) = false := by
  have ordered := pairwise_filesBelow hes wf hp hb
  constructor
  · intro h names input
    obtain ⟨q, hq, leads⟩ := h.complete names input
    obtain ⟨names', input', rfl, short⟩ := (mem_filesBelow_iff hes wf).mp hq
    rw [input'.place?_join wf hp hb short] at leads
    obtain rfl : names' = names := by simpa using leads
    exact short
  · intro h
    refine ⟨?_, ?_, ordered.imp And.left, ordered.imp And.right⟩
    · intro q hq
      obtain ⟨names, input, rfl, short⟩ := (mem_filesBelow_iff hes wf).mp hq
      exact ⟨names, input, input.place?_join wf hp hb short⟩
    · intro names input
      exact ⟨_, (mem_filesBelow_iff hes wf).mpr ⟨names, input, rfl, h names input⟩,
        input.place?_join wf hp hb (h names input)⟩

end Search

theorem lists_nil_iff {place : List String} :
    Lists t place [] ↔ ∀ names, ¬ IsInput t place names := by
  constructor
  · intro h names input
    obtain ⟨q, hq, -⟩ := h.complete names input
    cases hq
  · intro h
    exact ⟨by simp, fun names input => absurd input (h names), .nil, .nil⟩

theorem finds_iff_lists {place : List String} {es : List (String × Node)}
    (hn : t.node p = .ok (.directory es)) (hb : base? p = some base)
    (hu : unlisted? base (.directory es) = none) :
    Finds t p place ↔ Lists t place (filesBelow base (.directory es)) := by
  cases hf : filesBelow base (.directory es) with
  | nil =>
    have scanned : scan t p = .error (.noInputFiles p) := by simp only [scan, hn, hb, hu, hf]
    rw [Finds, scanned, lists_nil_iff]
    simp
  | cons first rest =>
    have scanned : scan t p = .ok (first :: rest) := by simp only [scan, hn, hb, hu, hf]
    rw [Finds, scanned]
    simp

/-- Exactly the input files below a directory are found, each once and in order, unless the path
leads to none of them or something below it has too long a path. -/
theorem finds_iff {place : List String} (wf : t.root.WellFormed) (hp : t.place? p = some place)
    (hd : t.item? place = some .directory) :
    Finds t p place ↔
      (Blocked p → ∀ names, ¬ IsInput t place names) ∧ Reachable t p place := by
  obtain ⟨es, hes⟩ := FileTree.item?_eq_directory_iff.mp hd
  obtain ⟨fine, trail, hw, rfl⟩ := FileTree.place?_eq_some_iff.mp hp
  have node : t.node p = .ok (.directory es) := by
    refine FileTree.node_eq_ok_iff.mpr ⟨fine, trail, hw, ?_⟩
    simpa [(FileTree.Leads.nil.walk hw).get?] using hes
  have blocked := base?_eq_none_iff (FileTree.pathError?_eq_none_iff.mp fine).2.1
  cases hb : base? p with
  | none =>
    have scanned : scan t p = .error (.noInputFiles p) := by simp only [scan, node, hb]
    rw [Finds, scanned, Reachable, hb]
    simp [blocked.mp hb]
  | some base =>
    have open_ : ¬ Blocked p := by simp [← blocked, hb]
    rw [reachable_iff hes wf hb, ← lists_filesBelow_iff hes wf hp hb]
    cases hu : unlisted? base (.directory es) with
    | some d =>
      rw [Finds, scan_of_unlisted? node hb hu]
      simp
    | none => simp [open_, finds_iff_lists node hb hu]

def innerInput : List (String × Node) := [("x.datatypes", .file .empty), ("y.php", .file .empty)]

def nestedInput : List (String × Node) :=
  [("z.datatypes", .file .empty), ("b.datatypes", .directory innerInput),
    (".datatypes", .file .empty)]

def nestedTree : FileTree := ⟨[("in", .directory nestedInput)]⟩

theorem wellFormed_nestedTree : nestedTree.root.WellFormed := by
  have inner : (Node.directory innerInput).WellFormed := by
    refine .directory (by decide) ?_ (by simp [innerInput, Node.WellFormed.file])
    simp only [innerInput, List.forall_mem_cons]
    decide
  have outer : (Node.directory nestedInput).WellFormed := by
    refine .directory (by decide) ?_ (by simp [nestedInput, Node.WellFormed.file, inner])
    simp only [nestedInput, List.forall_mem_cons]
    decide
  refine .directory (by decide) ?_ (by simp [nestedTree, outer])
  simp only [nestedTree, List.forall_mem_cons]
  decide

theorem finds_iff_nestedTree :
    scan nestedTree "./in/" =
        .ok ["in/.datatypes", "in/b.datatypes/x.datatypes", "in/z.datatypes"] ∧
      Finds nestedTree "./in/" ["in"] := by
  have hes : nestedTree.root.get? ["in"] = some (.directory nestedInput) := rfl
  have hb : base? "./in/" = some "in" := rfl
  have clear : ¬ Blocked "./in/" := by simp [← base?_eq_none_iff, hb]
  have reached : Reachable nestedTree "./in/" ["in"] := by
    refine (reachable_iff hes wellFormed_nestedTree hb).mpr ⟨rfl, fun names input => ?_⟩
    have listed := (mem_inputs_iff hes wellFormed_nestedTree).mpr input
    have places : (Node.directory nestedInput).files.filter
        (fun ns => ns.getLast?.any isInputName) =
        [["z.datatypes"], ["b.datatypes", "x.datatypes"], [".datatypes"]] := rfl
    rw [places] at listed
    simp only [List.mem_cons, List.not_mem_nil, or_false] at listed
    rcases listed with rfl | rfl | rfl <;> rfl
  exact ⟨rfl, (finds_iff wellFormed_nestedTree rfl rfl).mpr ⟨fun h => absurd h clear, reached⟩⟩

def dottedTree : FileTree := ⟨[("a", .directory [("x.datatypes", .file .empty)])]⟩

theorem not_finds_dotted :
    dottedTree.place? ".//a" = some ["a"] ∧ dottedTree.item? ["a"] = some .directory ∧
      IsInput dottedTree ["a"] ["x.datatypes"] ∧
      scan dottedTree ".//a" = .error (.noInputFiles ".//a") ∧ ¬ Finds dottedTree ".//a" ["a"] := by
  have input : IsInput dottedTree ["a"] ["x.datatypes"] :=
    ⟨⟨.empty, rfl⟩, [], "x.datatypes", rfl, by decide⟩
  have scanned : scan dottedTree ".//a" = .error (.noInputFiles ".//a") := rfl
  refine ⟨rfl, rfl, input, scanned, ?_⟩
  rintro (⟨files, found, -⟩ | ⟨-, none⟩)
  · rw [scanned] at found
    cases found
  · exact none _ input

end Input

end Datatypes
