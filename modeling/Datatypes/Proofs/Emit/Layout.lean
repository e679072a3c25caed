import Datatypes.Proofs.Declaration.Shape
import Datatypes.Proofs.Path.Components
import Datatypes.Proofs.Traversal

/-!
The files of classes below a directory. The segments of a class name are the names on the way to
its file, so that no two classes share a file, no file stands where another one needs a
directory, and a class is overwritten exactly where a warning says so.
-/

namespace Datatypes

open Text Datatypes.Path

def classFile (root class_ : String) : String :=
  join root ("/".intercalate (split '\\' class_) ++ ".php")

section Parts

structure IsPart (s : String) : Prop where
  ne_empty : s ≠ ""
  wordChar : ∀ c ∈ s.toList, isWordChar c = true

theorem isPart_of_isWord {w : String} (h : isWord w = true) : IsPart w := by
  refine ⟨?_, isWordChar_of_mem h⟩
  rintro rfl
  simp [isWord] at h

namespace IsPart

variable {s : String} (h : IsPart s)

include h

theorem not_mem {c : Char} (hc : isWordChar c = false) : c ∉ s.toList := by
  intro hmem
  rw [h.wordChar c hmem] at hc
  cases hc

theorem noDot : '.' ∉ s.toList := h.not_mem (by decide)

theorem isName : IsName s where
  ne_empty := h.ne_empty
  ne_current := by
    rintro rfl
    exact h.noDot (by simp)
  ne_parent := by
    rintro rfl
    exact h.noDot (by simp)
  noSlash := h.not_mem (by decide)

theorem isName_file : IsName (s ++ ".php") where
  ne_empty := by simp
  ne_current := by
    intro he
    simpa using congrArg (·.toList.length) he
  ne_parent := by
    intro he
    simpa using congrArg (·.toList.length) he
  noSlash := by simpa using h.isName.noSlash

end IsPart

section Names

variable {before : List String} {last : String} (h : ∀ s ∈ before ++ [last], IsPart s)

include h

theorem isName_concat : ∀ s ∈ before ++ [last ++ ".php"], IsName s := by
  intro s hs
  rcases List.mem_append.mp hs with hs | hs
  · exact (h s (List.mem_append_left _ hs)).isName
  · rw [List.mem_singleton.mp hs]
    exact (h last (by simp)).isName_file

theorem withExtension_parts (root : String) :
    withExtension ((before ++ [last]).foldl join root) "php" =
      join root ("/".intercalate (before ++ [last ++ ".php"])) := by
  have names : ∀ s ∈ before ++ [last], IsName s := fun s hs => (h s hs).isName
  have extension : last ++ "." ++ "php" = last ++ ".php" := String.append_assoc
  have part := h last (by simp)
  rw [foldl_join (by simp) names,
    withExtension_join names part.noDot (extension ▸ part.isName_file), extension]

end Names

end Parts

section ClassFile

variable {class_ : String}

theorem separator_toList : "\\".toList = ['\\'] := rfl

theorem split_of_isPath (h : IsPath class_) :
    ∃ before last, split '\\' class_ = before ++ [last] ∧
      ∀ w ∈ before ++ [last], isWord w = true := by
  obtain ⟨words, hne, hall, rfl⟩ := h
  have cut : split '\\' (Declaration.Reference.spelling words) = words :=
    split_intercalate separator_toList hne fun w hw =>
      (isPart_of_isWord (hall w hw)).not_mem (by decide)
  rcases List.eq_nil_or_concat' words with rfl | ⟨before, last, rfl⟩
  · exact absurd rfl hne
  · exact ⟨before, last, cut, hall⟩

theorem intercalate_concat_append (before : List String) (last more : String) :
    "/".intercalate (before ++ [last]) ++ more = "/".intercalate (before ++ [last ++ more]) := by
  cases before with
  | nil => simp
  | cons s before =>
    rw [String.intercalate_append_of_ne_nil (by simp) (by simp),
      String.intercalate_append_of_ne_nil (by simp) (by simp), String.intercalate_singleton,
      String.intercalate_singleton, String.append_assoc]

theorem classFile_eq {before : List String} {last : String}
    (h : split '\\' class_ = before ++ [last]) (root : String) :
    classFile root class_ = join root ("/".intercalate (before ++ [last ++ ".php"])) := by
  rw [classFile, h, intercalate_concat_append]

theorem pathBelow_words {before : List String} {last : String}
    (h : ∀ w ∈ before ++ [last], isWord w = true) (root : String) :
    Autoload.pathBelow root (before ++ [last]) =
      join root ("/".intercalate (before ++ [last ++ ".php"])) := by
  have parts : ∀ s ∈ before ++ [last], IsPart s := fun s hs => isPart_of_isWord (h s hs)
  have kept : (before ++ [last]).filter (· ≠ "") = before ++ [last] :=
    List.filter_eq_self.mpr fun s hs => by simpa using (parts s hs).ne_empty
  rw [Autoload.pathBelow, kept, withExtension_parts parts]

theorem resolve_below (h : IsPath class_) (root : String) :
    (Resolver.below root).resolve class_ = .ok (classFile root class_) := by
  obtain ⟨before, last, hs, hall⟩ := split_of_isPath h
  simp only [Resolver.resolve, dropLeading_of_isPath h, Resolver.path?, if_neg h.ne_empty]
  rw [hs, pathBelow_words hall, classFile_eq hs]

theorem components_classFile (h : IsPath class_) :
    ∃ before last, split '\\' class_ = before ++ [last] ∧
      (∀ w ∈ before ++ [last], isWord w = true) ∧ ∀ root, components (classFile root class_) =
        components root ++ (before ++ [last ++ ".php"]).map .name := by
  obtain ⟨before, last, hs, hall⟩ := split_of_isPath h
  refine ⟨before, last, hs, hall, fun root => ?_⟩
  have parts := isName_concat fun s hs => isPart_of_isWord (hall s hs)
  rw [classFile_eq hs, components_join (by simp) parts]

variable {other : String}

theorem components_classFile_inj (h : IsPath class_) (ho : IsPath other) (root : String) :
    components (classFile root class_) = components (classFile root other) ↔ class_ = other := by
  refine ⟨fun heq => ?_, fun heq => by rw [heq]⟩
  obtain ⟨before, last, hs, -, hc⟩ := components_classFile h
  obtain ⟨before', last', hs', -, hc'⟩ := components_classFile ho
  rw [hc, hc', List.append_cancel_left_eq] at heq
  have names : before ++ [last ++ ".php"] = before' ++ [last' ++ ".php"] :=
    List.map_injective_iff.mpr (fun _ _ h => Component.name.inj h) heq
  obtain ⟨rfl, hlast⟩ := List.append_inj' names rfl
  have same : last = last' := by simpa using hlast
  rw [← intercalate_split separator_toList class_, ← intercalate_split separator_toList other, hs,
    hs', same]

theorem classFile_inj (h : IsPath class_) (ho : IsPath other) (root : String) :
    classFile root class_ = classFile root other ↔ class_ = other :=
  ⟨fun heq => (components_classFile_inj h ho root).mp (by rw [heq]), fun heq => by rw [heq]⟩

theorem above_classFile (h : IsPath class_) (root : String) :
    Above root (classFile root class_) := by
  obtain ⟨before, last, -, -, hc⟩ := components_classFile h
  exact above_of_append (by simp) (hc root)

theorem not_above_classFile (h : IsPath class_) (ho : IsPath other) (root : String) :
    ¬ Above (classFile root class_) (classFile root other) := by
  rintro ⟨hfront, hne⟩
  obtain ⟨before, last, -, -, hc⟩ := components_classFile h
  obtain ⟨before', last', -, hall', hc'⟩ := components_classFile ho
  rw [hc, hc'] at hfront hne
  have last_name : (before' ++ [last' ++ ".php"]).map Component.name =
      before'.map .name ++ [.name (last' ++ ".php")] := by simp
  rw [List.prefix_append_right_inj, last_name, List.prefix_concat_iff] at hfront
  -- Unless the two are one, the file of the first is a directory on the way to the second.
  have inner := hfront.resolve_left fun heq => hne (by rw [heq, last_name])
  have member : Component.name (last ++ ".php") ∈ before'.map .name :=
    inner.subset (List.mem_map_of_mem (List.mem_append_right before List.mem_cons_self))
  obtain ⟨w, hw, heq⟩ := List.mem_map.mp member
  rw [Component.name.inj heq] at hw
  exact (isPart_of_isWord (hall' _ (List.mem_append_left _ hw))).noDot (by simp)

end ClassFile

namespace Class

theorem className_of_generate {r : Registry} {d : Definition} {unit : SourceUnit}
    (h : generate r d = .ok unit) : unit.className = d.qualifiedName := by
  rw [generate] at h
  split at h
  · cases h
  · rw [assemble] at h
    split at h
    · cases h
    · cases h
      rfl

theorem classNames_of_generateList {r : Registry} {ds : List Definition}
    {units : List SourceUnit} (h : generateList r ds = .ok units) :
    units.map (·.className) = ds.map (·.qualifiedName) := by
  rw [generateList_eq_mapM, mapM_eq_ok_iff] at h
  induction h with
  | nil => rfl
  | cons head _ ih => rw [List.map_cons, List.map_cons, className_of_generate head, ih]

def origins (collections : List Collection) : List Duplicate :=
  collections.flatMap fun c => c.definitions.map fun d => ⟨d.qualifiedName, c.file⟩

def repeated (seen names : List String) (k : Nat) : Bool :=
  names[k]?.any fun name => decide (name ∈ seen ++ names.take k)

theorem repeated_succ {seen seen' names : List String} {name : String}
    (h : ∀ x, x ∈ seen' ↔ x = name ∨ x ∈ seen) :
    (repeated seen (name :: names) ∘ Nat.succ) = repeated seen' names := by
  funext k
  simp only [repeated, Function.comp, List.getElem?_cons_succ, List.take_succ_cons]
  congr 1
  funext x
  simp only [List.mem_append, List.mem_cons, h, decide_eq_decide]
  tauto

theorem duplicates_positions (seen : List String) (entries : List (String × String)) :
    (duplicates seen entries).map some =
      ((List.range entries.length).filter (repeated seen (entries.map Prod.fst))).map
        fun k => (entries.map fun e => Duplicate.mk e.1 e.2)[k]? := by
  induction entries generalizing seen with
  | nil => rfl
  | cons e entries ih =>
    obtain ⟨name, file⟩ := e
    have first : repeated seen (name :: entries.map Prod.fst) 0 = seen.contains name := by
      simp [repeated]
    simp only [duplicates, List.length_cons, List.range_succ_eq_map, List.map_cons,
      List.filter_cons, first, List.filter_map]
    split
    · next hseen =>
      have known : ∀ x, x ∈ seen ↔ x = name ∨ x ∈ seen := by
        intro x
        refine ⟨.inr, ?_⟩
        rintro (rfl | hx)
        · simpa using hseen
        · exact hx
      rw [repeated_succ known, List.map_cons, List.map_cons, ih]
      simp [Function.comp_def]
    · have known : ∀ x, x ∈ name :: seen ↔ x = name ∨ x ∈ seen := by simp
      rw [repeated_succ known, ih]
      simp [Function.comp_def]

theorem repeated_nil_iff {names : List String} {k : Nat} :
    repeated [] names k = true ↔
      ∃ j < k, ∃ name, names[j]? = some name ∧ names[k]? = some name := by
  simp only [repeated, Option.any_eq_true, List.nil_append, decide_eq_true_eq]
  constructor
  · rintro ⟨name, hk, hmem⟩
    obtain ⟨j, hj, hname⟩ := List.mem_take_iff_getElem.mp hmem
    exact ⟨j, by omega, name, by simp [← hname], hk⟩
  · rintro ⟨j, hj, name, hname, hk⟩
    obtain ⟨hlen, rfl⟩ := List.getElem?_eq_some_iff.mp hname
    exact ⟨_, hk, List.mem_take_iff_getElem.mpr ⟨j, by omega, rfl⟩⟩

section All

variable {r : Registry} {collections : List Collection} {units : List SourceUnit}
  {warnings : List Duplicate}

theorem generateAll_eq_ok
    (h : generateAll r collections = .ok (units, warnings)) :
    generateList r (collections.flatMap (·.definitions)) = .ok units ∧
      warnings = duplicates [] ((origins collections).map fun o => (o.className, o.file)) := by
  rw [generateAll] at h
  split at h
  · cases h
  · next units hu =>
    cases h
    exact ⟨hu, by simp [origins, List.map_flatMap, Function.comp_def]⟩

theorem classNames_of_generateAll
    (h : generateAll r collections = .ok (units, warnings)) :
    units.map (·.className) = (origins collections).map (·.className) := by
  rw [classNames_of_generateList (generateAll_eq_ok h).1]
  simp [origins, List.map_flatMap, Function.comp_def]

theorem isPath_of_mem_origins
    (h : ∀ c ∈ collections, ∃ file source, Declaration.parse file source = .ok c) {o : Duplicate}
    (ho : o ∈ origins collections) : IsPath o.className := by
  obtain ⟨c, hc, ho⟩ := List.mem_flatMap.mp ho
  obtain ⟨d, hd, rfl⟩ := List.mem_map.mp ho
  obtain ⟨file, source, hparse⟩ := h c hc
  have shape := Declaration.wellFormed_of_parse hparse d hd
  exact qualify_isPath shape.ns (isPath_of_isWord shape.name)

theorem isPath_of_generateAll
    (hparsed : ∀ c ∈ collections, ∃ file source, Declaration.parse file source = .ok c)
    (h : generateAll r collections = .ok (units, warnings)) :
    ∀ u ∈ units, IsPath u.className := by
  intro u hu
  have name : u.className ∈ (origins collections).map (·.className) := by
    rw [← classNames_of_generateAll h]
    exact List.mem_map_of_mem hu
  obtain ⟨o, ho, heq⟩ := List.mem_map.mp name
  rw [← heq]
  exact isPath_of_mem_origins hparsed ho

theorem warnings_of_generateAll
    (h : generateAll r collections = .ok (units, warnings)) :
    ∃ positions : List Nat, positions.Pairwise (· < ·) ∧
      warnings.map some = positions.map (fun k => (origins collections)[k]?) ∧
      ∀ k, k ∈ positions ↔ ∃ j < k, ∃ u v, units[j]? = some u ∧ units[k]? = some v ∧
        u.className = v.className := by
  have positions :=
    duplicates_positions [] ((origins collections).map fun o => (o.className, o.file))
  rw [← (generateAll_eq_ok h).2] at positions
  simp only [List.map_map, Function.comp_def, List.map_id', ← classNames_of_generateAll h]
    at positions
  refine ⟨_, List.pairwise_lt_range.filter _, positions, fun k => ?_⟩
  rw [List.mem_filter, repeated_nil_iff]
  simp only [List.getElem?_map, Option.map_eq_some_iff]
  constructor
  · rintro ⟨-, j, hj, name, ⟨u, hu, hname⟩, v, hv, rfl⟩
    exact ⟨j, hj, u, v, hu, hv, hname⟩
  · rintro ⟨j, hj, u, v, hu, hv, hname⟩
    refine ⟨?_, j, hj, v.className, ⟨u, hu, hname⟩, v, hv, rfl⟩
    have counted := congrArg List.length (classNames_of_generateAll h)
    have inside := (List.getElem?_eq_some_iff.mp hv).1
    simp only [List.length_map] at counted ⊢
    rw [List.mem_range]
    omega

end All

end Class

structure Layout (root : String) (units : List SourceUnit) : Prop where
  resolved : ∀ u ∈ units,
    (Resolver.below root).resolve u.className = .ok (classFile root u.className)
  mirrored : ∀ u ∈ units, ∃ before last, split '\\' u.className = before ++ [last] ∧
    components (classFile root u.className) =
      components root ++ (before ++ [last ++ ".php"]).map .name
  below : ∀ u ∈ units, Above root (classFile root u.className)
  distinct : ∀ u ∈ units, ∀ v ∈ units,
    (classFile root u.className = classFile root v.className ↔ u.className = v.className) ∧
    (components (classFile root u.className) = components (classFile root v.className) ↔
      u.className = v.className)
  unobstructed : ∀ u ∈ units, ∀ v ∈ units,
    ¬ Above (classFile root u.className) (classFile root v.className)

theorem layout_of_isPath {units : List SourceUnit} (h : ∀ u ∈ units, IsPath u.className)
    (root : String) : Layout root units where
  resolved u hu := resolve_below (h u hu) root
  mirrored u hu := by
    obtain ⟨before, last, hs, -, hc⟩ := components_classFile (h u hu)
    exact ⟨before, last, hs, hc root⟩
  below u hu := above_classFile (h u hu) root
  distinct u hu v hv :=
    ⟨classFile_inj (h u hu) (h v hv) root, components_classFile_inj (h u hu) (h v hv) root⟩
  unobstructed u hu v hv := not_above_classFile (h u hu) (h v hv) root

theorem layout_of_generateAll {r : Registry} {collections : List Collection}
    {units : List SourceUnit} {warnings : List Class.Duplicate}
    (hparsed : ∀ c ∈ collections, ∃ file source, Declaration.parse file source = .ok c)
    (h : Class.generateAll r collections = .ok (units, warnings)) (root : String) :
    units.map (·.className) = (Class.origins collections).map (·.className) ∧
    Layout root units ∧
    ∃ positions : List Nat, positions.Pairwise (· < ·) ∧
      warnings.map some = positions.map (fun k => (Class.origins collections)[k]?) ∧
      ∀ k, k ∈ positions ↔ ∃ j < k, ∃ u v, units[j]? = some u ∧ units[k]? = some v ∧
        (Resolver.below root).resolve u.className = (Resolver.below root).resolve v.className := by
  have paths := Class.isPath_of_generateAll hparsed h
  have same {u v : SourceUnit} (hu : u ∈ units) (hv : v ∈ units) :
      (Resolver.below root).resolve u.className = (Resolver.below root).resolve v.className ↔
        u.className = v.className := by
    rw [resolve_below (paths u hu), resolve_below (paths v hv), Except.ok.injEq,
      classFile_inj (paths u hu) (paths v hv)]
  obtain ⟨positions, increasing, warned, exactly_⟩ := Class.warnings_of_generateAll h
  refine ⟨Class.classNames_of_generateAll h, layout_of_isPath paths root, positions, increasing,
    warned, fun k => (exactly_ k).trans ?_⟩
  constructor
  · rintro ⟨j, hj, u, v, hu, hv, heq⟩
    exact ⟨j, hj, u, v, hu, hv, (same (List.mem_of_getElem? hu) (List.mem_of_getElem? hv)).mpr heq⟩
  · rintro ⟨j, hj, u, v, hu, hv, heq⟩
    exact ⟨j, hj, u, v, hu, hv, (same (List.mem_of_getElem? hu) (List.mem_of_getElem? hv)).mp heq⟩

def shopCollections : List Collection :=
  [⟨"a.datatypes",
      [⟨"Shop", "Item", ⟨"Shop\\Item", [⟨"id", "int", false, false⟩]⟩, .named "ValueObject", [],
        none⟩]⟩,
    ⟨"b.datatypes",
      [⟨"", "Shop", ⟨"Shop", []⟩, .named "ValueObject", [], none⟩,
        ⟨"Shop\\Item", "Size", ⟨"Int", []⟩, .named "ValueObject", [], none⟩,
        ⟨"Shop", "Item", ⟨"Shop\\Item", []⟩, .named "ValueObject", [], none⟩]⟩]

theorem parse_shopCollections :
    ∀ c ∈ shopCollections, ∃ file source, Declaration.parse file source = .ok c := by
  simp only [shopCollections, List.mem_cons, List.not_mem_nil, or_false, forall_eq_or_imp,
    forall_eq]
  exact ⟨⟨"a.datatypes",
      "namespace Shop; data Item = Item \x7b int $id \x7d deriving (ValueObject);",
      by decide +kernel⟩,
    "b.datatypes",
      "data Shop = Shop deriving (ValueObject);" ++
      "namespace Shop\\Item \x7b data Size = Int deriving (ValueObject); \x7d" ++
      "namespace Shop; data Item = Item deriving (ValueObject);",
      by decide +kernel⟩

theorem generateAll_shopCollections :
    ∃ units, Class.generateAll Catalog.builtinRegistry shopCollections =
      .ok (units, [⟨"Shop\\Item", "b.datatypes"⟩]) := by
  have warned : (Class.generateAll Catalog.builtinRegistry shopCollections).map Prod.snd =
      .ok [⟨"Shop\\Item", "b.datatypes"⟩] := by decide +kernel
  cases hg : Class.generateAll Catalog.builtinRegistry shopCollections with
  | error e =>
    rw [hg] at warned
    cases warned
  | ok result =>
    obtain ⟨units, warnings⟩ := result
    rw [hg] at warned
    cases warned
    exact ⟨units, rfl⟩

theorem layout_shopCollections :
    (∀ c ∈ shopCollections, ∃ file source, Declaration.parse file source = .ok c) ∧
    ∃ units, Class.generateAll Catalog.builtinRegistry shopCollections =
        .ok (units, [⟨"Shop\\Item", "b.datatypes"⟩]) ∧
      units.map (·.className) = ["Shop\\Item", "Shop", "Shop\\Item\\Size", "Shop\\Item"] ∧
      Layout "out/../src/" units ∧
      ∃ positions : List Nat, positions.Pairwise (· < ·) ∧
        [some ⟨"Shop\\Item", "b.datatypes"⟩] =
          positions.map (fun k => (Class.origins shopCollections)[k]?) ∧
        ∀ k, k ∈ positions ↔ ∃ j < k, ∃ u v, units[j]? = some u ∧ units[k]? = some v ∧
          (Resolver.below "out/../src/").resolve u.className =
            (Resolver.below "out/../src/").resolve v.className := by
  obtain ⟨units, generated⟩ := generateAll_shopCollections
  obtain ⟨names, layout, positions⟩ :=
    layout_of_generateAll parse_shopCollections generated "out/../src/"
  exact ⟨parse_shopCollections, units, generated, names.trans (by decide), layout, positions⟩

end Datatypes
