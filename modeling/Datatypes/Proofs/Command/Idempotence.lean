import Datatypes.Proofs.Command.Atomicity
import Datatypes.Proofs.Declaration.Run
import Datatypes.Proofs.Emit.Rewriting
import Datatypes.Proofs.Input.Search

/-!
Running the generator a second time, on what the first run has left. The files that a run reads are
none of those that it writes, so the second run finds the same definitions and writes the same
classes to the same places. It can be stopped by one thing only: the first run may have made a
directory below the input whose path is too long to be listed.
-/

namespace Datatypes

open FileTree (Grown isClassName isLongPath)

namespace Input

variable {t t' : FileTree} {p base : String} {n : Node} {files : List String}

/-- No directory below the path is too long to be listed, as the path spells it. -/
def Listable (t : FileTree) (p : String) : Prop :=
  ∀ n base, t.node p = .ok n → base? p = some base → ∀ names ∈ n.directories, names ≠ [] →
    isLongPath (Path.join base ("/".intercalate names)) = false

theorem filesBelow_grown {es es' : List (String × Node)} (h : Grown es es') (base : String) :
    filesBelow base (.directory es') = filesBelow base (.directory es) := by
  have same := h.inputFiles
  simp only [filesBelow, Node.files]
  exact congrArg _ (congrArg _ same)

theorem listable_of_scan (h : scan t p = .ok files) : Listable t p := by
  intro n base hn hb
  rcases scan_eq_ok_iff.mp h with ⟨c, hn', -⟩ | ⟨es, base', hn', hb', hu, -⟩
  · cases hn.symm.trans hn'
    intro names hnames
    cases hnames
  · cases hn.symm.trans hn'
    cases hb.symm.trans hb'
    exact unlisted?_eq_none_iff.mp hu

theorem scan_grown (h : Grown t.entries t'.entries) (hs : scan t p = .ok files) :
    (Listable t' p → scan t' p = .ok files) ∧
      (¬ Listable t' p → ∃ d, scan t' p = .error (.notListed d .nameTooLong)) := by
  rcases scan_eq_ok_iff.mp hs with ⟨c, hn, rfl⟩ | ⟨es, base, hn, hb, -, hne, rfl⟩
  · obtain ⟨c', hn', -⟩ := FileTree.node_file_grown h hn
    have scanned : scan t' p = .ok [p] := scan_eq_ok_iff.mpr (.inl ⟨c', hn', rfl⟩)
    exact ⟨fun _ => scanned, fun hl => absurd (listable_of_scan scanned) hl⟩
  · obtain ⟨es', hn', hg⟩ := FileTree.node_directory_grown h hn
    have listed (hu : unlisted? base (.directory es') = none) :
        scan t' p = .ok (filesBelow base (.directory es)) :=
      scan_eq_ok_iff.mpr (.inr ⟨es', base, hn', hb, hu, hne, filesBelow_grown hg base⟩)
    constructor
    · intro hl
      exact listed (unlisted?_eq_none_iff.mpr (hl _ base hn' hb))
    · intro hl
      cases hu : unlisted? base (.directory es') with
      | some d => exact ⟨d, scan_of_unlisted? hn' hb hu⟩
      | none => exact absurd (listable_of_scan (listed hu)) hl

theorem isInputName_of_mem_filesBelow (h : p ∈ filesBelow base n) : isInputName p = true := by
  obtain ⟨names, hn, rfl⟩ := mem_pathsFrom.mp (List.mem_filter.mp h).1
  have named := (List.mem_filter.mp hn).2
  obtain ⟨front, last, rfl⟩ : ∃ front last, names = front ++ [last] := by
    rcases List.eq_nil_or_concat names with rfl | ⟨front, last, rfl⟩
    · cases named
    · exact ⟨front, last, by simp⟩
  have hlast : extension.toList <:+ last.toList := by
    simpa [isInputName, List.isSuffixOf_iff_suffix] using named
  rw [isInputName, List.isSuffixOf_iff_suffix]
  exact hlast.trans ((FileTree.suffix_intercalate front last).trans (Path.suffix_join _ _))

theorem isClassName_of_mem_scan (hp : ∀ c, t.node p = .ok (.file c) → isClassName p = false)
    (hs : scan t p = .ok files) : ∀ file ∈ files, isClassName file = false := by
  intro file hf
  rcases scan_eq_ok_iff.mp hs with ⟨c, hn, rfl⟩ | ⟨es, base, -, -, -, -, rfl⟩
  · rw [List.mem_singleton.mp hf]
    exact hp c hn
  · by_contra hc
    have other := FileTree.isInputName_of_isClassName (by simpa using hc)
    rw [isInputName_of_mem_filesBelow hf] at other
    cases other

theorem base?_of_segments (h : ∀ s ∈ Text.split '/' p, s ≠ "") {s : String} {rest : List String}
    (hs : Text.split '/' p = s :: rest) (hdot : s ≠ ".") : base? p = some p := by
  have filled : (Text.split '/' p).filter (· ≠ "") = Text.split '/' p :=
    List.filter_eq_self.mpr fun s hs => by simpa using h s hs
  have whole : "/".intercalate ((Text.split '/' p).filter (· ≠ "")) = p := by
    rw [filled, Text.intercalate_split rfl]
  rw [hs] at whole
  have hs' : s ≠ "" := h s (by simp [hs])
  simp only [base?, Path.dropTrailing_of_segments h, Path.isAbsolute_of_segments h, hs,
    dropDots, hdot, if_false, Bool.false_eq_true]
  split
  · next heq => exact absurd (List.cons.inj heq).1 hs'
  · exact congrArg some whole

end Input

namespace Generation

variable {o : GenerateOptions} {t t' : FileTree}

/-- No file that the run reads has the name of a class. With a directory for the classes no
manifest is read. -/
structure Apart (o : GenerateOptions) (t : FileTree) : Prop where
  input : ∀ c, t.node o.input = .ok (.file c) → isClassName o.input = false
  conventions : ∀ p c, o.conventions = some p → t.node p = .ok (.file c) → isClassName p = false
  manifest : ∀ c, o.outDir = none → t.node o.manifest = .ok (.file c) →
    isClassName o.manifest = false

theorem readText_again {p text : String} (h : Grown t.entries t'.entries)
    (hp : ∀ c, t.node p = .ok (.file c) → isClassName p = false)
    (ht : t.readText p = .ok text) : t'.readText p = .ok text := by
  refine FileTree.readText_grown h ht ?_
  rw [FileTree.readText] at ht
  split at ht
  · cases ht
  · cases ht
  · next c hn => exact hp c hn

theorem parseFile_again {file : String} {c : Collection} (h : Grown t.entries t'.entries)
    (hf : isClassName file = false) (hc : Input.parseFile t.readText file = .ok c) :
    Input.parseFile t'.readText file = .ok c := by
  rw [Input.parseFile] at hc ⊢
  split at hc
  · cases hc
  · next source read => rwa [FileTree.readText_grown h read hf]

theorem load_again {catalog : Catalog} (h : Grown t.entries t'.entries) (ha : Apart o t)
    (hl : Catalog.load t o.conventions = .ok catalog) :
    Catalog.load t' o.conventions = .ok catalog := by
  cases hp : o.conventions with
  | none => rwa [hp] at hl
  | some path =>
    simp only [hp, Catalog.load, Catalog.addFile] at hl ⊢
    cases read : t.readText path with
    | error e => simp [read] at hl
    | ok source =>
      rw [readText_again h (fun c => ha.conventions path c hp) read]
      rwa [read] at hl

theorem resolver_again {r : Resolver} (h : Grown t.entries t'.entries) (ha : Apart o t)
    (hr : resolver o t = .ok r) : resolver o t' = .ok r := by
  rw [resolver] at hr ⊢
  cases hd : o.outDir with
  | some directory => rwa [hd] at hr
  | none =>
    simp only [hd, Autoload.ofFile] at hr ⊢
    cases read : t.readText o.manifest with
    | error e => simp [read] at hr
    | ok source =>
      rw [readText_again h (fun c => ha.manifest c hd) read]
      rwa [read] at hr

theorem prepare_again {units : List SourceUnit} {r : Resolver} (h : Grown t.entries t'.entries)
    (ha : Apart o t) (hl : Input.Listable t' o.input) (hp : prepare o t = .ok (units, r)) :
    prepare o t' = .ok (units, r) := by
  obtain ⟨files, collections, registry, scanned, parsed, ⟨catalog, loaded, found⟩, generated,
    chosen⟩ := prepare_eq_ok_iff.mp hp
  have parsed' : files.mapM (Input.parseFile t'.readText) = .ok collections := by
    rw [mapM_eq_ok_iff] at parsed ⊢
    have apart := Input.isClassName_of_mem_scan ha.input scanned
    refine ((List.forall₂_and_left files collections).mpr ⟨apart, parsed⟩).imp fun file c hf => ?_
    exact parseFile_again h hf.1 hf.2
  exact prepare_eq_ok_iff.mpr ⟨files, collections, registry,
    (Input.scan_grown h scanned).1 hl, parsed', ⟨catalog, load_again h ha loaded, found⟩,
    generated, resolver_again h ha chosen⟩

theorem run_again {classes : List (String × String)} (hd : o.dryRun = false) (ha : Apart o t)
    (h : run o t = (t', .ok classes)) :
    (Input.Listable t' o.input → run o t' = (t', .ok classes)) ∧
      (¬ Input.Listable t' o.input →
        ∃ d, run o t' = (t', .error (.noInput (.notListed d .nameTooLong)))) := by
  cases prepared : prepare o t with
  | error e => simp [run, prepared] at h
  | ok plan =>
    obtain ⟨units, r⟩ := plan
    have placed (s : FileTree) : place o units r s = Emit.emit r units s := by simp [place, hd]
    cases emitted : Emit.emit r units t with
    | mk tree result =>
      cases result with
      | error e => simp [run, prepared, placed, emitted] at h
      | ok paths =>
        simp only [run, prepared, placed, emitted, Prod.mk.injEq, Except.ok.injEq] at h
        obtain ⟨rfl, rfl⟩ := h
        obtain ⟨grown, emitted'⟩ := Emit.emit_again emitted
        obtain ⟨files, -, -, scanned, -⟩ := prepare_eq_ok_iff.mp prepared
        constructor
        · intro hl
          simp only [run, prepare_again grown ha hl prepared, placed, emitted']
        · intro hl
          obtain ⟨d, refused⟩ := (Input.scan_grown grown scanned).2 hl
          exact ⟨d, by simp only [run, prepare, refused]⟩

end Generation

namespace Command

open Generation (Apart)

theorem generate_again (s : Settings) {o : GenerateOptions} {t : FileTree}
    (hd : o.dryRun = false) (ha : Apart o t) (h : (run s (.generate o) t).exit = 0) :
    let left := (run s (.generate o) t).tree
    (Input.Listable left o.input →
      run s (.generate o) left = run s (.generate o) t ∧
      (Generation.run o left).2 = (Generation.run o t).2) ∧
    (¬ Input.Listable left o.input →
      (run s (.generate o) left).exit = 1 ∧ (run s (.generate o) left).tree = left) := by
  obtain ⟨classes, t', hrun⟩ := generated_of_exit h
  obtain ⟨again, refused⟩ := Generation.run_again hd ha hrun
  simp only [run_of_ok hrun]
  constructor
  · intro hl
    rw [run_of_ok (again hl), again hl, hrun]
    exact ⟨rfl, rfl⟩
  · intro hl
    obtain ⟨d, hrun'⟩ := refused hl
    rw [run_of_error hrun']
    exact ⟨rfl, rfl⟩

def itemSource : String := "namespace Shop; data Item = Item deriving (ValueObject);"

def itemsTree : FileTree where
  entries :=
    [("in", .directory
      [("a.datatypes", .file itemSource.toUTF8),
        ("b.datatypes", .file
          "namespace Shop; data Item = Item \x7b int $x \x7d deriving (ValueObject);".toUTF8)])]

def itemsOptions : GenerateOptions where
  input := "in"
  ns := Catalog.builtinNamespace
  outDir := some "in/generated"

theorem generate_again_items :
    let left := (run {} (.generate itemsOptions) itemsTree).tree
    itemsOptions.dryRun = false ∧ Apart itemsOptions itemsTree ∧
    (run {} (.generate itemsOptions) itemsTree).exit = 0 ∧ Input.Listable left "in" ∧
    run {} (.generate itemsOptions) left = run {} (.generate itemsOptions) itemsTree ∧
    (Generation.run itemsOptions left).2 =
      .ok [("Shop\\Item", "in/generated/Shop/Item.php"),
        ("Shop\\Item", "in/generated/Shop/Item.php")] := by
  have apart : Apart itemsOptions itemsTree := by
    refine ⟨fun c hn => ?_, fun p c hp => ?_, fun c hm => ?_⟩
    · cases hn
    · cases hp
    · cases hm
  obtain ⟨generated, scanned⟩ : (Generation.run itemsOptions itemsTree).2 =
      .ok [("Shop\\Item", "in/generated/Shop/Item.php"),
        ("Shop\\Item", "in/generated/Shop/Item.php")] ∧
      Input.scan (Generation.run itemsOptions itemsTree).1 "in" =
        .ok ["in/a.datatypes", "in/b.datatypes"] := by decide +kernel
  have ran := run_of_ok (s := {}) (Prod.ext rfl generated)
  have listable : Input.Listable (run {} (.generate itemsOptions) itemsTree).tree "in" := by
    rw [ran]
    exact Input.listable_of_scan scanned
  have exit : (run {} (.generate itemsOptions) itemsTree).exit = 0 := by rw [ran]
  obtain ⟨again, same⟩ := (generate_again {} rfl apart exit).1 listable
  exact ⟨rfl, apart, exit, listable, again, same.trans generated⟩

def aside : String := String.ofList (List.replicate 251 'a')

theorem aside_name :
    aside.utf8ByteSize = 251 ∧ Text.split '/' aside = [aside] ∧ Char.ofNat 0 ∉ aside.toList ∧
      FileTree.isStep aside = false ∧ aside ≠ "in" := by
  have letters : aside.toList = List.replicate 251 'a' := String.toList_ofList
  have only {c : Char} (hc : c ≠ 'a') : c ∉ List.replicate 251 'a' :=
    fun h => hc (List.eq_of_mem_replicate h)
  refine ⟨by decide +kernel, ?_, ?_, by decide +kernel, by decide +kernel⟩
  · rw [Text.split, letters, List.splitOn_eq_singleton (only (by decide))]
    rfl
  · rw [letters]
    exact only (by decide)

def detour : Nat → String
  | 0 => "in"
  | n + 1 => aside ++ "/" ++ (".." ++ "/" ++ detour n)

theorem utf8ByteSize_detour (n : Nat) : (detour n).utf8ByteSize = 2 + 255 * n := by
  induction n with
  | zero => rfl
  | succ n ih =>
    have slash : "/".utf8ByteSize = 1 := rfl
    have up : "..".utf8ByteSize = 2 := rfl
    simp only [detour, String.utf8ByteSize_append, ih, slash, up, aside_name.1]
    omega

theorem split_detour (n : Nat) :
    Text.split '/' (detour (n + 1)) = aside :: ".." :: Text.split '/' (detour n) := by
  have up : Text.split '/' ".." = [".."] := rfl
  rw [detour, Text.split_append rfl, Text.split_append rfl, aside_name.2.1, up]
  rfl

theorem segments_detour {n : Nat} : ∀ s ∈ Text.split '/' (detour n), s ≠ "" := by
  induction n with
  | zero =>
    have cut : Text.split '/' (detour 0) = ["in"] := rfl
    simp [cut]
  | succ n ih =>
    have named : aside ≠ "" := fun h => absurd aside_name.2.2.2.1 (by simp [h, FileTree.isStep])
    rw [split_detour]
    simpa [named] using ih

theorem zero_not_mem_detour (n : Nat) : Char.ofNat 0 ∉ (detour n).toList := by
  induction n with
  | zero => decide
  | succ n ih =>
    simp [detour, aside_name.2.2.1, ih]

theorem base?_detour (n : Nat) : Input.base? (detour (n + 1)) = some (detour (n + 1)) := by
  refine Input.base?_of_segments segments_detour (split_detour n) fun h => ?_
  exact absurd aside_name.2.2.2.1 (by simp [h, FileTree.isStep])

theorem isLongPath_below_detour (n : Nat) (q : String) :
    isLongPath (detour n ++ "/" ++ q) =
      decide (FileTree.maxPath < 3 + 255 * n + q.utf8ByteSize) := by
  have slash : "/".utf8ByteSize = 1 := rfl
  have size : (detour n ++ "/" ++ q).utf8ByteSize = 3 + 255 * n + q.utf8ByteSize := by
    rw [String.utf8ByteSize_append, String.utf8ByteSize_append, utf8ByteSize_detour, slash]
    omega
  rw [isLongPath, size]

section Detour

variable {t : FileTree} {es es' : List (String × Node)}
  (hin : t.entries.lookup "in" = some (.directory es))
  (haside : t.entries.lookup aside = some (.directory es'))

include hin haside

theorem walk_detour (n : Nat) (rest : List String) :
    t.walk [] (Text.split '/' (detour n) ++ rest) = t.walk [("in", .directory es)] rest := by
  induction n with
  | zero =>
    have cut : Text.split '/' (detour 0) = ["in"] := rfl
    rw [cut]
    exact FileTree.walk_enter rfl rest rfl (by decide) hin
  | succ n ih =>
    obtain ⟨size, -, -, named, -⟩ := aside_name
    have short : aside.utf8ByteSize ≤ FileTree.maxName := by simp [size, FileTree.maxName]
    rw [split_detour, List.cons_append, List.cons_append,
      FileTree.walk_enter rfl _ named short haside, FileTree.walk_up rfl]
    exact ih

theorem node_detour {n : Nat} (hn : 2 + 255 * n ≤ FileTree.maxPath) :
    t.node (detour n) = .ok (.directory es) := by
  have short : isLongPath (detour n) = false := by
    rw [isLongPath, utf8ByteSize_detour, decide_eq_false_iff_not]
    omega
  have fine := FileTree.pathError?_eq_none_iff.mpr
    ⟨zero_not_mem_detour n, Path.ne_empty_of_segments segments_detour, short⟩
  have walked := walk_detour hin haside n []
  rw [List.append_nil] at walked
  exact FileTree.node_eq_ok_iff.mpr ⟨fine, _, walked, rfl⟩

theorem node_below_detour {n : Nat} {q : String} {trail : FileTree.Trail}
    (hzero : Char.ofNat 0 ∉ q.toList) (hlen : 3 + 255 * n + q.utf8ByteSize ≤ FileTree.maxPath)
    (hw : t.walk [("in", .directory es)] (Text.split '/' q) = .ok trail) :
    t.node (detour n ++ "/" ++ q) = .ok (t.nodeAt trail) := by
  have short : isLongPath (detour n ++ "/" ++ q) = false := by
    rw [isLongPath_below_detour, decide_eq_false_iff_not]
    omega
  have fine := FileTree.pathError?_eq_none_iff.mpr
    ⟨by simp [zero_not_mem_detour, hzero], by simp, short⟩
  refine FileTree.node_eq_ok_iff.mpr ⟨fine, trail, ?_, rfl⟩
  rw [Text.split_append rfl, walk_detour hin haside]
  exact hw

end Detour

def itemEntries : List (String × Node) := [("a.datatypes", .file itemSource.toUTF8)]

def itemTree : FileTree := ⟨[("in", .directory itemEntries), (aside, .directory [])]⟩

def item : Definition := ⟨"Shop", "Item", ⟨"Shop\\Item", []⟩, .named "ValueObject", [], none⟩

theorem read_item :
    String.fromUTF8? itemSource.toUTF8 = some itemSource ∧
      Declaration.parse "in/a.datatypes" itemSource = .ok ⟨"in/a.datatypes", [item]⟩ ∧
      Input.scan itemTree itemsOptions.input = .ok ["in/a.datatypes"] := by
  decide +kernel

theorem parseFile_item {file : String}
    (h : itemTree.node file = .ok (.file itemSource.toUTF8)) :
    Input.parseFile itemTree.readText file = .ok ⟨file, [item]⟩ := by
  obtain ⟨text, parsed, -⟩ := read_item
  have read : itemTree.readText file = .ok itemSource := by
    rw [FileTree.readText, h]
    simp only [text]
  rw [Input.parseFile, read]
  exact Declaration.parse_of_parse parsed file

theorem lookup_aside : itemTree.entries.lookup aside = some (.directory []) := by
  rw [itemTree, FileTree.lookup_cons_of_ne aside_name.2.2.2.2, List.lookup_cons_self]

structure Spells (p : String) : Prop where
  segments : ∀ s ∈ Text.split '/' p, s ≠ ""
  base : Input.base? p = some p
  node : itemTree.node p = .ok (.directory itemEntries)
  file : itemTree.node (p ++ "/" ++ "a.datatypes") = .ok (.file itemSource.toUTF8)

namespace Spells

variable {p : String} (h : Spells p)

include h

theorem scan : Input.scan itemTree p = .ok [p ++ "/" ++ "a.datatypes"] := by
  have short : isLongPath (p ++ "/" ++ "a.datatypes") = false :=
    (FileTree.pathError?_eq_none_iff.mp (FileTree.node_eq_ok_iff.mp h.file).1).2.2
  have found : Input.pathsFrom p [["a.datatypes"]] = [p ++ "/" ++ "a.datatypes"] := by
    rw [← Path.join_of_segments h.segments rfl]
    rfl
  have below : Input.filesBelow p (.directory itemEntries) = [p ++ "/" ++ "a.datatypes"] := by
    have unfolded : Input.filesBelow p (.directory itemEntries) =
        (Input.pathsFrom p [["a.datatypes"]]).filter (!isLongPath ·) := rfl
    rw [unfolded, found]
    simp [short]
  exact Input.scan_eq_ok_iff.mpr
    (.inr ⟨itemEntries, p, h.node, h.base, rfl, by simp, below⟩)

theorem prepare {units : List SourceUnit} {r : Resolver}
    (hp : Generation.prepare itemsOptions itemTree = .ok (units, r)) :
    Generation.prepare { itemsOptions with input := p } itemTree = .ok (units, r) := by
  obtain ⟨files, collections, registry, scanned, parsed, loaded, generated, chosen⟩ :=
    Generation.prepare_eq_ok_iff.mp hp
  cases read_item.2.2.symm.trans scanned
  have parsed' : ["in/a.datatypes"].mapM (Input.parseFile itemTree.readText) =
      .ok [⟨"in/a.datatypes", [item]⟩] :=
    mapM_eq_ok_iff.mpr (.cons (parseFile_item rfl) .nil)
  cases parsed'.symm.trans parsed
  exact Generation.prepare_eq_ok_iff.mpr ⟨_, [⟨_, [item]⟩], registry, h.scan,
    mapM_eq_ok_iff.mpr (.cons (parseFile_item h.file) .nil), loaded, generated, chosen⟩

theorem run {t : FileTree} {classes : List (String × String)}
    (hr : Generation.run itemsOptions itemTree = (t, .ok classes)) :
    Generation.run { itemsOptions with input := p } itemTree = (t, .ok classes) := by
  obtain ⟨units, r, paths, prepared, -⟩ := Generation.prepared_of_run hr
  rw [Generation.run, prepared.prepared] at hr
  rw [Generation.run, h.prepare prepared.prepared]
  exact hr

end Spells

theorem spells_detour {n : Nat} (hn : 14 + 255 * (n + 1) ≤ FileTree.maxPath) :
    Spells (detour (n + 1)) where
  segments := segments_detour
  base := base?_detour n
  node := node_detour rfl lookup_aside (Nat.le_trans (Nat.add_le_add_right (by decide) _) hn)
  file := by
    have size : "a.datatypes".utf8ByteSize = 11 := rfl
    have cut : Text.split '/' "a.datatypes" = ["a.datatypes"] := rfl
    have walked : itemTree.walk [("in", .directory itemEntries)] (Text.split '/' "a.datatypes") =
        .ok [("a.datatypes", .file itemSource.toUTF8), ("in", .directory itemEntries)] := by
      rw [cut]
      exact FileTree.walk_enter rfl [] rfl (by decide) rfl
    exact node_below_detour (n := n + 1) rfl lookup_aside (by decide) (by omega) walked

theorem exists_directory {es : List (String × Node)} {name : String} {place : List String}
    (h : (es.lookup name).any (·.directories.contains place) = true) :
    ∃ inner, es.lookup name = some (.directory inner) ∧
      place ∈ (Node.directory inner).directories := by
  cases hl : es.lookup name with
  | none => simp [hl] at h
  | some n =>
    cases n with
    | file c => simp [hl, Node.directories] at h
    | directory inner => exact ⟨inner, rfl, by simpa [hl] using h⟩

theorem not_listable_detour {t : FileTree} {es es' : List (String × Node)}
    (hin : t.entries.lookup "in" = some (.directory es))
    (haside : t.entries.lookup aside = some (.directory es'))
    (hd : ["generated", "Shop"] ∈ (Node.directory es).directories) :
    ¬ Input.Listable t (detour 16) := by
  intro hl
  have node := node_detour (n := 16) hin haside (by decide)
  have short := hl _ _ node (base?_detour 15) _ hd (by simp)
  have spelled : "/".intercalate ["generated", "Shop"] = "generated/Shop" := rfl
  have size : "generated/Shop".utf8ByteSize = 14 := rfl
  rw [spelled, Path.join_of_segments segments_detour rfl, isLongPath_below_detour, size] at short
  exact absurd short (by decide)

/-- The second run finds a directory of 4097 bytes that the first one has made. -/
theorem generate_refused_detour :
    let o := { itemsOptions with input := detour 16 }
    let left := (run {} (.generate o) itemTree).tree
    o.dryRun = false ∧ Apart o itemTree ∧ (run {} (.generate o) itemTree).exit = 0 ∧
      (run {} (.generate o) left).exit = 1 := by
  have spells : Spells (detour 16) := spells_detour (by decide)
  have apart : Apart { itemsOptions with input := detour 16 } itemTree := by
    refine ⟨fun c hn => ?_, fun p c hp => ?_, fun c hm => ?_⟩
    · rw [spells.node] at hn
      cases hn
    · cases hp
    · cases hm
  obtain ⟨generated, made, kept⟩ : (Generation.run itemsOptions itemTree).2 =
      .ok [("Shop\\Item", "in/generated/Shop/Item.php")] ∧
      ((Generation.run itemsOptions itemTree).1.entries.lookup "in").any
        (·.directories.contains ["generated", "Shop"]) = true ∧
      ((Generation.run itemsOptions itemTree).1.entries.lookup aside).any
        (·.directories.contains []) = true := by decide +kernel
  obtain ⟨es, hin, hd⟩ := exists_directory made
  obtain ⟨es', haside, -⟩ := exists_directory kept
  have first := spells.run (Prod.ext rfl generated)
  obtain ⟨d, second⟩ :=
    (Generation.run_again rfl apart first).2 (not_listable_detour hin haside hd)
  simp only [run_of_ok first, run_of_error second, and_self, and_true]
  exact ⟨rfl, apart⟩

end Command

end Datatypes
