import Datatypes.Command.Report
import Datatypes.Proofs.Traversal

/-!
A run of the generator writes nothing unless every step before the first write succeeds, and a
dry run succeeds exactly when all of them do. It then reports the classes and the paths that the
run without the flag reports.
-/

namespace Datatypes

namespace Generation

variable {o : GenerateOptions} {t : FileTree}

def Defines (o : GenerateOptions) (t : FileTree) (d : Definition) : Prop :=
  ∃ files, Input.scan t o.input = .ok files ∧
    ∃ file ∈ files, ∃ c, Input.parseFile t.readText file = .ok c ∧ d ∈ c.definitions

def Loads (o : GenerateOptions) (t : FileTree) (registry : Registry) : Prop :=
  ∃ catalog, Catalog.load t o.conventions = .ok catalog ∧ catalog.registry o.ns = .ok registry

inductive Fails (o : GenerateOptions) (t : FileTree) : Prop where
  | input {e} (h : Input.scan t o.input = .error e)
  | source {files file e} (scanned : Input.scan t o.input = .ok files) (hf : file ∈ files)
      (h : Input.parseFile t.readText file = .error e)
  | conventions {e} (h : Catalog.load t o.conventions = .error e)
  | ns {catalog e} (loaded : Catalog.load t o.conventions = .ok catalog)
      (h : catalog.registry o.ns = .error e)
  | definition {registry d e} (loaded : Loads o t registry) (hd : Defines o t d)
      (h : Class.generate registry d = .error e)
  -- With a directory for the classes no manifest is read.
  | manifest {e} (used : o.outDir = none) (h : Autoload.ofFile t o.manifest = .error e)
  | path {registry d u r e} (loaded : Loads o t registry) (hd : Defines o t d)
      (generated : Class.generate registry d = .ok u) (chosen : resolver o t = .ok r)
      (h : r.resolve u.className = .error e)

structure Prepared (o : GenerateOptions) (t : FileTree) (units : List SourceUnit) (r : Resolver)
    (paths : List String) : Prop where
  prepared : prepare o t = .ok (units, r)
  placed : Emit.paths r units = .ok paths

theorem prepare_eq_ok_iff {units : List SourceUnit} {r : Resolver} :
    prepare o t = .ok (units, r) ↔
      ∃ files collections registry, Input.scan t o.input = .ok files ∧
        files.mapM (Input.parseFile t.readText) = .ok collections ∧ Loads o t registry ∧
        (collections.flatMap (·.definitions)).mapM (Class.generate registry) = .ok units ∧
        resolver o t = .ok r := by
  simp only [← parseFiles_eq_mapM, ← Class.generateList_eq_mapM]
  constructor
  · intro h
    rw [prepare] at h
    split at h
    · cases h
    rename_i files scanned
    split at h
    · cases h
    rename_i collections parsed
    split at h
    · cases h
    rename_i catalog loaded
    split at h
    · cases h
    rename_i registry found
    rw [Class.generateAll] at h
    cases generated : Class.generateList registry (collections.flatMap (·.definitions)) with
    | error e => simp [generated] at h
    | ok us =>
      cases chosen : resolver o t with
      | error e => simp [generated, chosen] at h
      | ok r' =>
        simp only [generated, chosen, Except.ok.injEq, Prod.mk.injEq] at h
        obtain ⟨rfl, rfl⟩ := h
        exact ⟨files, collections, registry, scanned, parsed, ⟨catalog, loaded, found⟩,
          generated, rfl⟩
  · rintro ⟨files, collections, registry, scanned, parsed, ⟨catalog, loaded, found⟩, generated,
      chosen⟩
    simp only [prepare, Class.generateAll, scanned, parsed, loaded, found, generated, chosen]

theorem Loads.unique {a b : Registry} (ha : Loads o t a) (hb : Loads o t b) : a = b := by
  obtain ⟨catalog, loaded, found⟩ := ha
  obtain ⟨catalog', loaded', found'⟩ := hb
  obtain rfl : catalog = catalog' := by simpa [loaded] using loaded'
  simpa [found] using found'

theorem defines_iff {files : List String} {collections : List Collection}
    (scanned : Input.scan t o.input = .ok files)
    (parsed : files.mapM (Input.parseFile t.readText) = .ok collections) {d : Definition} :
    Defines o t d ↔ d ∈ collections.flatMap (·.definitions) := by
  rw [List.mem_flatMap]
  constructor
  · rintro ⟨files', scanned', file, hf, c, read, hd⟩
    obtain rfl : files = files' := by simpa [scanned] using scanned'
    obtain ⟨c', hc, read'⟩ := exists_result_of_mapM parsed hf
    obtain rfl : c = c' := by simpa [read] using read'
    exact ⟨c, hc, hd⟩
  · rintro ⟨c, hc, hd⟩
    obtain ⟨file, hf, read⟩ := exists_source_of_mapM parsed hc
    exact ⟨files, scanned, file, hf, c, read, hd⟩

theorem not_fails_of_prepared {units : List SourceUnit} {r : Resolver} {paths : List String}
    (h : Prepared o t units r paths) : ¬ Fails o t := by
  obtain ⟨files, collections, registry, scanned, parsed, loaded, generated, chosen⟩ :=
    prepare_eq_ok_iff.mp h.prepared
  have placed := h.placed
  rw [Emit.paths_eq_mapM] at placed
  intro failed
  cases failed with
  | input failed => simp [scanned] at failed
  | source scanned' hf failed =>
    cases scanned.symm.trans scanned'
    obtain ⟨c, -, read⟩ := exists_result_of_mapM parsed hf
    simp [read] at failed
  | conventions failed =>
    obtain ⟨catalog, loaded, -⟩ := loaded
    simp [loaded] at failed
  | ns loaded' failed =>
    obtain ⟨catalog, loaded, found⟩ := loaded
    cases loaded.symm.trans loaded'
    simp [found] at failed
  | definition loaded' hd failed =>
    cases loaded.unique loaded'
    obtain ⟨u, -, made⟩ := exists_result_of_mapM generated ((defines_iff scanned parsed).mp hd)
    simp [made] at failed
  | manifest used failed => simp [resolver, used, failed] at chosen
  | path loaded' hd made chosen' failed =>
    cases loaded.unique loaded'
    cases chosen.symm.trans chosen'
    obtain ⟨u, hu, made'⟩ := exists_result_of_mapM generated ((defines_iff scanned parsed).mp hd)
    cases made.symm.trans made'
    obtain ⟨p, -, resolved⟩ := exists_result_of_mapM placed hu
    simp [resolved] at failed

theorem exists_resolver_of_not_fails (h : ¬ Fails o t) : ∃ r, resolver o t = .ok r := by
  cases used : o.outDir with
  | some directory => exact ⟨.below directory, by rw [resolver, used]⟩
  | none =>
    obtain ⟨map, read⟩ := exists_eq_ok fun _ failed => h (.manifest used failed)
    exact ⟨.autoload map, by simp only [resolver, used, read]⟩

theorem prepared_of_not_fails (h : ¬ Fails o t) : ∃ units r paths, Prepared o t units r paths := by
  obtain ⟨files, scanned⟩ := exists_eq_ok fun _ failed => h (.input failed)
  obtain ⟨collections, parsed⟩ :=
    exists_mapM_eq_ok fun _ hf _ failed => h (.source scanned hf failed)
  obtain ⟨catalog, read⟩ := exists_eq_ok fun _ failed => h (.conventions failed)
  obtain ⟨registry, found⟩ := exists_eq_ok fun _ failed => h (.ns read failed)
  have loaded : Loads o t registry := ⟨catalog, read, found⟩
  have defined {d} (hd : d ∈ collections.flatMap (·.definitions)) : Defines o t d :=
    (defines_iff scanned parsed).mpr hd
  obtain ⟨units, generated⟩ :=
    exists_mapM_eq_ok fun _ hd _ failed => h (.definition loaded (defined hd) failed)
  obtain ⟨r, chosen⟩ := exists_resolver_of_not_fails h
  obtain ⟨paths, placed⟩ : ∃ paths, Emit.paths r units = .ok paths := by
    rw [Emit.paths_eq_mapM]
    refine exists_mapM_eq_ok fun u hu e failed => ?_
    obtain ⟨d, hd, made⟩ := exists_source_of_mapM generated hu
    exact h (.path loaded (defined hd) made chosen failed)
  have prepared : prepare o t = .ok (units, r) := prepare_eq_ok_iff.mpr
    ⟨files, collections, registry, scanned, parsed, loaded, generated, chosen⟩
  exact ⟨units, r, paths, prepared, placed⟩

theorem run_of_fails (h : Fails o t) : ∃ e, run o t = (t, .error e) := by
  cases prepared : prepare o t with
  | error e => exact ⟨e, by rw [run, prepared]⟩
  | ok plan =>
    obtain ⟨units, r⟩ := plan
    cases placed : Emit.paths r units with
    | ok paths => exact absurd h (not_fails_of_prepared ⟨prepared, placed⟩)
    | error e =>
      have unplaced : place o units r t = (t, .error e) := by
        rw [place, Emit.emit_eq, placed, ite_self]
      exact ⟨.failed e, by simp only [run, prepared, unplaced]⟩

theorem run_dry {units : List SourceUnit} {r : Resolver} {paths : List String}
    (h : Prepared o t units r paths) :
    run { o with dryRun := true } t = (t, .ok ((units.map (·.className)).zip paths)) := by
  have prepared : prepare { o with dryRun := true } t = .ok (units, r) := h.prepared
  have placed : place { o with dryRun := true } units r t = (t, .ok paths) := by
    rw [place, if_pos rfl, h.placed]
  simp only [run, prepared, placed]

theorem paths_of_place {units : List SourceUnit} {r : Resolver} {paths : List String}
    (h : (place o units r t).2 = .ok paths) : Emit.paths r units = .ok paths := by
  rw [place] at h
  split at h
  · exact h
  · rw [Emit.emit_eq] at h
    split at h
    · cases h
    · rename_i targets found
      split at h
      · cases h
      · rw [found, ← h]

theorem prepared_of_run {t' : FileTree} {classes : List (String × String)}
    (h : run o t = (t', .ok classes)) :
    ∃ units r paths, Prepared o t units r paths ∧
      classes = (units.map (·.className)).zip paths := by
  cases prepared : prepare o t with
  | error e => simp [run, prepared] at h
  | ok plan =>
    obtain ⟨units, r⟩ := plan
    cases placed : place o units r t with
    | mk tree result =>
      cases result with
      | error e => simp [run, prepared, placed] at h
      | ok paths =>
        have same : (units.map (·.className)).zip paths = classes := by
          simpa [run, prepared, placed] using congrArg Prod.snd h
        have found : Emit.paths r units = .ok paths := paths_of_place (by rw [placed])
        exact ⟨units, r, paths, ⟨prepared, found⟩, same.symm⟩

end Generation

namespace Command

open Generation (Fails)

theorem run_of_error {s : Settings} {o : GenerateOptions} {t t' : FileTree} {e : CommandError}
    (h : Generation.run o t = (t', .error e)) :
    run s (.generate o) t = { exit := 1, stderr := commandErrorText s e, tree := t' } := by
  simp only [run, h]

theorem run_of_ok {s : Settings} {o : GenerateOptions} {t t' : FileTree}
    {classes : List (String × String)} (h : Generation.run o t = (t', .ok classes)) :
    run s (.generate o) t =
      { exit := 0, stdout := generatedText s o.dryRun classes, tree := t' } := by
  simp only [run, h]

theorem generated_of_exit {s : Settings} {o : GenerateOptions} {t : FileTree}
    (h : (run s (.generate o) t).exit = 0) :
    ∃ classes t', Generation.run o t = (t', .ok classes) := by
  cases result : Generation.run o t with
  | mk t' outcome =>
    cases outcome with
    | error e => simp [run_of_error result] at h
    | ok classes => exact ⟨classes, t', rfl⟩

theorem generate_atomic (s : Settings) (o : GenerateOptions) (t : FileTree) :
    (Fails o t →
      (run s (.generate o) t).exit = 1 ∧ (run s (.generate o) t).tree = t) ∧
    (o.dryRun = true →
      (run s (.generate o) t).tree = t ∧ ((run s (.generate o) t).exit = 0 ↔ ¬ Fails o t)) ∧
    ((run s (.generate o) t).exit = 0 → ∃ classes,
      (Generation.run o t).2 = .ok classes ∧
      (run s (.generate o) t).stdout = generatedText s o.dryRun classes ∧
      run s (.generate { o with dryRun := true }) t =
        { exit := 0, stdout := generatedText s true classes, tree := t }) := by
  have failing : Fails o t →
      (run s (.generate o) t).exit = 1 ∧ (run s (.generate o) t).tree = t := by
    intro failed
    obtain ⟨e, h⟩ := Generation.run_of_fails failed
    rw [run_of_error h]
    exact ⟨rfl, rfl⟩
  refine ⟨failing, ?_, ?_⟩
  · intro dry
    by_cases failed : Fails o t
    · obtain ⟨exit, tree⟩ := failing failed
      simp [exit, tree, failed]
    · obtain ⟨units, r, paths, prepared⟩ := Generation.prepared_of_not_fails failed
      have h := Generation.run_dry prepared
      have same : { o with dryRun := true } = o := by rw [← dry]
      rw [same] at h
      simp [run_of_ok h, failed]
  · intro exit
    obtain ⟨classes, t', h⟩ := generated_of_exit exit
    obtain ⟨units, r, paths, prepared, rfl⟩ := Generation.prepared_of_run h
    refine ⟨_, by rw [h], by rw [run_of_ok h], run_of_ok (Generation.run_dry prepared)⟩

def shopTree (convention : String) : FileTree where
  entries :=
    [("in", .directory
      [("a.datatypes", .file "namespace Shop; data Item = Item deriving (ValueObject);".toUTF8),
        ("b.datatypes", .file ("data Shop = Shop deriving (" ++ convention ++ ");").toUTF8)])]

def shopOptions : GenerateOptions where
  input := "in"
  ns := Catalog.builtinNamespace
  outDir := some "out"

theorem fails_shopTree : Fails shopOptions (shopTree "Record") := by
  have loaded : Generation.Loads shopOptions (shopTree "Record") Catalog.builtinRegistry :=
    ⟨.builtin, rfl, by decide +kernel⟩
  have scanned : Input.scan (shopTree "Record") shopOptions.input =
      .ok ["in/a.datatypes", "in/b.datatypes"] := by decide +kernel
  have parsed : Input.parseFile (shopTree "Record").readText "in/b.datatypes" =
      .ok ⟨"in/b.datatypes", [⟨"", "Shop", ⟨"Shop", []⟩, .named "Record", [], none⟩]⟩ := by
    decide +kernel
  have unknown : Class.generate Catalog.builtinRegistry
      ⟨"", "Shop", ⟨"Shop", []⟩, .named "Record", [], none⟩ =
        .error (.unknownDeriving "Shop" "Record" Catalog.builtinNamespace) := by decide +kernel
  exact .definition loaded ⟨_, scanned, _, by simp, _, parsed, by simp⟩ unknown

theorem generate_atomic_shop :
    (run {} (.generate shopOptions) (shopTree "ValueObject")).exit = 0 ∧
    run {} (.generate { shopOptions with dryRun := true }) (shopTree "ValueObject") =
      { exit := 0
        stdout := "Shop\\Item -> out/Shop/Item.php\nShop -> out/Shop.php\n" ++
          "Dry run: 2 class(es), nothing written\n"
        tree := shopTree "ValueObject" } ∧
    (run {} (.generate shopOptions) (shopTree "Record")).exit = 1 ∧
    (run {} (.generate shopOptions) (shopTree "Record")).tree = shopTree "Record" := by
  have generated : (Generation.run shopOptions (shopTree "ValueObject")).2 =
      .ok [("Shop\\Item", "out/Shop/Item.php"), ("Shop", "out/Shop.php")] := by decide +kernel
  have exit : (run {} (.generate shopOptions) (shopTree "ValueObject")).exit = 0 := by
    rw [run_of_ok (Prod.ext rfl generated)]
  have text : generatedText {} true
      [("Shop\\Item", "out/Shop/Item.php"), ("Shop", "out/Shop.php")] =
        "Shop\\Item -> out/Shop/Item.php\nShop -> out/Shop.php\n" ++
          "Dry run: 2 class(es), nothing written\n" := by decide +kernel
  obtain ⟨classes, same, -, dry⟩ :=
    (generate_atomic {} shopOptions (shopTree "ValueObject")).2.2 exit
  cases generated.symm.trans same
  exact ⟨exit, dry.trans (by rw [text]),
    (generate_atomic {} shopOptions (shopTree "Record")).1 fails_shopTree⟩

end Command

end Datatypes
