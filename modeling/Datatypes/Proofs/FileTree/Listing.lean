import Mathlib.Data.List.Nodup
import Datatypes.Proofs.FileTree.Places
import Datatypes.Proofs.Path.Join

/-!
The files and directories below a node. In a tree whose names are distinct and can stand in paths,
they are listed by exactly the names that lead to them, each once.
-/

namespace Datatypes

structure IsEntryName (s : String) : Prop extends Path.IsName s where
  short : s.utf8ByteSize ≤ FileTree.maxName
  noZero : Char.ofNat 0 ∉ s.toList

theorem isEntryName_iff {s : String} :
    IsEntryName s ↔ (s ≠ "" ∧ s ≠ "." ∧ s ≠ ".." ∧ '/' ∉ s.toList) ∧
      s.utf8ByteSize ≤ FileTree.maxName ∧ Char.ofNat 0 ∉ s.toList :=
  ⟨fun h => ⟨⟨h.ne_empty, h.ne_current, h.ne_parent, h.noSlash⟩, h.short, h.noZero⟩,
    fun ⟨⟨h₁, h₂, h₃, h₄⟩, h₅, h₆⟩ => ⟨⟨h₁, h₂, h₃, h₄⟩, h₅, h₆⟩⟩

instance (s : String) : Decidable (IsEntryName s) := decidable_of_iff' _ isEntryName_iff

theorem IsEntryName.isStep {s : String} (h : IsEntryName s) : FileTree.isStep s = false := by
  simp [FileTree.isStep, h.ne_empty, h.ne_current, h.ne_parent]

namespace Node

variable {n m : Node} {names : List String} {name : String} {entries : List (String × Node)}

inductive WellFormed : Node → Prop
  | file (content : ByteArray) : WellFormed (.file content)
  | directory {entries : List (String × Node)} (distinct : (entries.map (·.1)).Nodup)
      (named : ∀ e ∈ entries, IsEntryName e.1) (below : ∀ e ∈ entries, WellFormed e.2) :
      WellFormed (.directory entries)

theorem lookup_eq_some_iff_mem (h : (entries.map (·.1)).Nodup) :
    entries.lookup name = some n ↔ (name, n) ∈ entries := by
  induction entries with
  | nil => simp
  | cons e entries ih =>
    obtain ⟨key, old⟩ := e
    obtain ⟨fresh, rest⟩ := List.nodup_cons.mp h
    by_cases hk : name = key
    · subst hk
      have absent : (name, n) ∉ entries := fun hmem =>
        fresh (List.mem_map.mpr ⟨_, hmem, rfl⟩)
      simp [absent, eq_comm]
    · rw [FileTree.lookup_cons_of_ne hk, ih rest]
      simp [hk]

theorem get?_cons_eq_some_iff (h : (entries.map (·.1)).Nodup) :
    (directory entries).get? (name :: names) = some m ↔
      ∃ n, (name, n) ∈ entries ∧ n.get? names = some m := by
  simp only [← lookup_eq_some_iff_mem h, get?]
  cases entries.lookup name <;> simp

theorem filesOfEntries_eq (entries : List (String × Node)) :
    filesOfEntries entries = entries.flatMap fun e => e.2.files.map (e.1 :: ·) := by
  induction entries with
  | nil => rfl
  | cons e entries ih => rw [filesOfEntries, ih, List.flatMap_cons]

theorem directoriesOfEntries_eq (entries : List (String × Node)) :
    directoriesOfEntries entries = entries.flatMap fun e => e.2.directories.map (e.1 :: ·) := by
  induction entries with
  | nil => rfl
  | cons e entries ih => rw [directoriesOfEntries, ih, List.flatMap_cons]

theorem mem_files_iff (h : n.WellFormed) :
    names ∈ n.files ↔ ∃ c, n.get? names = some (.file c) := by
  induction h generalizing names with
  | file content => cases names <;> simp [files, get?]
  | directory distinct _ _ ih =>
    rw [files, filesOfEntries_eq]
    cases names with
    | nil => simp [get?]
    | cons name names =>
      simp only [List.mem_flatMap, List.mem_map, List.cons.injEq, get?_cons_eq_some_iff distinct]
      constructor
      · rintro ⟨e, he, rest, hrest, rfl, rfl⟩
        obtain ⟨c, hc⟩ := (ih e he).mp hrest
        exact ⟨c, e.2, he, hc⟩
      · rintro ⟨c, n, hn, hc⟩
        exact ⟨(name, n), hn, names, (ih _ hn).mpr ⟨c, hc⟩, rfl, rfl⟩

theorem mem_directories_iff (h : n.WellFormed) :
    names ∈ n.directories ↔ ∃ es, n.get? names = some (.directory es) := by
  induction h generalizing names with
  | file content => cases names <;> simp [directories, get?]
  | directory distinct _ _ ih =>
    rw [directories, directoriesOfEntries_eq]
    cases names with
    | nil => simp [get?]
    | cons name names =>
      simp only [List.mem_cons, reduceCtorEq, false_or, List.mem_flatMap, List.mem_map,
        List.cons.injEq, get?_cons_eq_some_iff distinct]
      constructor
      · rintro ⟨e, he, rest, hrest, rfl, rfl⟩
        obtain ⟨es, hes⟩ := (ih e he).mp hrest
        exact ⟨es, e.2, he, hes⟩
      · rintro ⟨es, n, hn, hes⟩
        exact ⟨(name, n), hn, names, (ih _ hn).mpr ⟨es, hes⟩, rfl, rfl⟩

theorem nodup_files (h : n.WellFormed) : n.files.Nodup := by
  induction h with
  | file content => simp [files]
  | @directory entries distinct _ _ ih =>
    rw [files, filesOfEntries_eq, List.nodup_flatMap]
    refine ⟨fun e he => (ih e he).map fun _ _ heq => (List.cons.inj heq).2, ?_⟩
    have apart : entries.Pairwise fun e e' => e.1 ≠ e'.1 := List.pairwise_map.mp distinct
    refine apart.imp fun {e e'} hne places h h' => ?_
    obtain ⟨rest, -, rfl⟩ := List.mem_map.mp h
    obtain ⟨rest', -, heq⟩ := List.mem_map.mp h'
    exact hne (List.cons.inj heq).1.symm

theorem WellFormed.get? (h : n.WellFormed) (hm : n.get? names = some m) :
    m.WellFormed ∧ ∀ s ∈ names, IsEntryName s := by
  induction h generalizing names with
  | file content =>
    cases names with
    | nil =>
      cases hm
      exact ⟨.file content, by simp⟩
    | cons name names => cases hm
  | directory distinct named below ih =>
    cases names with
    | nil =>
      cases hm
      exact ⟨.directory distinct named below, by simp⟩
    | cons name names =>
      obtain ⟨n, hn, hrest⟩ := (get?_cons_eq_some_iff distinct).mp hm
      obtain ⟨formed, rest⟩ := ih _ hn hrest
      exact ⟨formed, List.forall_mem_cons.mpr ⟨named _ hn, rest⟩⟩

end Node

namespace FileTree

variable {t : FileTree} {trail result : Trail} {names : List String} {n : Node}

theorem walk_names (hn : ∀ s ∈ names, IsEntryName s) (hg : (t.nodeAt trail).get? names = some n) :
    ∃ result, t.walk trail names = .ok result ∧ result.names = trail.names ++ names := by
  induction names generalizing trail with
  | nil => exact ⟨trail, rfl, by simp⟩
  | cons s names ih =>
    obtain ⟨name, rest⟩ := List.forall_mem_cons.mp hn
    cases hd : t.nodeAt trail with
    | file content => simp [hd, Node.get?] at hg
    | directory entries =>
      rw [hd, Node.get?] at hg
      cases hl : entries.lookup s with
      | none => simp [hl] at hg
      | some m =>
        rw [hl] at hg
        have below : (t.nodeAt ((s, m) :: trail)).get? names = some n := hg
        obtain ⟨result, hw, names'⟩ := ih rest below
        refine ⟨result, ?_, by simpa [Trail.names] using names'⟩
        rw [walk_enter hd names name.isStep name.short hl, hw]

theorem eq_of_walk_stays {stays : List String} (h : ∀ s ∈ stays, s = "" ∨ s = ".")
    (hw : t.walk trail stays = .ok result) : result = trail := by
  induction stays with
  | nil =>
    cases hw
    rfl
  | cons s stays ih =>
    obtain ⟨hs, later⟩ := List.forall_mem_cons.mp h
    obtain ⟨entries, hd, -⟩ := walk_cons_eq_ok hw
    rw [walk_stay hd stays hs] at hw
    exact ih later hw

theorem exists_of_walk_append {front back : List String}
    (hw : t.walk trail (front ++ back) = .ok result) :
    ∃ middle, t.walk trail front = .ok middle ∧ t.walk middle back = .ok result := by
  rw [walk_append] at hw
  cases hf : t.walk trail front with
  | error e => simp [hf, Except.bind] at hw
  | ok middle =>
    rw [hf] at hw
    exact ⟨middle, rfl, hw⟩

theorem walk_filter {p : String → Bool} (hp : ∀ s, p s = false → s = "" ∨ s = ".")
    {segments : List String} (hw : t.walk trail segments = .ok result) :
    t.walk trail (segments.filter p) = .ok result := by
  induction segments generalizing trail with
  | nil => exact hw
  | cons s segments ih =>
    obtain ⟨entries, hd, hcases⟩ := walk_cons_eq_ok hw
    cases hs : p s with
    | false =>
      rw [walk_stay hd segments (hp s hs)] at hw
      rw [List.filter_cons_of_neg (by simp [hs])]
      exact ih hw
    | true =>
      rw [List.filter_cons_of_pos hs]
      rcases hcases with ⟨stay, hrest⟩ | ⟨rfl, hrest⟩ | ⟨step, hlen, n, hl, hrest⟩
      · rw [walk_stay hd _ stay]
        exact ih hrest
      · rw [walk_up hd]
        exact ih hrest
      · rw [walk_enter hd _ step hlen hl]
        exact ih hrest

end FileTree

end Datatypes
