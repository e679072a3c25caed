import Datatypes.Input
import Datatypes.Proofs.Text.Segments
import Mathlib.Data.List.Forall2

/-!
What the writing of classes does to a tree: directories are made, and files whose names have the
extension of classes are made or overwritten. All else stays where it is, so that every path that
led somewhere leads to the same place, and the input files are the same.
-/

namespace Datatypes.FileTree

theorem lookup_cons_of_ne {es : List (String × Node)} {name key : String} (h : name ≠ key)
    (n : Node) : ((key, n) :: es).lookup name = es.lookup name := by
  rw [List.lookup_cons, beq_eq_false_iff_ne.mpr h]

def isClassName (name : String) : Bool := ".php".toList.isSuffixOf name.toList

/-- The second list of entries has grown out of the first one. What is new stands at the end of
its directory. -/
inductive Grown : List (String × Node) → List (String × Node) → Prop
  | nil : Grown [] []
  | file {name : String} {c c' : ByteArray} {es es' : List (String × Node)} :
      c' = c ∨ isClassName name = true → Grown es es' →
      Grown ((name, .file c) :: es) ((name, .file c') :: es')
  | directory {name : String} {inner inner' es es' : List (String × Node)} :
      Grown inner inner' → Grown es es' →
      Grown ((name, .directory inner) :: es) ((name, .directory inner') :: es')
  | newFile {name : String} {c : ByteArray} {es : List (String × Node)} :
      isClassName name = true → Grown [] es → Grown [] ((name, .file c) :: es)
  | newDirectory {name : String} {inner es : List (String × Node)} :
      Grown [] inner → Grown [] es → Grown [] ((name, .directory inner) :: es)

def Kept (name : String) : Node → Node → Prop
  | .file c, .file c' => c' = c ∨ isClassName name = true
  | .directory es, .directory es' => Grown es es'
  | _, _ => False

namespace Grown

variable {es es' es'' : List (String × Node)} {name : String} {n n' : Node}

theorem refl : ∀ es, Grown es es
  | [] => .nil
  | (_, .file _) :: es => .file (.inl rfl) (refl es)
  | (_, .directory inner) :: es => .directory (refl inner) (refl es)

theorem trans (h : Grown es es') (h' : Grown es' es'') : Grown es es'' := by
  induction h generalizing es'' with
  | nil => exact h'
  | file hc _ ih =>
    cases h' with
    | file hc' h' =>
      refine .file ?_ (ih h')
      rcases hc' with rfl | hc'
      · exact hc
      · exact .inr hc'
  | directory _ _ ihi ih =>
    cases h' with
    | directory hi h' => exact .directory (ihi hi) (ih h')
  | newFile hn _ ih =>
    cases h' with
    | file _ h' => exact .newFile hn (ih h')
  | newDirectory _ _ ihi ih =>
    cases h' with
    | directory hi h' => exact .newDirectory (ihi hi) (ih h')

theorem cons (h : Kept name n n') (hes : Grown es es') :
    Grown ((name, n) :: es) ((name, n') :: es') := by
  cases n with
  | file c =>
    cases n' with
    | file c' => exact .file h hes
    | directory => cases h
  | directory inner =>
    cases n' with
    | file => cases h
    | directory inner' => exact .directory h hes

end Grown

theorem Kept.refl (name : String) (n : Node) : Kept name n n := by
  cases n with
  | file => exact .inl rfl
  | directory es => exact Grown.refl es

theorem Grown.lookup {es es' : List (String × Node)} (h : Grown es es') {name : String} {n : Node}
    (hn : es.lookup name = some n) : ∃ n', es'.lookup name = some n' ∧ Kept name n n' := by
  induction h with
  | nil => cases hn
  | newFile | newDirectory => cases hn
  | @file key c c' es es' hc _ ih =>
    by_cases hk : name = key
    · subst hk
      rw [List.lookup_cons_self] at hn
      cases hn
      exact ⟨_, List.lookup_cons_self, hc⟩
    · rw [lookup_cons_of_ne hk] at hn ⊢
      exact ih hn
  | @directory key inner inner' es es' hi _ _ ih =>
    by_cases hk : name = key
    · subst hk
      rw [List.lookup_cons_self] at hn
      cases hn
      exact ⟨_, List.lookup_cons_self, hi⟩
    · rw [lookup_cons_of_ne hk] at hn ⊢
      exact ih hn

section Set

variable {es inner : List (String × Node)} {names : List String} {name : String} {n n' : Node}

theorem lookup_setEntry (es : List (String × Node)) (name key : String) (n : Node) :
    (setEntry es name n).lookup key = if key = name then some n else es.lookup key := by
  induction es with
  | nil =>
    rw [setEntry]
    split
    · next h => rw [h, List.lookup_cons_self]
    · next h => rw [lookup_cons_of_ne h]
  | cons e es ih =>
    obtain ⟨first, old⟩ := e
    rw [setEntry]
    by_cases hf : first = name
    · subst hf
      rw [if_pos rfl]
      split
      · next h => rw [h, List.lookup_cons_self]
      · next h => rw [lookup_cons_of_ne h, lookup_cons_of_ne h]
    · rw [if_neg hf]
      by_cases hk : key = first
      · subst hk
        rw [List.lookup_cons_self, List.lookup_cons_self, if_neg hf]
      · rw [lookup_cons_of_ne hk, lookup_cons_of_ne hk, ih]

theorem grown_setEntry_of_none (h : es.lookup name = none) (hn : Grown [] [(name, n)]) :
    Grown es (setEntry es name n) := by
  induction es with
  | nil => exact hn
  | cons e es ih =>
    obtain ⟨key, old⟩ := e
    have hne : key ≠ name := by
      rintro rfl
      simp at h
    rw [lookup_cons_of_ne hne.symm] at h
    rw [setEntry, if_neg hne]
    exact .cons (.refl key old) (ih h)

theorem grown_setEntry_of_some (h : es.lookup name = some n) (hn : Kept name n n') :
    Grown es (setEntry es name n') := by
  induction es with
  | nil => cases h
  | cons e es ih =>
    obtain ⟨key, old⟩ := e
    rw [setEntry]
    by_cases hk : key = name
    · subst hk
      obtain rfl : old = n := by simpa using h
      rw [if_pos rfl]
      exact .cons hn (.refl es)
    · rw [lookup_cons_of_ne (Ne.symm hk)] at h
      rw [if_neg hk]
      exact .cons (.refl key old) (ih h)

theorem exists_of_get?_cons {step : String}
    (h : (Node.directory es).get? (step :: names) = some (.directory inner)) :
    ∃ middle, es.lookup step = some (.directory middle) ∧
      (Node.directory middle).get? names = some (.directory inner) := by
  rw [Node.get?] at h
  cases hl : es.lookup step with
  | none => simp [hl] at h
  | some n =>
    rw [hl] at h
    cases n with
    | file c => cases names <;> simp [Node.get?] at h
    | directory middle => exact ⟨middle, rfl, h⟩

theorem grown_setIn (h : (Node.directory es).get? names = some (.directory inner))
    (hn : Grown inner (setEntry inner name n)) : Grown es (setIn es names name n) := by
  induction names generalizing es with
  | nil =>
    cases h
    exact hn
  | cons step names ih =>
    obtain ⟨middle, hl, hm⟩ := exists_of_get?_cons h
    rw [setIn, hl]
    exact grown_setEntry_of_some hl (ih hm)

end Set

def isInputPlace (names : List String) : Bool := names.getLast?.any Input.isInputName

theorem isInputName_of_isClassName {name : String} (h : isClassName name = true) :
    Input.isInputName name = false := by
  by_contra hi
  rw [isClassName, List.isSuffixOf_iff_suffix] at h
  have hi : Input.extension.toList <:+ name.toList := by
    simpa [Input.isInputName, List.isSuffixOf_iff_suffix] using hi
  obtain ⟨front, hf⟩ := h
  obtain ⟨front', hf'⟩ := hi
  have last := congrArg List.getLast? (hf.trans hf'.symm)
  simp [Input.extension] at last

theorem ne_nil_of_mem_filesOfEntries {es : List (String × Node)} :
    ∀ names ∈ Node.filesOfEntries es, names ≠ [] := by
  induction es with
  | nil => simp [Node.filesOfEntries]
  | cons e es ih =>
    intro names h
    rw [Node.filesOfEntries, List.mem_append, List.mem_map] at h
    rcases h with ⟨rest, -, rfl⟩ | h
    · simp
    · exact ih names h

theorem filter_isInputPlace_map (name : String) {places : List (List String)}
    (h : ∀ names ∈ places, names ≠ []) :
    (places.map (name :: ·)).filter isInputPlace =
      (places.filter isInputPlace).map (name :: ·) := by
  rw [List.filter_map]
  congr 1
  refine List.filter_congr fun names hn => ?_
  obtain ⟨first, rest, rfl⟩ := List.exists_cons_of_ne_nil (h names hn)
  simp [isInputPlace, List.getLast?_cons]

theorem Grown.inputFiles {es es' : List (String × Node)} (h : Grown es es') :
    (Node.filesOfEntries es').filter isInputPlace =
      (Node.filesOfEntries es).filter isInputPlace := by
  induction h with
  | nil => rfl
  | file _ _ ih => simp only [Node.filesOfEntries, Node.files, List.filter_append, ih]
  | directory _ _ ihi ih =>
    simp only [Node.filesOfEntries, Node.files, List.filter_append, ih,
      filter_isInputPlace_map _ ne_nil_of_mem_filesOfEntries, ihi]
  | newFile hn _ ih =>
    simp only [Node.filesOfEntries, Node.files, List.filter_append, ih, List.map_cons,
      List.map_nil]
    simp [isInputPlace, isInputName_of_isClassName hn]
  | newDirectory _ _ ihi ih =>
    simp only [Node.filesOfEntries, Node.files, List.filter_append, ih,
      filter_isInputPlace_map _ ne_nil_of_mem_filesOfEntries, ihi]
    simp

section Segment

variable {t : FileTree} {trail : Trail} {entries : List (String × Node)} {s : String}
  (hn : t.nodeAt trail = .directory entries) (rest : List String)

include hn

theorem walk_stay (hs : s = "" ∨ s = ".") : t.walk trail (s :: rest) = t.walk trail rest := by
  rw [walk, hn]
  simp [hs]

theorem walk_up : t.walk trail (".." :: rest) = t.walk trail.tail rest := by
  rw [walk, hn]
  simp

theorem walk_enter (hs : isStep s = false) (hlen : s.utf8ByteSize ≤ maxName) {n : Node}
    (hl : entries.lookup s = some n) :
    t.walk trail (s :: rest) = t.walk ((s, n) :: trail) rest := by
  have steps : ¬ (s = "" ∨ s = ".") ∧ s ≠ ".." := by simpa [isStep, or_assoc] using hs
  rw [walk, hn]
  simp [steps.1, steps.2, Nat.not_lt.mpr hlen, hl]

end Segment

theorem walk_cons_eq_ok {t : FileTree} {trail result : Trail} {s : String} {rest : List String}
    (h : t.walk trail (s :: rest) = .ok result) :
    ∃ entries, t.nodeAt trail = .directory entries ∧
      ((s = "" ∨ s = ".") ∧ t.walk trail rest = .ok result ∨
        s = ".." ∧ t.walk trail.tail rest = .ok result ∨
        isStep s = false ∧ s.utf8ByteSize ≤ maxName ∧
          ∃ n, entries.lookup s = some n ∧ t.walk ((s, n) :: trail) rest = .ok result) := by
  rw [walk] at h
  cases hn : t.nodeAt trail with
  | file => rw [hn] at h; cases h
  | directory entries =>
    refine ⟨entries, rfl, ?_⟩
    simp only [hn] at h
    split at h
    · next hs => exact .inl ⟨by simpa using hs, h⟩
    · next hs =>
      split at h
      · next hs' => exact .inr (.inl ⟨hs', h⟩)
      · next hs' =>
        split at h
        · cases h
        · next hlong =>
          split at h
          · cases h
          · next n hl =>
            refine .inr (.inr ⟨?_, Nat.le_of_not_lt hlong, n, hl, h⟩)
            simpa [isStep, hs'] using hs

def KeptTrail (trail trail' : Trail) : Prop :=
  List.Forall₂ (fun e e' => e.1 = e'.1 ∧ Kept e.1 e.2 e'.2) trail trail'

theorem KeptTrail.names {trail trail' : Trail} (h : KeptTrail trail trail') :
    trail'.names = trail.names := by
  have same : trail.map (·.1) = trail'.map (·.1) := by
    induction h with
    | nil => rfl
    | cons he _ ih => rw [List.map_cons, List.map_cons, he.1, ih]
  rw [Trail.names, Trail.names, same]

section Walk

variable {t t' : FileTree} (h : Grown t.entries t'.entries)

include h

theorem nodeAt_directory {trail trail' : Trail} (ht : KeptTrail trail trail')
    {entries : List (String × Node)} (hn : t.nodeAt trail = .directory entries) :
    ∃ entries', t'.nodeAt trail' = .directory entries' ∧ Grown entries entries' := by
  cases ht with
  | nil =>
    cases hn
    exact ⟨_, rfl, h⟩
  | @cons e e' trail trail' he _ =>
    obtain ⟨name, n⟩ := e
    obtain ⟨name', n'⟩ := e'
    cases hn
    cases n' with
    | file => cases he.2
    | directory entries' => exact ⟨entries', rfl, he.2⟩

theorem walk_grown {trail trail' result : Trail} (ht : KeptTrail trail trail')
    {segments : List String} (hw : t.walk trail segments = .ok result) :
    ∃ result', t'.walk trail' segments = .ok result' ∧ KeptTrail result result' := by
  induction segments generalizing trail trail' with
  | nil =>
    cases hw
    exact ⟨trail', rfl, ht⟩
  | cons s segments ih =>
    obtain ⟨entries, hn, hcases⟩ := walk_cons_eq_ok hw
    obtain ⟨entries', hn', hg⟩ := nodeAt_directory h ht hn
    rcases hcases with ⟨hs, hrest⟩ | ⟨rfl, hrest⟩ | ⟨hs, hlen, n, hl, hrest⟩
    · rw [walk_stay hn' segments hs]
      exact ih ht hrest
    · rw [walk_up hn' segments]
      refine ih ?_ hrest
      cases ht with
      | nil => exact .nil
      | cons _ ht => exact ht
    · obtain ⟨n', hl', hk⟩ := hg.lookup hl
      have kept : KeptTrail ((s, n) :: trail) ((s, n') :: trail') := .cons ⟨rfl, hk⟩ ht
      rw [walk_enter hn' segments hs hlen hl']
      exact ih kept hrest

end Walk

inductive Leads (t : FileTree) : Trail → Prop
  | nil : Leads t []
  | cons {name : String} {n : Node} {entries : List (String × Node)} {trail : Trail} :
      t.nodeAt trail = .directory entries → entries.lookup name = some n → Leads t trail →
      Leads t ((name, n) :: trail)

theorem get?_append (n : Node) (names names' : List String) :
    n.get? (names ++ names') = (n.get? names).bind (·.get? names') := by
  induction names generalizing n with
  | nil => simp [Node.get?]
  | cons name names ih =>
    cases n with
    | file => simp [Node.get?]
    | directory entries =>
      rw [List.cons_append, Node.get?, Node.get?]
      cases entries.lookup name with
      | none => rfl
      | some n => exact ih n

theorem Leads.get? {t : FileTree} {trail : Trail} (h : Leads t trail) :
    t.root.get? trail.names = some (t.nodeAt trail) := by
  induction h with
  | nil => simp [Trail.names, Node.get?, nodeAt]
  | @cons name n entries trail hn hl _ ih =>
    have names : Trail.names ((name, n) :: trail) = trail.names ++ [name] := by simp [Trail.names]
    rw [names, get?_append, ih, hn]
    simp [Node.get?, hl, nodeAt]

theorem Leads.tail {t : FileTree} {trail : Trail} (h : Leads t trail) : Leads t trail.tail := by
  cases h with
  | nil => exact .nil
  | cons _ _ h => exact h

theorem walk_append (t : FileTree) (trail : Trail) (segments segments' : List String) :
    t.walk trail (segments ++ segments') =
      (t.walk trail segments).bind fun trail' => t.walk trail' segments' := by
  induction segments generalizing trail with
  | nil => rfl
  | cons s segments ih =>
    rw [List.cons_append, walk, walk]
    cases t.nodeAt trail with
    | file => rfl
    | directory entries =>
      simp only
      split
      · exact ih trail
      · split
        · exact ih trail.tail
        · split
          · rfl
          · split
            · rfl
            · exact ih _

theorem Leads.walk {t : FileTree} {trail result : Trail} (h : Leads t trail)
    {segments : List String} (hw : t.walk trail segments = .ok result) : Leads t result := by
  induction segments generalizing trail with
  | nil =>
    cases hw
    exact h
  | cons s segments ih =>
    obtain ⟨entries, hn, ⟨-, hw⟩ | ⟨-, hw⟩ | ⟨-, -, n, hl, hw⟩⟩ := walk_cons_eq_ok hw
    · exact ih h hw
    · exact ih h.tail hw
    · exact ih (.cons hn hl h) hw

theorem Leads.walk_file {t : FileTree} {trail result : Trail} (h : Leads t trail) {s : String}
    (hw : t.walk trail [s] = .ok result) {c : ByteArray} (hc : t.nodeAt result = .file c) :
    result = (s, .file c) :: trail := by
  obtain ⟨entries, hn, ⟨-, hw⟩ | ⟨-, hw⟩ | ⟨-, -, n, -, hw⟩⟩ := walk_cons_eq_ok hw
  · cases hw
    rw [hn] at hc
    cases hc
  · cases hw
    cases h with
    | nil => cases hc
    | cons hn' _ _ =>
      rw [List.tail_cons, hn'] at hc
      cases hc
  · cases hw
    cases hc
    rfl

theorem suffix_intercalate (front : List String) (last : String) :
    last.toList <:+ ("/".intercalate (front ++ [last])).toList := by
  cases front with
  | nil => simp
  | cons s front =>
    rw [String.intercalate_append_of_ne_nil (by simp) (by simp), String.intercalate_singleton,
      String.toList_append]
    exact List.suffix_append _ _

theorem exists_last_segment (p : String) :
    ∃ front last, Text.split '/' p = front ++ [last] ∧ p = "/".intercalate (front ++ [last]) := by
  obtain ⟨front, last, hs⟩ := (List.eq_nil_or_concat (Text.split '/' p)).resolve_left
    (Text.split_ne_nil '/' p)
  rw [List.concat_eq_append] at hs
  exact ⟨front, last, hs, by rw [← hs, Text.intercalate_split (by simp) p]⟩

theorem node_eq_ok_iff {t : FileTree} {p : String} {n : Node} :
    t.node p = .ok n ↔ pathError? p = none ∧
      ∃ trail, t.walk [] (Text.split '/' p) = .ok trail ∧ t.nodeAt trail = n := by
  rw [node]
  cases pathError? p with
  | some e => simp
  | none => cases t.walk [] (Text.split '/' p) <;> simp

theorem directoryOf_eq_ok_iff {t : FileTree} {p name : String} {names : List String}
    {entries : List (String × Node)} :
    t.directoryOf p = .ok (names, entries, name) ↔ pathError? p = none ∧
      name = (Text.split '/' p).getLast?.getD "" ∧ name.utf8ByteSize ≤ maxName ∧
      ∃ trail, t.walk [] (Text.split '/' p).dropLast = .ok trail ∧
        t.nodeAt trail = .directory entries ∧ trail.names = names := by
  constructor
  · intro h
    rw [directoryOf] at h
    split at h
    · cases h
    · next hp =>
      simp only at h
      split at h
      · cases h
      · next trail hw =>
        split at h
        · cases h
        · next es hn =>
          split at h
          · cases h
          · next hlen =>
            cases h
            exact ⟨hp, rfl, Nat.le_of_not_lt hlen, trail, hw, hn, rfl⟩
  · rintro ⟨hp, rfl, hlen, trail, hw, hn, rfl⟩
    rw [directoryOf, hp]
    simp [hw, hn, Nat.not_lt.mpr hlen]

theorem get?_of_directoryOf {t : FileTree} {p name : String} {names : List String}
    {entries : List (String × Node)} (h : t.directoryOf p = .ok (names, entries, name)) :
    (Node.directory t.entries).get? names = some (.directory entries) := by
  obtain ⟨-, -, -, trail, hw, hn, rfl⟩ := directoryOf_eq_ok_iff.mp h
  rw [← hn]
  exact (Leads.nil.walk hw).get?

section Paths

variable {t t' : FileTree} (h : Grown t.entries t'.entries) {p : String}

include h

theorem node_directory_grown {es : List (String × Node)} (hn : t.node p = .ok (.directory es)) :
    ∃ es', t'.node p = .ok (.directory es') ∧ Grown es es' := by
  obtain ⟨hp, trail, hw, hd⟩ := node_eq_ok_iff.mp hn
  obtain ⟨trail', hw', kept⟩ := walk_grown h .nil hw
  obtain ⟨es', hd', hg⟩ := nodeAt_directory h kept hd
  exact ⟨es', node_eq_ok_iff.mpr ⟨hp, trail', hw', hd'⟩, hg⟩

theorem isDirectory_grown (hd : t.isDirectory p = true) : t'.isDirectory p = true := by
  rw [isDirectory] at hd ⊢
  split at hd
  · next es hn =>
    obtain ⟨es', hn', -⟩ := node_directory_grown h hn
    rw [hn']
  · cases hd

theorem node_file_grown {c : ByteArray} (hn : t.node p = .ok (.file c)) :
    ∃ c', t'.node p = .ok (.file c') ∧ (c' = c ∨ isClassName p = true) := by
  obtain ⟨hp, trail, hw, hc⟩ := node_eq_ok_iff.mp hn
  obtain ⟨trail', hw', kept⟩ := walk_grown h .nil hw
  obtain ⟨front, last, hs, hlast⟩ := exists_last_segment p
  have suffix := suffix_intercalate front last
  rw [← hlast] at suffix
  rw [hs, walk_append] at hw
  cases hf : t.walk [] front with
  | error e => rw [hf] at hw; cases hw
  | ok before =>
    rw [hf] at hw
    obtain rfl := (Leads.nil.walk hf).walk_file hw hc
    cases kept with
    | @cons _ e' _ _ he _ =>
      obtain ⟨name', n'⟩ := e'
      cases n' with
      | directory => cases he.2
      | file c' =>
        refine ⟨c', node_eq_ok_iff.mpr ⟨hp, _, hw', rfl⟩, he.2.imp_right fun hname => ?_⟩
        rw [isClassName, List.isSuffixOf_iff_suffix] at hname ⊢
        exact hname.trans suffix

theorem readText_grown {text : String} (ht : t.readText p = .ok text)
    (hc : isClassName p = false) : t'.readText p = .ok text := by
  rw [readText] at ht ⊢
  split at ht
  · cases ht
  · cases ht
  · next c hn =>
    obtain ⟨c', hn', rfl | hname⟩ := node_file_grown h hn
    · rw [hn']
      exact ht
    · rw [hname] at hc
      cases hc

theorem directoryOf_grown {name : String} {names : List String}
    {entries : List (String × Node)} (hd : t.directoryOf p = .ok (names, entries, name)) :
    ∃ entries', t'.directoryOf p = .ok (names, entries', name) ∧ Grown entries entries' := by
  obtain ⟨hp, hname, hlen, trail, hw, hn, rfl⟩ := directoryOf_eq_ok_iff.mp hd
  obtain ⟨trail', hw', kept⟩ := walk_grown h .nil hw
  obtain ⟨entries', hn', hg⟩ := nodeAt_directory h kept hn
  exact ⟨entries', directoryOf_eq_ok_iff.mpr ⟨hp, hname, hlen, trail', hw', hn', kept.names⟩, hg⟩

end Paths

end Datatypes.FileTree
