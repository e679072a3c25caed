import Datatypes.Proofs.FileTree.Replacement
import Datatypes.Proofs.Path.Components
import Datatypes.Proofs.Traversal

/-!
Writing the same classes twice. The first time makes directories and files; then everything is in
its place, and the second time finds it there: no directory is made, each file is overwritten where
it is, and the tree that is left is the same.
-/

namespace Datatypes

namespace FileTree

section Places

variable {es inner : List (String × Node)} {names ns : List String} {name a : String}
  {c : ByteArray}

theorem hasRoom_of_get? (h : (Node.directory es).get? names = some (.directory inner))
    (hl : ∀ d, inner.lookup name ≠ some (.directory d)) : HasRoom es names name := by
  induction names generalizing es with
  | nil =>
    cases h
    exact hl
  | cons step names ih =>
    obtain ⟨middle, hm, h⟩ := exists_of_get?_cons h
    exact ⟨middle, hm, ih h⟩

theorem Holds.lookup (hh : Holds es names name c)
    (h : (Node.directory es).get? names = some (.directory inner)) :
    inner.lookup name = some (.file c) := by
  induction names generalizing es with
  | nil =>
    cases h
    exact hh
  | cons step names ih =>
    obtain ⟨middle, hm, h⟩ := exists_of_get?_cons h
    obtain ⟨middle', hm', hh⟩ := hh
    obtain rfl : middle = middle' := by simpa [hm] using hm'
    exact ih hh h

theorem get?_setIn (h : (Node.directory es).get? names = some (.directory inner)) (n : Node) :
    (Node.directory (setIn es names name n)).get? names =
      some (.directory (setEntry inner name n)) := by
  induction names generalizing es with
  | nil =>
    cases h
    rfl
  | cons step names ih =>
    obtain ⟨middle, hm, h⟩ := exists_of_get?_cons h
    rw [setIn_cons hm, Node.get?, lookup_setEntry, if_pos rfl]
    exact ih h

end Places

structure Extends (t t' : FileTree) : Prop where
  grown : Grown t.entries t'.entries
  holds : ∀ {ns a c}, Holds t.entries ns a c → Holds t'.entries ns a c

theorem Extends.refl (t : FileTree) : Extends t t := ⟨.refl _, id⟩

theorem Extends.trans {t t' t'' : FileTree} (h : Extends t t') (h' : Extends t' t'') :
    Extends t t'' :=
  ⟨h.grown.trans h'.grown, fun hh => h'.holds (h.holds hh)⟩

variable {t t' : FileTree} {p : String}

theorem makeDirectory_eq_ok (h : t.makeDirectory p = .ok t') :
    ∃ names entries name, t.directoryOf p = .ok (names, entries, name) ∧ isStep name = false ∧
      entries.lookup name = none ∧ t' = t.set names name (.directory []) := by
  rw [makeDirectory] at h
  split at h
  · cases h
  · next names entries name hd =>
    split at h
    · cases h
    · next hs =>
      cases h
      simp only [Bool.or_eq_true, not_or, Bool.not_eq_true, Option.isSome_eq_false_iff,
        Option.isNone_iff_eq_none] at hs
      exact ⟨names, entries, name, hd, hs.1, hs.2, rfl⟩

theorem makeDirectory_extends (h : t.makeDirectory p = .ok t') : Extends t t' := by
  obtain ⟨names, entries, name, hd, -, hl, rfl⟩ := makeDirectory_eq_ok h
  have place := get?_of_directoryOf hd
  refine ⟨grown_setIn place (grown_setEntry_of_none hl (.newDirectory .nil .nil)), fun hh => ?_⟩
  refine hh.setIn_of_ne (hasRoom_of_get? place (by simp [hl])) ?_ _
  rintro ⟨⟩
  rw [hh.lookup place] at hl
  cases hl

theorem isDirectory_of_makeDirectory (h : t.makeDirectory p = .ok t') :
    t'.isDirectory p = true := by
  have grown := (makeDirectory_extends h).grown
  obtain ⟨names, entries, name, hd, hstep, -, rfl⟩ := makeDirectory_eq_ok h
  obtain ⟨entries', hd', -⟩ := directoryOf_grown grown hd
  have place := get?_of_directoryOf hd'
  rw [set, get?_setIn (get?_of_directoryOf hd)] at place
  obtain ⟨hp, hname, hlen, trail, hw, hn, -⟩ := directoryOf_eq_ok_iff.mp hd'
  have found : entries'.lookup name = some (.directory []) := by
    cases place
    rw [lookup_setEntry, if_pos rfl]
  obtain ⟨front, last, hs, -⟩ := exists_last_segment p
  rw [hs] at hname hw
  obtain rfl : name = last := by simpa using hname
  rw [List.dropLast_concat] at hw
  have walked : (t.set names name (.directory [])).walk [] (Text.split '/' p) =
      .ok ((name, .directory []) :: trail) := by
    rw [hs, walk_append, hw]
    exact walk_enter hn [] hstep hlen found
  have node : (t.set names name (.directory [])).node p = .ok (.directory []) :=
    node_eq_ok_iff.mpr ⟨hp, _, walked, rfl⟩
  rw [isDirectory, node]

theorem makeDirectory_of_isDirectory (h : t.isDirectory p = true) :
    t.makeDirectory p = .error .alreadyExists := by
  rw [isDirectory] at h
  split at h
  · next entries hn =>
    obtain ⟨hp, result, hw, hdir⟩ := node_eq_ok_iff.mp hn
    obtain ⟨front, last, hs, -⟩ := exists_last_segment p
    rw [hs, walk_append] at hw
    cases hf : t.walk [] front with
    | error e => rw [hf] at hw; cases hw
    | ok trail =>
      rw [hf] at hw
      obtain ⟨entries, hn, hcases⟩ := walk_cons_eq_ok hw
      have refused (hlen : last.utf8ByteSize ≤ maxName)
          (hs' : (isStep last || (entries.lookup last).isSome) = true) :
          t.makeDirectory p = .error .alreadyExists := by
        have reached : t.directoryOf p = .ok (trail.names, entries, last) := by
          refine directoryOf_eq_ok_iff.mpr ⟨hp, by simp [hs], hlen, trail, ?_, hn, rfl⟩
          rw [hs, List.dropLast_concat, hf]
        rw [makeDirectory, reached]
        exact if_pos hs'
      rcases hcases with ⟨rfl | rfl, -⟩ | ⟨rfl, -⟩ | ⟨-, hlen, n, hl, -⟩
      · exact refused (by decide) rfl
      · exact refused (by decide) rfl
      · exact refused (by decide) rfl
      · exact refused hlen (by simp [hl])
  · cases h

theorem makeDirectories_of_isDirectory (h : p = "" ∨ t.isDirectory p = true) (fuel : Nat) :
    t.makeDirectories fuel p = (t, .ok ()) := by
  rcases h with rfl | h
  · unfold makeDirectories
    exact if_pos rfl
  · unfold makeDirectories
    rw [makeDirectory_of_isDirectory h]
    simp [h]

theorem makeDirectories_eq_ok {fuel : Nat} (h : t.makeDirectories fuel p = (t', .ok ())) :
    t' = t ∧ (p = "" ∨ t.isDirectory p = true) ∨ t.makeDirectory p = .ok t' ∨
      ∃ less above s, fuel = less + 1 ∧ t.makeDirectories less above = (s, .ok ()) ∧
        (t' = s ∧ s.isDirectory p = true ∨ s.makeDirectory p = .ok t') := by
  have found {s : FileTree} {e : FileError}
      (hm : (s, if s.isDirectory p then Except.ok () else .error e) = (t', .ok ())) :
      t' = s ∧ s.isDirectory p = true := by
    split at hm
    · next hd =>
      cases hm
      exact ⟨rfl, hd⟩
    · cases hm
  unfold makeDirectories at h
  split at h
  · next hp =>
    cases h
    exact .inl ⟨rfl, .inl hp⟩
  · split at h
    · next hm =>
      cases h
      exact .inr (.inl hm)
    · split at h
      · next less above _ _ =>
        split at h
        · cases h
        · next s hs =>
          refine .inr (.inr ⟨less, above, s, rfl, hs, ?_⟩)
          split at h
          · next hm =>
            cases h
            exact .inr hm
          · exact .inl (found h)
      · obtain ⟨rfl, hd⟩ := found h
        exact .inl ⟨rfl, .inr hd⟩

theorem makeDirectories_extends {fuel : Nat} (h : t.makeDirectories fuel p = (t', .ok ())) :
    Extends t t' ∧ (p = "" ∨ t'.isDirectory p = true) := by
  induction fuel using Nat.strongRecOn generalizing t t' p with
  | ind fuel ih =>
    obtain ⟨rfl, hd⟩ | hm | ⟨less, above, s, rfl, hs, hp⟩ := makeDirectories_eq_ok h
    · exact ⟨.refl t', hd⟩
    · exact ⟨makeDirectory_extends hm, .inr (isDirectory_of_makeDirectory hm)⟩
    · obtain ⟨before, -⟩ := ih less (by omega) hs
      obtain ⟨rfl, hd⟩ | hm := hp
      · exact ⟨before, .inr hd⟩
      · exact ⟨before.trans (makeDirectory_extends hm), .inr (isDirectory_of_makeDirectory hm)⟩

theorem write_eq_ok {c : ByteArray} (h : t.write p c = .ok t') :
    ∃ names entries name, t.directoryOf p = .ok (names, entries, name) ∧ isStep name = false ∧
      (∀ d, entries.lookup name ≠ some (.directory d)) ∧ t' = t.set names name (.file c) := by
  rw [write] at h
  split at h
  · cases h
  · next names entries name hd =>
    split at h
    · cases h
    · next hs =>
      split at h
      · cases h
      · next hl =>
        cases h
        exact ⟨names, entries, name, hd, by simpa using hs, hl, rfl⟩

theorem grown_setEntry_file {es : List (String × Node)} {name : String} (c : ByteArray)
    (hl : ∀ d, es.lookup name ≠ some (.directory d)) (hn : isClassName name = true) :
    Grown es (setEntry es name (.file c)) := by
  cases he : es.lookup name with
  | none => exact grown_setEntry_of_none he (.newFile hn .nil)
  | some n =>
    cases n with
    | file c' => exact grown_setEntry_of_some he (.inr hn)
    | directory d => exact absurd he (hl d)

end FileTree

namespace Path

open FileTree (isStep isClassName)

def IsClassFile (p : String) : Prop :=
  isStep ((Text.split '/' p).getLast?.getD "") = true ∨
    isClassName ((Text.split '/' p).getLast?.getD "") = true

theorem isStep_of_fromLast {s : String} {before : List String}
    (h : fromLast (s :: before) ≠ s :: before) : isStep s = true := by
  rw [fromLast] at h
  split at h
  · next hs =>
    simp only [Bool.or_eq_true, Bool.and_eq_true, decide_eq_true_eq] at hs
    rcases hs with rfl | ⟨rfl, -⟩ <;> rfl
  · exact absurd rfl h

theorem isClassFile_of_backward {p : String}
    (h : ∀ name before, backward p = name :: before → name = "." ∨ name = "..") :
    IsClassFile p := by
  left
  obtain ⟨front, last, hs, -⟩ := FileTree.exists_last_segment p
  rw [hs, List.getLast?_concat, Option.getD_some]
  have reversed : (Text.split '/' p).reverse = last :: front.reverse := by simp [hs]
  by_cases hb : fromLast (last :: front.reverse) = last :: front.reverse
  · rw [backward, reversed] at h
    rcases h last front.reverse hb with rfl | rfl <;> rfl
  · exact isStep_of_fromLast hb

theorem isClassFile_withExtension (p : String) : IsClassFile (withExtension p "php") := by
  rcases named_or_unnamed p with ⟨name, before, hb, hn⟩ | unnamed
  · right
    rw [split_withExtension hb hn (by decide), List.reverse_cons, List.getLast?_concat,
      Option.getD_some, FileTree.isClassName, List.isSuffixOf_iff_suffix, String.append_assoc,
      String.toList_append]
    exact List.suffix_append _ _
  · rw [withExtension_of_unnamed unnamed]
    exact isClassFile_of_backward unnamed

theorem exists_pathBelow {r : Resolver} {class_ p : String} (h : r.path? class_ = some p) :
    ∃ directory segments, Autoload.pathBelow directory segments = p := by
  cases r with
  | below directory =>
    rw [Resolver.path?] at h
    split at h
    · cases h
    · exact ⟨directory, _, Option.some.inj h⟩
  | autoload map =>
    rw [Resolver.path?, Autoload.path?] at h
    split at h
    · next directory rest _ => exact ⟨directory, _, Option.some.inj h⟩
    · split at h
      · next e _ => exact ⟨e.directory, _, Option.some.inj h⟩
      · cases h

theorem isClassFile_resolve {r : Resolver} {class_ p : String} (h : r.resolve class_ = .ok p) :
    IsClassFile p := by
  rw [Resolver.resolve] at h
  cases hp : r.path? (Text.dropLeading '\\' class_) with
  | none => simp [hp] at h
  | some q =>
    obtain ⟨directory, segments, hq⟩ := exists_pathBelow hp
    obtain rfl : q = p := by simpa [hp] using h
    rw [← hq]
    exact isClassFile_withExtension _

end Path

namespace Emit

open FileTree

variable {t t' s : FileTree} {path : String} {w : Entry}

structure Ready (t : FileTree) (path : String) (w : Entry) : Prop where
  parent : ∀ directory, Path.parent? path = some directory →
    directory = "" ∨ t.isDirectory directory = true
  target : ∃ entries, t.directoryOf path = .ok (w.names, entries, w.name)
  named : isStep w.name = false ∧ isClassName w.name = true

theorem Ready.grown (h : Ready t path w) (hg : Grown t.entries s.entries) : Ready s path w where
  parent directory hp := (h.parent directory hp).imp_right (isDirectory_grown hg)
  target := by
    obtain ⟨entries, hd⟩ := h.target
    obtain ⟨entries', hd', -⟩ := directoryOf_grown hg hd
    exact ⟨entries', hd'⟩
  named := h.named

theorem makeParent_eq_ok (h : makeParent t path = (t', .ok ())) :
    Extends t t' ∧ ∀ directory, Path.parent? path = some directory →
      directory = "" ∨ t'.isDirectory directory = true := by
  rw [makeParent] at h
  split at h
  · next hp =>
    cases h
    refine ⟨.refl t, fun directory hp' => ?_⟩
    rw [hp] at hp'
    cases hp'
  · next directory hp =>
    split at h
    · next s hm =>
      cases h
      obtain ⟨extended, hd⟩ := makeDirectories_extends hm
      refine ⟨extended, fun directory' hp' => ?_⟩
      rw [hp] at hp'
      cases hp'
      exact hd
    · cases h

theorem Ready.makeParent (h : Ready t path w) : makeParent t path = (t, .ok ()) := by
  rw [Emit.makeParent]
  cases hp : Path.parent? path with
  | none => rfl
  | some directory => simp only [makeDirectories_of_isDirectory (h.parent directory hp)]

theorem Ready.writeUnit {unit : SourceUnit} {c : ByteArray} (h : Ready t path w)
    (hh : Holds t.entries w.names w.name c) (hc : w.content = unit.source.toUTF8) :
    writeUnit t path unit = (⟨w.put t.entries⟩, .ok ()) := by
  obtain ⟨entries, hd⟩ := h.target
  rw [Emit.writeUnit, h.makeParent]
  simp only [write, hd, h.named.1, hh.lookup (get?_of_directoryOf hd), ← hc]
  rfl

theorem Ready.grown_put (h : Ready t path w) {c : ByteArray}
    (hh : Holds t.entries w.names w.name c) : Grown t.entries (w.put t.entries) := by
  obtain ⟨entries, hd⟩ := h.target
  have place := get?_of_directoryOf hd
  exact grown_setIn place (grown_setEntry_of_some (hh.lookup place) (.inr h.named.2))

theorem ready_of_writeUnit {unit : SourceUnit} (hp : Path.IsClassFile path)
    (h : writeUnit t path unit = (t', .ok ())) :
    ∃ w : Entry, w.content = unit.source.toUTF8 ∧ Ready t' path w ∧ Grown t.entries t'.entries ∧
      Holds t'.entries w.names w.name w.content ∧
      ∀ ns a c, Holds t.entries ns a c →
        Holds t'.entries ns a (if w.place = (ns, a) then w.content else c) := by
  rw [Emit.writeUnit] at h
  split at h
  · cases h
  · next s hs =>
    split at h
    · cases h
    · next hw =>
      cases h
      obtain ⟨extended, parent⟩ := makeParent_eq_ok hs
      obtain ⟨names, entries, name, hd, hstep, hl, rfl⟩ := write_eq_ok hw
      have hname : isClassName name = true := by
        obtain ⟨-, rfl, -⟩ := directoryOf_eq_ok_iff.mp hd
        exact hp.resolve_left (by simp [hstep])
      have place := get?_of_directoryOf hd
      have room := hasRoom_of_get? place hl
      have grown := grown_setIn place (grown_setEntry_file unit.source.toUTF8 hl hname)
      have ready : Ready s path ⟨names, name, unit.source.toUTF8⟩ :=
        ⟨parent, ⟨entries, hd⟩, hstep, hname⟩
      exact ⟨⟨names, name, unit.source.toUTF8⟩, rfl, ready.grown grown,
        extended.grown.trans grown, holds_setIn room _,
        fun ns a c hh => Holds.put (w := ⟨names, name, _⟩) (extended.holds hh) room⟩

variable {pairs : List (String × SourceUnit)} {ws : List Entry}

def Entries (t : FileTree) : List (String × SourceUnit) → List Entry → Prop :=
  List.Forall₂ fun pair w => Ready t pair.1 w ∧ w.content = pair.2.source.toUTF8

theorem Entries.grown (h : Entries t pairs ws) (hg : Grown t.entries s.entries) :
    Entries s pairs ws :=
  h.imp fun _ _ hw => ⟨hw.1.grown hg, hw.2⟩

theorem settled_of_writeAll (hp : ∀ pair ∈ pairs, Path.IsClassFile pair.1)
    (h : writeAll t pairs = (t', .ok ())) :
    ∃ ws, Entries t' pairs ws ∧ Settled t'.entries ws ∧ Grown t.entries t'.entries ∧
      ∀ ns a c, Holds t.entries ns a c → Holds t'.entries ns a (leftAt (ns, a) c ws) := by
  induction pairs generalizing t with
  | nil =>
    cases h
    exact ⟨[], .nil, trivial, .refl _, fun _ _ _ hh => hh⟩
  | cons pair pairs ih =>
    obtain ⟨path, unit⟩ := pair
    rw [writeAll] at h
    split at h
    · cases h
    · next s hs =>
      obtain ⟨w, hc, ready, grown, written, kept⟩ :=
        ready_of_writeUnit (hp (path, unit) (by simp)) hs
      obtain ⟨ws, entries, settled, grown', kept'⟩ :=
        ih (fun pair hpair => hp pair (List.mem_cons_of_mem _ hpair)) h
      exact ⟨w :: ws, .cons ⟨ready.grown grown', hc⟩ entries,
        ⟨kept' w.names w.name w.content written, settled⟩, grown.trans grown',
        fun ns a c hh => kept' ns a _ (kept ns a c hh)⟩

theorem Entries.writeAll (h : Entries t pairs ws)
    (hh : ∀ w ∈ ws, ∃ c, Holds t.entries w.names w.name c) :
    writeAll t pairs = (⟨putAll t.entries ws⟩, .ok ()) := by
  induction pairs generalizing t ws with
  | nil =>
    cases h
    rfl
  | cons pair pairs ih =>
    obtain ⟨path, unit⟩ := pair
    cases h with
    | @cons _ w _ ws hw rest =>
      obtain ⟨ready, hc⟩ := hw
      obtain ⟨c, held⟩ := hh w (by simp)
      have rest' : Entries ⟨w.put t.entries⟩ pairs ws :=
        Entries.grown rest (ready.grown_put held)
      rw [Emit.writeAll, ready.writeUnit held hc]
      refine ih rest' fun v hv => ?_
      obtain ⟨d, hd⟩ := hh v (List.mem_cons_of_mem _ hv)
      exact ⟨_, hd.put held.hasRoom⟩

theorem emit_again {r : Resolver} {units : List SourceUnit} {paths : List String}
    (h : emit r units t = (t', .ok paths)) :
    Grown t.entries t'.entries ∧ emit r units t' = (t', .ok paths) := by
  rw [emit_eq] at h
  split at h
  · cases h
  · next targets found =>
    have classFiles : ∀ pair ∈ targets.zip units, Path.IsClassFile pair.1 := by
      intro pair hpair
      rw [paths_eq_mapM] at found
      obtain ⟨u, -, resolved⟩ := exists_source_of_mapM found (List.of_mem_zip hpair).1
      exact Path.isClassFile_resolve resolved
    split at h
    · cases h
    · next written =>
      cases h
      obtain ⟨ws, entries, settled, grown, -⟩ := settled_of_writeAll classFiles written
      have again : Emit.writeAll t' (paths.zip units) = (t', .ok ()) := by
        rw [entries.writeAll settled.holds, settled.putAll]
      exact ⟨grown, by simp only [emit_eq, found, again]⟩

end Emit

end Datatypes
