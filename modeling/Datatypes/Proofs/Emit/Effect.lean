import Datatypes.Proofs.Emit.Rewriting
import Datatypes.Proofs.FileTree.Places

/-!
What the writing of classes does to a tree. Nothing is written unless every class has a path. Each
class changes one place, that of its file, and otherwise only makes directories on the way there, so
that at every place the last class counts. Where a class cannot be written, those before it have
been written as if they were the only ones, and only directories on its way may be new.
-/

namespace Datatypes

namespace FileTree

variable {t t' s : FileTree} {p path : String} {names : List String} {name : String}
  {entries : List (String × Node)}

theorem keeps_of_item? {place : List String} {i : Item} (free : t.item? place ≠ some .directory)
    (items : ∀ x, t'.item? x = if x = place then some i else t.item? x) : Keeps t t' := by
  intro x old hold
  rw [items]
  split
  · next hx =>
    refine ⟨i, rfl, ?_⟩
    rintro rfl
    exact absurd (hx ▸ hold) free
  · exact ⟨old, hold, id⟩

theorem item?_ne_directory (h : t.root.get? names = some (.directory entries))
    (hroom : ∀ d, entries.lookup name ≠ some (.directory d)) :
    t.item? (names ++ [name]) ≠ some .directory := by
  rw [item?_concat h]
  intro hold
  obtain ⟨old, hl, hold⟩ := Option.map_eq_some_iff.mp hold
  obtain ⟨d, rfl⟩ := Node.item_eq_directory_iff.mp hold
  exact hroom d hl

theorem keeps_set {n : Node} (h : t.root.get? names = some (.directory entries))
    (hroom : ∀ d, entries.lookup name ≠ some (.directory d))
    (hn : ∀ s rest, n.get? (s :: rest) = none) : Keeps t (t.set names name n) :=
  keeps_of_item? (item?_ne_directory h hroom) (item?_set h hroom hn)

theorem place?_set {n : Node} (hd : t.directoryOf p = .ok (names, entries, name))
    (hs : isStep name = false) (hroom : ∀ d, entries.lookup name ≠ some (.directory d))
    (hn : ∀ s rest, n.get? (s :: rest) = none) :
    (t.set names name n).place? p = some (names ++ [name]) := by
  have place := get?_of_directoryOf hd
  obtain ⟨entries', hd'⟩ := (keeps_set place hroom hn).directoryOf hd
  have there : (t.set names name n).item? (names ++ [name]) = some n.item := by
    rw [item?_set place hroom hn, if_pos rfl]
  rw [item?_concat (get?_of_directoryOf hd'), Option.map_eq_some_iff] at there
  obtain ⟨n', hl, -⟩ := there
  exact place?_of_directoryOf hd' hs hl

theorem item?_of_makeDirectory (h : t.makeDirectory p = .ok t') :
    ∃ place, t.item? place = none ∧ t'.place? p = some place ∧
      ∀ x, t'.item? x = if x = place then some .directory else t.item? x := by
  obtain ⟨names, entries, name, hd, hs, hl, rfl⟩ := makeDirectory_eq_ok h
  have room : ∀ d, entries.lookup name ≠ some (.directory d) := by simp [hl]
  have place := get?_of_directoryOf hd
  refine ⟨names ++ [name], ?_, place?_set hd hs room ?_, item?_set place room ?_⟩
  · rw [item?_concat place, hl, Option.map_none]
  all_goals simp [Node.get?]

theorem item?_of_write {content : ByteArray} (h : t.write p content = .ok t') :
    ∃ place, t.item? place ≠ some .directory ∧ t'.place? p = some place ∧
      ∀ x, t'.item? x = if x = place then some (.file content) else t.item? x := by
  obtain ⟨names, entries, name, hd, hs, room, rfl⟩ := write_eq_ok h
  have place := get?_of_directoryOf hd
  refine ⟨names ++ [name], item?_ne_directory place room, place?_set hd hs room ?_,
    item?_set place room ?_⟩
  all_goals simp [Node.get?]

structure Opened (path : String) (t t' : FileTree) : Prop where
  kept : ∀ place i, t.item? place = some i → t'.item? place = some i
  made : ∀ place, t'.item? place ≠ t.item? place →
    t'.item? place = some .directory ∧ ∃ q, Path.Above q path ∧ t'.place? q = some place

theorem Opened.keeps (h : Opened path t t') : Keeps t t' :=
  fun place i hi => ⟨i, h.kept place i hi, id⟩

theorem Opened.refl (path : String) (t : FileTree) : Opened path t t :=
  ⟨fun _ _ h => h, fun _ h => absurd rfl h⟩

theorem Opened.trans (h : Opened path t s) (h' : Opened path s t') : Opened path t t' where
  kept place i hi := h'.kept place i (h.kept place i hi)
  made place hne := by
    by_cases later : t'.item? place = s.item? place
    · rw [later] at hne ⊢
      obtain ⟨hd, q, above, hq⟩ := h.made place hne
      exact ⟨hd, q, above, h'.keeps.place? hq⟩
    · exact h'.made place later

theorem opened_of_makeDirectory (above : Path.Above p path) (h : t.makeDirectory p = .ok t') :
    Opened path t t' := by
  obtain ⟨place, none, hp, items⟩ := item?_of_makeDirectory h
  constructor
  · intro x i hi
    rw [items, if_neg, hi]
    rintro rfl
    rw [none] at hi
    cases hi
  · intro x hne
    rw [items] at hne ⊢
    split
    · next hx => exact ⟨rfl, p, above, hx ▸ hp⟩
    · next hx => exact absurd (if_neg hx) hne

theorem makeDirectories_cases {fuel : Nat} {result : Except FileError Unit}
    (h : t.makeDirectories fuel p = (t', result)) :
    t' = t ∨ t.makeDirectory p = .ok t' ∨
      ∃ less above s r, fuel = less + 1 ∧ Path.parent? p = some above ∧
        t.makeDirectories less above = (s, r) ∧ (t' = s ∨ s.makeDirectory p = .ok t') := by
  unfold makeDirectories at h
  split at h
  · cases h
    exact .inl rfl
  · split at h
    · next hm =>
      cases h
      exact .inr (.inl hm)
    · split at h
      · next less above hparent _ =>
        refine .inr (.inr ⟨less, above, ?_⟩)
        split at h
        · next hs =>
          cases h
          exact ⟨t', _, rfl, hparent, hs, .inl rfl⟩
        · next s hs =>
          refine ⟨s, _, rfl, hparent, hs, ?_⟩
          split at h
          · next hm =>
            cases h
            exact .inr hm
          · cases h
            exact .inl rfl
      · cases h
        exact .inl rfl

theorem opened_of_makeDirectories {fuel : Nat} {result : Except FileError Unit}
    (above : Path.Above p path) (h : t.makeDirectories fuel p = (t', result)) :
    Opened path t t' := by
  induction fuel using Nat.strongRecOn generalizing t t' p result with
  | ind fuel ih =>
    obtain rfl | hm | ⟨less, q, s, r, rfl, hq, hs, hp⟩ := makeDirectories_cases h
    · exact .refl path t'
    · exact opened_of_makeDirectory above hm
    · have before := ih less (by omega) ((Path.above_of_parent? hq).trans above) hs
      obtain rfl | hm := hp
      · exact before
      · exact before.trans (opened_of_makeDirectory above hm)

end FileTree

namespace Emit

open FileTree

variable {t t' : FileTree} {path : String} {unit : SourceUnit} {e : GenerationError}
  {pairs : List (String × SourceUnit)}

def IsWriteFailure (path : String) (e : GenerationError) : Prop :=
  ∃ q cause, e = .notWritten q cause ∧ (q = path ∨ Path.parent? path = some q)

theorem opened_of_makeParent {result : Except GenerationError Unit}
    (h : makeParent t path = (t', result)) :
    Opened path t t' ∧ ∀ e, result = .error e → IsWriteFailure path e := by
  rw [makeParent] at h
  split at h
  · cases h
    exact ⟨.refl path t, by simp⟩
  · next directory hp =>
    have above := Path.above_of_parent? hp
    split at h
    · next hm =>
      cases h
      exact ⟨opened_of_makeDirectories above hm, by simp⟩
    · next cause hm =>
      cases h
      refine ⟨opened_of_makeDirectories above hm, ?_⟩
      rintro e ⟨⟩
      exact ⟨directory, cause, rfl, .inr hp⟩

theorem item?_of_writeUnit (h : writeUnit t path unit = (t', .ok ())) :
    ∃ s place, Opened path t s ∧ s.item? place ≠ some .directory ∧ t'.place? path = some place ∧
      ∀ x, t'.item? x = if x = place then some (.file unit.source.toUTF8) else s.item? x := by
  rw [writeUnit] at h
  split at h
  · cases h
  · next s hs =>
    split at h
    · cases h
    · next hw =>
      cases h
      obtain ⟨place, free, hp, items⟩ := item?_of_write hw
      exact ⟨s, place, (opened_of_makeParent hs).1, free, hp, items⟩

theorem opened_of_writeUnit (h : writeUnit t path unit = (t', .error e)) :
    Opened path t t' ∧ IsWriteFailure path e := by
  rw [writeUnit] at h
  split at h
  · next hs =>
    cases h
    obtain ⟨opened, failure⟩ := opened_of_makeParent hs
    exact ⟨opened, failure _ rfl⟩
  · next hs =>
    split at h
    · next cause hw =>
      cases h
      exact ⟨(opened_of_makeParent hs).1, path, cause, rfl, .inl rfl⟩
    · cases h

theorem keeps_of_writeUnit (h : writeUnit t path unit = (t', .ok ())) : Keeps t t' := by
  obtain ⟨s, place, opened, free, -, items⟩ := item?_of_writeUnit h
  exact opened.keeps.trans (keeps_of_item? free items)

/-- The classes stand in the files to which their paths lead, and nothing else has changed but for
directories on the way there. -/
structure Written (pairs : List (String × SourceUnit)) (t t' : FileTree) : Prop where
  leads : ∀ pair ∈ pairs, ∃ place, t'.place? pair.1 = some place
  last : ∀ before path unit after place, pairs = before ++ (path, unit) :: after →
    t'.place? path = some place → (∀ later ∈ after, t'.place? later.1 ≠ some place) →
    t'.item? place = some (.file unit.source.toUTF8)
  others : ∀ place content, (∀ pair ∈ pairs, t'.place? pair.1 ≠ some place) →
    (t'.item? place = some (.file content) ↔ t.item? place = some (.file content))
  directories : ∀ place, t.item? place = some .directory → t'.item? place = some .directory
  made : ∀ place, t'.item? place = some .directory → t.item? place ≠ some .directory →
    ∃ pair ∈ pairs, ∃ q, Path.Above q pair.1 ∧ t'.place? q = some place

theorem keeps_of_writeAll (h : writeAll t pairs = (t', .ok ())) : Keeps t t' := by
  induction pairs generalizing t with
  | nil =>
    cases h
    exact .refl t'
  | cons pair pairs ih =>
    rw [writeAll] at h
    split at h
    · cases h
    · next s hs => exact (keeps_of_writeUnit hs).trans (ih h)

theorem written_nil (t : FileTree) : Written [] t t where
  leads := by simp
  last := by simp
  others := by simp
  directories _ hd := hd
  made _ hd hne := absurd hd hne

theorem Written.cons {s : FileTree} (hu : writeUnit t path unit = (s, .ok ())) (hk : Keeps s t')
    (h : Written pairs s t') : Written ((path, unit) :: pairs) t t' := by
  have kept := (keeps_of_writeUnit hu).trans hk
  obtain ⟨o, own, opened, free, hown, items⟩ := item?_of_writeUnit hu
  have leads := hk.place? hown
  have elsewhere {x : List String} (hx : x ≠ own) : s.item? x = o.item? x := by
    rw [items, if_neg hx]
  refine ⟨?_, ?_, ?_, fun place hd => kept.directory hd, ?_⟩
  · rintro pair (_ | ⟨_, hpair⟩)
    · exact ⟨own, leads⟩
    · exact h.leads pair hpair
  · intro before path' unit' after place heq hplace hlast
    rcases List.append_eq_cons_iff.mp heq.symm with ⟨rfl, hcons⟩ | ⟨more, rfl, hrest⟩
    · cases hcons
      obtain rfl : own = place := by simpa [leads] using hplace
      refine (h.others own _ hlast).mpr ?_
      rw [items, if_pos rfl]
    · exact h.last more path' unit' after place hrest hplace hlast
  · intro place content hne
    have apart : place ≠ own := by
      rintro rfl
      exact hne (path, unit) (by simp) leads
    rw [h.others place content fun pair hpair => hne pair (by simp [hpair]), elsewhere apart]
    constructor
    · intro hf
      by_contra changed
      have other := (opened.made place fun same => changed (same ▸ hf)).1
      rw [hf] at other
      cases other
    · exact opened.kept place _
  · intro place hd hne
    by_cases before : s.item? place = some .directory
    · have apart : place ≠ own := by
        rintro rfl
        rw [items, if_pos rfl] at before
        cases before
      rw [elsewhere apart] at before
      obtain ⟨-, q, above, hq⟩ := opened.made place fun same => hne (same ▸ before)
      exact ⟨(path, unit), by simp, q, above,
        ((keeps_of_item? free items).trans hk).place? hq⟩
    · obtain ⟨pair, hpair, q, above, hq⟩ := h.made place hd before
      exact ⟨pair, by simp [hpair], q, above, hq⟩

theorem written_of_writeAll (h : writeAll t pairs = (t', .ok ())) : Written pairs t t' := by
  induction pairs generalizing t with
  | nil =>
    cases h
    exact written_nil t'
  | cons pair pairs ih =>
    rw [writeAll] at h
    split at h
    · cases h
    · next s hs => exact .cons hs (keeps_of_writeAll h) (ih h)

theorem exists_of_writeAll_eq_error (h : writeAll t pairs = (t', .error e)) :
    ∃ before path unit after s, pairs = before ++ (path, unit) :: after ∧
      writeAll t before = (s, .ok ()) ∧ Opened path s t' ∧ IsWriteFailure path e := by
  induction pairs generalizing t with
  | nil => cases h
  | cons pair pairs ih =>
    obtain ⟨path, unit⟩ := pair
    rw [writeAll] at h
    split at h
    · next hs =>
      cases h
      obtain ⟨opened, failure⟩ := opened_of_writeUnit hs
      exact ⟨[], path, unit, pairs, t, rfl, rfl, opened, failure⟩
    · next s hs =>
      obtain ⟨before, path', unit', after, s', rfl, written, opened, failure⟩ := ih h
      refine ⟨(path, unit) :: before, path', unit', after, s', rfl, ?_, opened, failure⟩
      rw [writeAll, hs]
      exact written

variable {resolve : String → Except GenerationError String} {units before after : List SourceUnit}
  {paths : List String}

def Resolved (resolve : String → Except GenerationError String) (units : List SourceUnit)
    (paths : List String) : Prop :=
  List.Forall₂ (fun unit path => resolve unit.className = .ok path) units paths

theorem pathsBy_eq_ok_iff : pathsBy resolve units = .ok paths ↔ Resolved resolve units paths := by
  rw [pathsBy_eq_mapM, mapM_eq_ok_iff, Resolved]

theorem pathsBy_of_unresolved (hb : ∀ u ∈ before, ∃ path, resolve u.className = .ok path)
    (hu : resolve unit.className = .error e) :
    pathsBy resolve (before ++ unit :: after) = .error e := by
  induction before with
  | nil => simp only [List.nil_append, pathsBy, hu]
  | cons u before ih =>
    obtain ⟨path, hpath⟩ := hb u (by simp)
    simp only [List.cons_append, pathsBy, hpath, ih fun v hv => hb v (by simp [hv])]

theorem emitBy_of_writeAll (hr : Resolved resolve units paths)
    (hw : writeAll t (paths.zip units) = (t', .ok ())) :
    emitBy resolve units t = (t', .ok paths) := by
  simp only [emitBy, pathsBy_eq_ok_iff.mpr hr, hw]

theorem emitBy_eq_ok (h : emitBy resolve units t = (t', .ok paths)) :
    Resolved resolve units paths ∧ writeAll t (paths.zip units) = (t', .ok ()) := by
  rw [emitBy] at h
  split at h
  · cases h
  · next hp =>
    split at h
    · cases h
    · next hw =>
      cases h
      exact ⟨pathsBy_eq_ok_iff.mp hp, hw⟩

theorem writeAll_of_emitBy_eq_error (hr : Resolved resolve units paths)
    (h : emitBy resolve units t = (t', .error e)) :
    writeAll t (paths.zip units) = (t', .error e) := by
  simp only [emitBy, pathsBy_eq_ok_iff.mpr hr] at h
  split at h
  · next hw =>
    cases h
    exact hw
  · cases h

theorem Resolved.split (h : Resolved resolve units paths) {front back : List (String × SourceUnit)}
    (hz : paths.zip units = front ++ (path, unit) :: back) :
    units = front.map (·.2) ++ unit :: back.map (·.2) ∧
      paths = front.map (·.1) ++ path :: back.map (·.1) ∧
      Resolved resolve (front.map (·.2)) (front.map (·.1)) := by
  have same := List.Forall₂.length_eq h
  have snds : units = (paths.zip units).map (·.2) :=
    (List.map_snd_zip (Nat.le_of_eq same)).symm
  have fsts : paths = (paths.zip units).map (·.1) :=
    (List.map_fst_zip (Nat.le_of_eq same.symm)).symm
  rw [hz, List.map_append, List.map_cons] at snds fsts
  refine ⟨snds, fsts, ?_⟩
  have taken := List.forall₂_take front.length h
  rwa [snds, fsts, List.take_left' (by simp), List.take_left' (by simp)] at taken

/-- Without all paths nothing is written. Else each path leads to the source of the last class that
has its place, and nothing else has changed but for directories above the paths; or a class cannot
be written, those before it are as they would be alone, and only directories above its path are
new. -/
theorem emitBy_effect (resolve : String → Except GenerationError String)
    (units : List SourceUnit) (t : FileTree) :
    (∀ before unit after e, units = before ++ unit :: after →
      (∀ u ∈ before, ∃ path, resolve u.className = .ok path) →
      resolve unit.className = .error e → emitBy resolve units t = (t, .error e)) ∧
    (∀ t' paths, emitBy resolve units t = (t', .ok paths) →
      Resolved resolve units paths ∧ Written (paths.zip units) t t') ∧
    (∀ t' e paths, Resolved resolve units paths → emitBy resolve units t = (t', .error e) →
      ∃ before unit after front path back s, units = before ++ unit :: after ∧
        paths = front ++ path :: back ∧ emitBy resolve before t = (s, .ok front) ∧
        Opened path s t' ∧ IsWriteFailure path e) := by
  refine ⟨?_, ?_, ?_⟩
  · rintro before unit after e rfl hb hu
    rw [emitBy, pathsBy_of_unresolved hb hu]
  · intro t' paths h
    obtain ⟨resolved, written⟩ := emitBy_eq_ok h
    exact ⟨resolved, written_of_writeAll written⟩
  · intro t' e paths hr h
    obtain ⟨front, path, unit, back, s, hz, written, opened, failure⟩ :=
      exists_of_writeAll_eq_error (writeAll_of_emitBy_eq_error hr h)
    obtain ⟨hunits, hpaths, resolved⟩ := hr.split hz
    refine ⟨_, unit, _, _, path, _, s, hunits, hpaths, ?_, opened, failure⟩
    refine emitBy_of_writeAll resolved ?_
    rwa [List.zip_map', List.map_id']

def sharedFile : List SourceUnit :=
  [⟨"out/A", "first"⟩, ⟨"out/./A", "second"⟩, ⟨"out/A/B", "third"⟩]

theorem emitBy_effect_sharedFile :
    Written [("out/A", ⟨"out/A", "first"⟩), ("out/./A", ⟨"out/./A", "second"⟩)] ⟨[]⟩
        ⟨[("out", .directory [("A", .file "second".toUTF8)])]⟩ ∧
      ∃ before unit after front path back s, sharedFile = before ++ unit :: after ∧
        ["out/A", "out/./A", "out/A/B"] = front ++ path :: back ∧
        emitBy .ok before ⟨[]⟩ = (s, .ok front) ∧
        Opened path s ⟨[("out", .directory [("A", .file "second".toUTF8)])]⟩ ∧
        IsWriteFailure path (.notWritten "out/A" .alreadyExists) := by
  constructor
  · exact ((emitBy_effect .ok (sharedFile.take 2) ⟨[]⟩).2.1 _ ["out/A", "out/./A"] rfl).2
  · refine (emitBy_effect .ok sharedFile ⟨[]⟩).2.2 _ _ _ ?_ rfl
    exact .cons rfl (.cons rfl (.cons rfl .nil))

end Emit

end Datatypes
