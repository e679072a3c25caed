import Datatypes.Proofs.Text.Dictionary
import Datatypes.Proofs.Text.Segments
import Datatypes.Proofs.Traversal

/-!
Which directory a class belongs to. Of the keys that the name of a class starts with, the longest
one counts, and of two entries with one key that of the main section; the older standard is asked
only if no key of the newer one fits. A manifest is refused exactly if one of its entries names no
directory.
-/

namespace Datatypes

namespace Manifest

def maps (m : Manifest) : List (Dictionary Json) :=
  [m.main.psr4, m.main.psr0, m.development.psr4, m.development.psr0]

def psr4Keys (m : Manifest) : List String := m.main.psr4.keys ++ m.development.psr4.keys

end Manifest

namespace Autoload

open Text

inductive NamesDirectory : Json → String → Prop
  | single (directory : String) : NamesDirectory (.string directory) directory
  | first (directory : String) (rest : List Json) :
      NamesDirectory (.array (.string directory :: rest)) directory

theorem firstDirectory?_eq_some_iff {v : Json} {directory : String} :
    firstDirectory? v = some directory ↔ NamesDirectory v directory := by
  constructor
  · intro h
    unfold firstDirectory? at h
    split at h
    · cases h
      exact .single directory
    · cases h
      exact .first directory _
    · cases h
  · rintro (_ | _) <;> rfl

theorem firstDirectory?_eq_none_iff {v : Json} :
    firstDirectory? v = none ↔ ∀ directory, ¬ NamesDirectory v directory := by
  simp only [← firstDirectory?_eq_some_iff, ← Option.eq_none_iff_forall_ne_some]

section Maps

variable {standard : Standard} {base : String} {dict : Dictionary Json}
  {es : List AutoloadEntry}

def Gives (base : String) (entry : String × Json) (e : AutoloadEntry) : Prop :=
  ∃ directory, NamesDirectory entry.2 directory ∧ e = ⟨entry.1, Path.join base directory⟩

theorem entries_eq_ok_iff :
    entries standard base dict = .ok es ↔ List.Forall₂ (Gives base) dict es := by
  induction dict generalizing es with
  | nil => simp [entries, eq_comm]
  | cons entry rest ih =>
    obtain ⟨key, v⟩ := entry
    rw [List.forall₂_cons_left_iff, entries]
    cases hv : firstDirectory? v with
    | none =>
      have none := firstDirectory?_eq_none_iff.mp hv
      simp [Gives, none]
    | some directory =>
      have named := firstDirectory?_eq_some_iff.mp hv
      have only : ∀ e, Gives base (key, v) e ↔ e = ⟨key, Path.join base directory⟩ := by
        intro e
        simp [Gives, ← firstDirectory?_eq_some_iff, hv]
      cases hr : entries standard base rest with
      | error fault => simp [only, ← ih, hr]
      | ok more => simp [only, ← ih, hr, eq_comm]

theorem exists_entries_iff :
    (∃ es, entries standard base dict = .ok es) ↔
      ∀ entry ∈ dict, ∃ directory, NamesDirectory entry.2 directory := by
  simp only [entries_eq_ok_iff]
  induction dict with
  | nil => simp
  | cons entry rest ih =>
    simp only [List.forall₂_cons_left_iff, List.mem_cons, forall_eq_or_imp, ← ih]
    constructor
    · rintro ⟨es, e, more, ⟨directory, named, -⟩, hr, -⟩
      exact ⟨⟨directory, named⟩, more, hr⟩
    · rintro ⟨⟨directory, named⟩, more, hr⟩
      exact ⟨_, _, more, ⟨directory, named, rfl⟩, hr, rfl⟩

theorem keys_of_gives (h : List.Forall₂ (Gives base) dict es) :
    es.map (·.key) = dict.keys := by
  induction h with
  | nil => rfl
  | cons head _ ih =>
    obtain ⟨directory, -, rfl⟩ := head
    simpa [Dictionary.keys] using ih

theorem find?_of_gives (h : List.Forall₂ (Gives base) dict es) (key : String) :
    (dict.get? key = none ∧ es.find? (·.key = key) = none) ∨
      ∃ v directory, dict.get? key = some v ∧ NamesDirectory v directory ∧
        es.find? (·.key = key) = some ⟨key, Path.join base directory⟩ := by
  induction h with
  | nil => exact .inl ⟨rfl, rfl⟩
  | @cons entry e rest more head _ ih =>
    obtain ⟨k, v⟩ := entry
    obtain ⟨directory, named, rfl⟩ := head
    rw [Dictionary.get?_cons, List.find?_cons]
    by_cases hk : key = k
    · subst hk
      exact .inr ⟨v, directory, by simp, named, by simp⟩
    · simpa [hk, Ne.symm hk] using ih

end Maps

section Order

theorem longer_iff {a b : AutoloadEntry} :
    longer a b = true ↔ b.key.utf8ByteSize ≤ a.key.utf8ByteSize := by
  rw [longer, decide_eq_true_eq]

theorem pairwise_longer (es : List AutoloadEntry) :
    (sortBy longer es).Pairwise fun a b => b.key.utf8ByteSize ≤ a.key.utf8ByteSize := by
  have total : ∀ a b, longer a b = true ∨ longer b a = true := by
    intro a b
    simp only [longer_iff]
    omega
  have trans : ∀ a b c, longer a b = true → longer b c = true → longer a c = true := by
    intro a b c
    simp only [longer_iff]
    omega
  simpa only [longer_iff] using pairwise_sortBy total trans es

theorem length_le_of_utf8ByteSize_le {k key c : String} (hk : k.toList <+: c.toList)
    (hkey : key.toList <+: c.toList) (h : k.utf8ByteSize ≤ key.utf8ByteSize) :
    k.length ≤ key.length := by
  rcases List.prefix_or_prefix_of_prefix hk hkey with before | ⟨rest, hrest⟩
  · rw [← String.length_toList, ← String.length_toList]
    exact before.length_le
  · have whole : k = key ++ String.ofList rest := by simp [← String.toList_inj, hrest]
    have nothing : (String.ofList rest).utf8ByteSize = 0 := by
      rw [whole, String.utf8ByteSize_append] at h
      omega
    rw [whole, String.utf8ByteSize_eq_zero_iff.mp nothing]
    simp

end Order

/-- The entry for a class: of the keys that its name starts with, the longest, and of two values of
that key the one in the main map. -/
structure Chosen (main development : Dictionary Json) (class_ key directory : String) : Prop where
  starts : key.toList <+: class_.toList
  longest : ∀ k ∈ main.keys ++ development.keys, k.toList <+: class_.toList → k.length ≤ key.length
  named : ∃ v, (main.get? key).or (development.get? key) = some v ∧ NamesDirectory v directory

section Chosen

variable {main development : Dictionary Json} {base class_ : String}
  {es es' front back : List AutoloadEntry} {e : AutoloadEntry}

theorem length_le_of_first (hs : sortBy longer es = front ++ e :: back)
    (he : e.key.toList <+: class_.toList)
    (hfront : ∀ x ∈ front, ¬ x.key.toList <+: class_.toList) {x : AutoloadEntry} (hx : x ∈ es)
    (starts : x.key.toList <+: class_.toList) : x.key.length ≤ e.key.length := by
  rw [← (perm_sortBy longer _).mem_iff, hs, List.mem_append, List.mem_cons] at hx
  rcases hx with hx | rfl | hx
  · exact absurd starts (hfront x hx)
  · exact Nat.le_refl _
  · have sorted := pairwise_longer es
    rw [hs] at sorted
    have later := (List.pairwise_cons.mp (List.pairwise_append.mp sorted).2.1).1 x hx
    exact length_le_of_utf8ByteSize_le starts he later

theorem find?_of_first (hs : sortBy longer es = front ++ e :: back)
    (hfront : ∀ x ∈ front, x.key ≠ e.key) : es.find? (·.key = e.key) = some e := by
  -- Sorting keeps the order of the entries with one key.
  have same : ∀ x y : AutoloadEntry, decide (x.key = e.key) = true → decide (y.key = e.key) = true →
      longer x y = true := by
    intro x y hx hy
    rw [decide_eq_true_eq] at hx hy
    exact longer_iff.mpr (Nat.le_of_eq (by rw [hx, hy]))
  rw [← find?_sortBy same, hs]
  exact List.find?_eq_some_iff_append.mpr ⟨by simp, front, back, rfl, by simpa using hfront⟩

def Arranged (base : String) (main development : Dictionary Json) (es : List AutoloadEntry) :
    Prop :=
  ∃ first second, List.Forall₂ (Gives base) main first ∧
    List.Forall₂ (Gives base) development second ∧ es = sortBy longer (first ++ second)

theorem Arranged.mem_keys (h : Arranged base main development es) (k : String) :
    k ∈ main.keys ++ development.keys ↔ ∃ x ∈ es, x.key = k := by
  obtain ⟨first, second, hm, hd, rfl⟩ := h
  rw [← keys_of_gives hm, ← keys_of_gives hd, ← List.map_append, List.mem_map]
  simp only [(perm_sortBy longer _).mem_iff]

theorem Arranged.chosen (h : Arranged base main development es) (hs : es = front ++ e :: back)
    (he : e.key.toList <+: class_.toList)
    (hfront : ∀ x ∈ front, ¬ x.key.toList <+: class_.toList) :
    ∃ directory, Chosen main development class_ e.key directory ∧
      e.directory = Path.join base directory := by
  have keys := h.mem_keys
  obtain ⟨first, second, hm, hd, rfl⟩ := h
  have longest : ∀ k ∈ main.keys ++ development.keys, k.toList <+: class_.toList →
      k.length ≤ e.key.length := by
    intro k hk starts
    obtain ⟨x, hx, rfl⟩ := (keys k).mp hk
    exact length_le_of_first hs he hfront ((perm_sortBy longer _).mem_iff.mp hx) starts
  have found := find?_of_first hs fun x hx hkey => hfront x hx (hkey ▸ he)
  rw [List.find?_append] at found
  rcases find?_of_gives hm e.key with ⟨none, hf⟩ | ⟨v, directory, value, named, hf⟩
  · rcases find?_of_gives hd e.key with ⟨-, hf'⟩ | ⟨v, directory, value, named, hf'⟩
    · simp [hf, hf'] at found
    · rw [hf, hf', Option.none_or, Option.some.injEq] at found
      exact ⟨directory, ⟨he, longest, v, by rw [none, value]; rfl, named⟩, by rw [← found]⟩
  · rw [hf, Option.some_or, Option.some.injEq] at found
    exact ⟨directory, ⟨he, longest, v, by rw [value]; rfl, named⟩, by rw [← found]⟩

end Chosen

section Read

variable {base : String} {m : Manifest} {a : Autoload}

theorem exists_parse_of_ofText {source : String} (h : ofText base source = .ok a) :
    ∃ m, Manifest.parse source = some m := by
  rw [ofText] at h
  cases hp : Manifest.parse source with
  | none => simp [hp] at h
  | some m => exact ⟨m, rfl⟩

theorem sectionEntries_eq_ok_iff {s : AutoloadSection} :
    sectionEntries base s = .ok a ↔
      List.Forall₂ (Gives base) s.psr4 a.psr4 ∧ List.Forall₂ (Gives base) s.psr0 a.psr0 := by
  rw [← @entries_eq_ok_iff .psr4, ← @entries_eq_ok_iff .psr0, sectionEntries]
  obtain ⟨psr4, psr0⟩ := a
  cases entries .psr4 base s.psr4 with
  | error fault => simp
  | ok first => cases entries .psr0 base s.psr0 <;> simp

theorem ofManifest_eq_ok_iff :
    ofManifest base m = .ok a ↔ ∃ main development, sectionEntries base m.main = .ok main ∧
      sectionEntries base m.development = .ok development ∧
      a = ⟨sortBy longer (main.psr4 ++ development.psr4),
        sortBy longer (main.psr0 ++ development.psr0)⟩ := by
  rw [ofManifest]
  cases sectionEntries base m.main with
  | error fault => simp
  | ok main => cases sectionEntries base m.development <;> simp [eq_comm]

theorem exists_sectionEntries_iff {s : AutoloadSection} :
    (∃ a, sectionEntries base s = .ok a) ↔
      (∀ entry ∈ s.psr4, ∃ directory, NamesDirectory entry.2 directory) ∧
        ∀ entry ∈ s.psr0, ∃ directory, NamesDirectory entry.2 directory := by
  rw [← @exists_entries_iff .psr4 base, ← @exists_entries_iff .psr0 base]
  simp only [sectionEntries_eq_ok_iff, entries_eq_ok_iff]
  constructor
  · rintro ⟨a, h4, h0⟩
    exact ⟨⟨_, h4⟩, _, h0⟩
  · rintro ⟨⟨psr4, h4⟩, psr0, h0⟩
    exact ⟨⟨psr4, psr0⟩, h4, h0⟩

theorem exists_ofManifest_iff :
    (∃ a, ofManifest base m = .ok a) ↔
      ∀ map ∈ m.maps, ∀ entry ∈ map, ∃ directory, NamesDirectory entry.2 directory := by
  have sections : (∃ a, ofManifest base m = .ok a) ↔
      (∃ main, sectionEntries base m.main = .ok main) ∧
        ∃ development, sectionEntries base m.development = .ok development := by
    simp only [ofManifest_eq_ok_iff]
    constructor
    · rintro ⟨-, main, development, hm, hd, -⟩
      exact ⟨⟨main, hm⟩, development, hd⟩
    · rintro ⟨⟨main, hm⟩, development, hd⟩
      exact ⟨_, main, development, hm, hd, rfl⟩
  rw [sections, exists_sectionEntries_iff, exists_sectionEntries_iff]
  simp only [Manifest.maps, List.mem_cons, List.not_mem_nil, or_false, forall_eq_or_imp, forall_eq,
    and_assoc]

theorem arranged_of_ofManifest (h : ofManifest base m = .ok a) :
    Arranged base m.main.psr4 m.development.psr4 a.psr4 ∧
      Arranged base m.main.psr0 m.development.psr0 a.psr0 := by
  obtain ⟨main, development, hm, hd, rfl⟩ := ofManifest_eq_ok_iff.mp h
  obtain ⟨hm4, hm0⟩ := sectionEntries_eq_ok_iff.mp hm
  obtain ⟨hd4, hd0⟩ := sectionEntries_eq_ok_iff.mp hd
  exact ⟨⟨_, _, hm4, hd4, rfl⟩, _, _, hm0, hd0, rfl⟩

end Read

section Route

variable {base class_ : String} {es : List AutoloadEntry}

theorem restAfter?_eq_some_iff {key s rest : String} :
    restAfter? key s = some rest ↔ s = key ++ rest := by
  rw [restAfter?]
  split
  · next h =>
    obtain ⟨more, hmore⟩ := List.isPrefixOf_iff_prefix.mp h
    rw [Option.some.injEq, ← String.toList_inj, ← String.toList_inj, String.toList_append,
      String.toList_ofList, ← hmore, List.drop_left, List.append_cancel_left_eq]
  · next h =>
    simp only [reduceCtorEq, false_iff]
    rintro rfl
    exact h (List.isPrefixOf_iff_prefix.mpr (by simp))

theorem restAfter?_isSome_iff {key s : String} :
    (restAfter? key s).isSome = true ↔ key.toList <+: s.toList := by
  rw [Option.isSome_iff_exists]
  simp only [restAfter?_eq_some_iff]
  constructor
  · rintro ⟨rest, rfl⟩
    simp
  · rintro ⟨rest, hrest⟩
    exact ⟨String.ofList rest, by simp [← String.toList_inj, hrest]⟩

theorem findSome?_restAfter? (es : List AutoloadEntry) :
    (es.findSome? fun e => (restAfter? e.key class_).map (e.directory, ·)) =
      (es.find? fun e => (restAfter? e.key class_).isSome).bind fun e =>
        (restAfter? e.key class_).map (e.directory, ·) := by
  induction es with
  | nil => rfl
  | cons e es ih =>
    rw [List.findSome?_cons, List.find?_cons]
    cases hr : restAfter? e.key class_ with
    | none => simpa using ih
    | some rest => simp [hr]

theorem Arranged.find? {main development : Dictionary Json}
    (h : Arranged base main development es) (class_ : String) :
    (∃ e directory, (es.find? fun e => (restAfter? e.key class_).isSome) = some e ∧
        Chosen main development class_ e.key directory ∧ e.directory = Path.join base directory) ∨
      ((es.find? fun e => (restAfter? e.key class_).isSome) = none ∧
        ∀ k ∈ main.keys ++ development.keys, ¬ k.toList <+: class_.toList) := by
  cases hf : es.find? fun e => (restAfter? e.key class_).isSome with
  | some e =>
    obtain ⟨he, front, back, hs, hfront⟩ := List.find?_eq_some_iff_append.mp hf
    have others : ∀ x ∈ front, ¬ x.key.toList <+: class_.toList := by
      intro x hx starts
      simpa [restAfter?_isSome_iff.mpr starts] using hfront x hx
    obtain ⟨directory, chosen, hd⟩ := h.chosen hs (restAfter?_isSome_iff.mp he) others
    exact .inl ⟨e, directory, rfl, chosen, hd⟩
  | none =>
    refine .inr ⟨rfl, fun k hk starts => ?_⟩
    obtain ⟨x, hx, rfl⟩ := (h.mem_keys k).mp hk
    exact List.find?_eq_none.mp hf x hx (restAfter?_isSome_iff.mpr starts)

/-- How a class is found: the directory as the manifest names it, and the names that lead from
there to the file. -/
inductive Route (m : Manifest) (class_ : String) : String → List String → Prop
  | psr4 {key rest directory : String}
      (chosen : Chosen m.main.psr4 m.development.psr4 class_ key directory)
      (hrest : class_ = key ++ rest) : Route m class_ directory (segments '\\' rest)
  | psr0 {key directory short : String} {before : List String}
      (other : ∀ k ∈ m.psr4Keys, ¬ k.toList <+: class_.toList)
      (chosen : Chosen m.main.psr0 m.development.psr0 class_ key directory)
      (hshort : split '\\' class_ = before ++ [short]) :
      Route m class_ directory (before.filter (· ≠ "") ++ segments '_' short)

def routeFile (base directory : String) (names : List String) : String :=
  Path.withExtension (names.foldl Path.join (Path.join base directory)) "php"

theorem pathBelow_psr0Segments {before : List String} {short : String}
    (h : split '\\' class_ = before ++ [short]) (base directory : String) :
    pathBelow (Path.join base directory) (psr0Segments class_) =
      routeFile base directory (before.filter (· ≠ "") ++ segments '_' short) := by
  have last : afterLast '\\' class_ = short := afterLast_of_split (u := "\\") rfl h
  rw [pathBelow, psr0Segments, last, h, List.dropLast_concat, List.filter_append]
  rfl

theorem path?_routes {m : Manifest} {a : Autoload} (h : ofManifest base m = .ok a)
    (class_ : String) :
    (∃ directory names, Route m class_ directory names ∧
        a.path? class_ = some (routeFile base directory names)) ∨
      ((∀ map ∈ m.maps, ∀ key ∈ map.keys, ¬ key.toList <+: class_.toList) ∧
        a.path? class_ = none) := by
  obtain ⟨psr4, psr0⟩ := arranged_of_ofManifest h
  rw [path?, findSome?_restAfter?]
  rcases psr4.find? class_ with ⟨e, directory, found, chosen, hd⟩ | ⟨found, other⟩
  · obtain ⟨rest, hrest⟩ := Option.isSome_iff_exists.mp (restAfter?_isSome_iff.mpr chosen.starts)
    refine .inl ⟨directory, _, .psr4 chosen (restAfter?_eq_some_iff.mp hrest), ?_⟩
    rw [found, Option.bind_some, hrest, hd]
    rfl
  · rw [found, Option.bind_none]
    rcases psr0.find? class_ with ⟨e, directory, found', chosen, hd⟩ | ⟨found', other'⟩
    · obtain ⟨before, short, hshort⟩ :=
        (List.eq_nil_or_concat' (split '\\' class_)).resolve_left (split_ne_nil _ _)
      refine .inl ⟨directory, _, .psr0 other chosen hshort, ?_⟩
      simp only [found', hd, pathBelow_psr0Segments hshort]
    · refine .inr ⟨?_, by simp only [found']⟩
      simp only [List.mem_append, or_imp, forall_and] at other other'
      simp only [Manifest.maps, List.mem_cons, List.not_mem_nil, or_false, forall_eq_or_imp,
        forall_eq]
      exact ⟨other.1, other'.1, other.2, other'.2⟩

end Route

/-- A manifest is refused for an entry without a directory and for nothing else. If it is accepted,
a class is found by its route, and a class without one is not found. -/
theorem ofText_routes {source : String} {m : Manifest} (h : Manifest.parse source = some m)
    (base : String) :
    ((∃ fault, ofText base source = .error fault) ↔
      ∃ map ∈ m.maps, ∃ entry ∈ map, ∀ directory, ¬ NamesDirectory entry.2 directory) ∧
    ∀ a, ofText base source = .ok a → ∀ class_ c, c = dropLeading '\\' class_ →
      (∃ directory names, Route m c directory names ∧
        (Resolver.autoload a).resolve class_ = .ok (routeFile base directory names)) ∨
      ((∀ map ∈ m.maps, ∀ key ∈ map.keys, ¬ key.toList <+: c.toList) ∧
        (Resolver.autoload a).resolve class_ = .error (.noPath c)) := by
  have read : ofText base source = ofManifest base m := by rw [ofText, h]
  rw [read]
  constructor
  · have refused : (∃ fault, ofManifest base m = .error fault) ↔
        ¬ ∃ a, ofManifest base m = .ok a := by
      cases ofManifest base m <;> simp
    rw [refused, exists_ofManifest_iff]
    simp only [not_forall, not_exists, exists_prop]
  · rintro a ha class_ c rfl
    rcases path?_routes ha (dropLeading '\\' class_) with ⟨directory, names, route, hp⟩ | ⟨none, hp⟩
    · refine .inl ⟨directory, names, route, ?_⟩
      simp only [Resolver.resolve, Resolver.path?, hp]
    · refine .inr ⟨none, ?_⟩
      simp only [Resolver.resolve, Resolver.path?, hp]

def shopManifest : String :=
  "\x7b\"autoload\":\x7b\"psr-4\":\x7b\"Acme\\\\\":\"src/\"," ++
    "\"Acme\\\\Domain\\\\\":[\"domain/\",\"unused/\"]\x7d,\"psr-0\":\x7b\"Legacy_\":\"lib/\"\x7d\x7d," ++
    "\"autoload-dev\":\x7b\"psr-4\":\x7b\"Acme\\\\Domain\\\\\":\"tests/\"\x7d\x7d\x7d"

def shopAutoload : Autoload where
  psr4 :=
    [⟨"Acme\\Domain\\", "/proj/domain/"⟩, ⟨"Acme\\Domain\\", "/proj/tests/"⟩,
      ⟨"Acme\\", "/proj/src/"⟩]
  psr0 := [⟨"Legacy_", "/proj/lib/"⟩]

theorem ofText_shop : ofText "/proj" shopManifest = .ok shopAutoload := by decide +kernel

theorem ofText_routes_shop :
    ∃ m, Manifest.parse shopManifest = some m ∧
      ofText "/proj" shopManifest = .ok shopAutoload ∧
      (¬ ∃ map ∈ m.maps, ∃ entry ∈ map, ∀ directory, ¬ NamesDirectory entry.2 directory) ∧
      ∃ directory names, Route m "Acme\\Domain\\Order" directory names ∧
        (Resolver.autoload shopAutoload).resolve "\\Acme\\Domain\\Order" =
          .ok (routeFile "/proj" directory names) ∧
        routeFile "/proj" directory names = "/proj/domain/Order.php" := by
  obtain ⟨m, parsed⟩ := exists_parse_of_ofText ofText_shop
  have resolved : (Resolver.autoload shopAutoload).resolve "\\Acme\\Domain\\Order" =
      .ok "/proj/domain/Order.php" := by decide +kernel
  obtain ⟨refused, found⟩ := ofText_routes parsed "/proj"
  refine ⟨m, parsed, ofText_shop, ?_, ?_⟩
  · rw [← refused, ofText_shop]
    simp
  · rcases found _ ofText_shop "\\Acme\\Domain\\Order" "Acme\\Domain\\Order" (by decide +kernel) with
      ⟨directory, names, route, hp⟩ | ⟨-, hp⟩
    · refine ⟨directory, names, route, hp, ?_⟩
      rw [resolved] at hp
      exact (Except.ok.inj hp).symm
    · rw [resolved] at hp
      cases hp

end Autoload

end Datatypes
