import Datatypes.Proofs.FileTree.Replacement

/-!
A tree as a map from places to what stands there. An entry that is set changes the map at one
place. A path that leads somewhere keeps leading there as long as files stay files and directories
stay directories.
-/

namespace Datatypes

inductive Item where
  | file (content : ByteArray)
  | directory

def Node.item : Node → Item
  | .file content => .file content
  | .directory _ => .directory

theorem Node.item_eq_directory_iff {n : Node} : n.item = .directory ↔ ∃ es, n = .directory es := by
  cases n <;> simp [item]

namespace FileTree

variable {t t' : FileTree} {p name : String} {names place : List String}
  {entries : List (String × Node)} {trail : Trail}

def item? (t : FileTree) (place : List String) : Option Item :=
  (t.root.get? place).map Node.item

def place? (t : FileTree) (p : String) : Option (List String) :=
  match pathError? p with
  | some _ => none
  | none =>
    match t.walk [] (Text.split '/' p) with
    | .error _ => none
    | .ok trail => some trail.names

theorem place?_eq_some_iff :
    t.place? p = some place ↔ pathError? p = none ∧
      ∃ trail, t.walk [] (Text.split '/' p) = .ok trail ∧ trail.names = place := by
  rw [place?]
  cases pathError? p with
  | some e => simp
  | none => cases t.walk [] (Text.split '/' p) <;> simp

theorem pathError?_eq_none_iff :
    pathError? p = none ↔ Char.ofNat 0 ∉ p.toList ∧ p ≠ "" ∧ isLongPath p = false := by
  rw [pathError?]
  split_ifs <;> simp_all

theorem item?_eq_file_iff {content : ByteArray} :
    t.item? place = some (.file content) ↔ t.root.get? place = some (.file content) := by
  rw [item?]
  cases t.root.get? place with
  | none => simp
  | some n => cases n <;> simp [Node.item]

theorem item?_eq_directory_iff :
    t.item? place = some .directory ↔ ∃ es, t.root.get? place = some (.directory es) := by
  rw [item?]
  cases t.root.get? place with
  | none => simp
  | some n => cases n <;> simp [Node.item]

theorem item?_concat (h : t.root.get? names = some (.directory entries)) (name : String) :
    t.item? (names ++ [name]) = (entries.lookup name).map Node.item := by
  rw [item?, get?_append, h, Option.bind_some, Node.get?]
  cases entries.lookup name <;> rfl

theorem item_get?_setIn {es inner : List (String × Node)} {n : Node}
    (h : (Node.directory es).get? names = some (.directory inner))
    (hroom : ∀ d, inner.lookup name ≠ some (.directory d))
    (hn : ∀ s rest, n.get? (s :: rest) = none) (place : List String) :
    ((Node.directory (setIn es names name n)).get? place).map Node.item =
      if place = names ++ [name] then some n.item
      else ((Node.directory es).get? place).map Node.item := by
  induction names generalizing es place with
  | nil =>
    cases h
    cases place with
    | nil => simp [Node.get?, Node.item]
    | cons key rest =>
      rw [setIn, Node.get?, Node.get?, lookup_setEntry]
      by_cases hk : key = name
      · subst hk
        cases rest with
        | nil => simp [Node.get?]
        | cons s rest =>
          -- Neither what is set nor what stood there has anything below it.
          cases hl : inner.lookup key with
          | none => simp [hn]
          | some old =>
            cases old with
            | file => simp [hn, Node.get?]
            | directory d => exact absurd hl (hroom d)
      · simp [hk]
  | cons step names ih =>
    obtain ⟨middle, hm, below⟩ := exists_of_get?_cons h
    rw [setIn_cons hm]
    cases place with
    | nil => simp [Node.get?, Node.item]
    | cons key rest =>
      rw [Node.get?, Node.get?, lookup_setEntry]
      by_cases hk : key = step
      · subst hk
        simpa [hm] using ih below rest
      · simp [hk]

theorem item?_set {n : Node} (h : t.root.get? names = some (.directory entries))
    (hroom : ∀ d, entries.lookup name ≠ some (.directory d))
    (hn : ∀ s rest, n.get? (s :: rest) = none) (place : List String) :
    (t.set names name n).item? place =
      if place = names ++ [name] then some n.item else t.item? place :=
  item_get?_setIn h hroom hn place

theorem Leads.item? (h : Leads t trail) : t.item? trail.names = some (t.nodeAt trail).item := by
  rw [FileTree.item?, h.get?, Option.map_some]

def Keeps (t t' : FileTree) : Prop :=
  ∀ place i, t.item? place = some i → ∃ i', t'.item? place = some i' ∧
    (i = .directory → i' = .directory)

theorem Keeps.refl (t : FileTree) : Keeps t t := fun _ i h => ⟨i, h, id⟩

theorem Keeps.trans {t'' : FileTree} (h : Keeps t t') (h' : Keeps t' t'') : Keeps t t'' := by
  intro place i hi
  obtain ⟨i', hi', same⟩ := h place i hi
  obtain ⟨i'', hi'', same'⟩ := h' place i' hi'
  exact ⟨i'', hi'', same' ∘ same⟩

theorem Keeps.directory (h : Keeps t t') (hd : t.item? place = some .directory) :
    t'.item? place = some .directory := by
  obtain ⟨i, hi, same⟩ := h place _ hd
  rw [hi, same rfl]

theorem Keeps.walk (h : Keeps t t') {trail' result : Trail} (hl : Leads t trail)
    (hl' : Leads t' trail') (hn : trail'.names = trail.names) {segments : List String}
    (hw : t.walk trail segments = .ok result) :
    ∃ result', t'.walk trail' segments = .ok result' ∧ result'.names = result.names := by
  induction segments generalizing trail trail' with
  | nil =>
    cases hw
    exact ⟨trail', rfl, hn⟩
  | cons s segments ih =>
    obtain ⟨entries, hd, hcases⟩ := walk_cons_eq_ok hw
    have here : t.item? trail.names = some .directory := by rw [hl.item?, hd]; rfl
    obtain ⟨entries', hd'⟩ : ∃ entries', t'.nodeAt trail' = .directory entries' := by
      have there := h.directory here
      rw [← hn, hl'.item?, Option.some.injEq] at there
      exact Node.item_eq_directory_iff.mp there
    rcases hcases with ⟨hs, hrest⟩ | ⟨rfl, hrest⟩ | ⟨hs, hlen, n, hlook, hrest⟩
    · rw [walk_stay hd' segments hs]
      exact ih hl hl' hn hrest
    · rw [walk_up hd' segments]
      refine ih hl.tail hl'.tail ?_ hrest
      have same : trail'.map (·.1) = trail.map (·.1) := by simpa [Trail.names] using hn
      simp [Trail.names, List.map_tail, same]
    · have entered : t.root.get? trail.names = some (.directory entries) := by rw [hl.get?, hd]
      have entered' : t'.root.get? trail.names = some (.directory entries') := by
        rw [← hn, hl'.get?, hd']
      have found : t.item? (trail.names ++ [s]) = some n.item := by
        rw [item?_concat entered, hlook, Option.map_some]
      obtain ⟨i, hi, -⟩ := h _ _ found
      rw [item?_concat entered', Option.map_eq_some_iff] at hi
      obtain ⟨n', hlook', -⟩ := hi
      rw [walk_enter hd' segments hs hlen hlook']
      refine ih (.cons hd hlook hl) (.cons hd' hlook' hl') ?_ hrest
      simpa [Trail.names] using hn

theorem Keeps.place? (h : Keeps t t') (hp : t.place? p = some place) :
    t'.place? p = some place := by
  obtain ⟨he, trail, hw, rfl⟩ := place?_eq_some_iff.mp hp
  obtain ⟨trail', hw', same⟩ := h.walk .nil .nil rfl hw
  exact place?_eq_some_iff.mpr ⟨he, trail', hw', same⟩

theorem place?_of_directoryOf (h : t.directoryOf p = .ok (names, entries, name))
    (hs : isStep name = false) {n : Node} (hl : entries.lookup name = some n) :
    t.place? p = some (names ++ [name]) := by
  obtain ⟨hp, hname, hlen, trail, hw, hn, rfl⟩ := directoryOf_eq_ok_iff.mp h
  obtain ⟨front, last, hsplit, -⟩ := exists_last_segment p
  rw [hsplit] at hname hw
  obtain rfl : name = last := by simpa using hname
  rw [List.dropLast_concat] at hw
  refine place?_eq_some_iff.mpr ⟨hp, (name, n) :: trail, ?_, by simp [Trail.names]⟩
  rw [hsplit, walk_append, hw]
  exact walk_enter hn [] hs hlen hl

theorem Keeps.directoryOf (h : Keeps t t') (hd : t.directoryOf p = .ok (names, entries, name)) :
    ∃ entries', t'.directoryOf p = .ok (names, entries', name) := by
  obtain ⟨hp, hname, hlen, trail, hw, hn, rfl⟩ := directoryOf_eq_ok_iff.mp hd
  obtain ⟨trail', hw', same⟩ := h.walk .nil .nil rfl hw
  have here : t'.item? trail'.names = some .directory := by
    rw [same]
    refine h.directory ?_
    rw [(Leads.nil.walk hw).item?, hn]
    rfl
  rw [(Leads.nil.walk hw').item?, Option.some.injEq] at here
  obtain ⟨entries', hn'⟩ := Node.item_eq_directory_iff.mp here
  exact ⟨entries', directoryOf_eq_ok_iff.mpr ⟨hp, hname, hlen, trail', hw', hn', same⟩⟩

end FileTree

end Datatypes
