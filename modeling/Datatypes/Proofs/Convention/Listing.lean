import Datatypes.Proofs.Convention.History
import Datatypes.Proofs.Token.Spelling

/-!
Looking up the namespaces that a catalog lists. They are listed under the names they are kept
under, each once; a lookup makes the name that it is given into such a name first. Separators are
taken off after white space, so white space that stood between them and a name is kept in it. The
names without white space at their ends are those that a lookup leaves as they are, and exactly
they lead back to their registries.
-/

namespace Datatypes

open Text

theorem Text.strip_infix (p : Char → Bool) (s : String) :
    (strip p s).toList <:+: s.toList := by
  rw [strip, String.toList_ofList]
  have back : ((s.toList.dropWhile p).reverse.dropWhile p).reverse <+: s.toList.dropWhile p := by
    rw [← List.reverse_suffix, List.reverse_reverse]
    exact List.dropWhile_suffix p
  exact back.isInfix.trans (List.dropWhile_suffix p).isInfix

theorem normalizeNamespace_normalizeNamespace_iff (name : String) :
    normalizeNamespace (normalizeNamespace name) = normalizeNamespace name ↔
      trim (normalizeNamespace name) = normalizeNamespace name := by
  have stripped : strip (· = '\\') (normalizeNamespace name) = normalizeNamespace name :=
    strip_strip _ _
  generalize normalizeNamespace name = kept at stripped
  constructor
  · intro h
    -- The name is part of the trimmed one, which is part of the name.
    have inner : kept.toList <:+: (trim kept).toList := by
      have part := strip_infix (· = '\\') (trim kept)
      rwa [← normalizeNamespace, h] at part
    have outer : (trim kept).toList <:+: kept.toList := strip_infix isBlank kept
    exact String.toList_inj.mp
      (outer.eq_of_length (Nat.le_antisymm outer.length_le inner.length_le))
  · intro h
    rw [normalizeNamespace, h, stripped]

namespace Catalog

theorem sorted_insert {c : Catalog} (h : c.entries.Sorted) (r : Registry) :
    (c.insert r).entries.Sorted := by
  rw [insert]
  split
  · exact h.insert _ _
  · exact h.insert _ _

theorem sorted_insertAll {c : Catalog} (h : c.entries.Sorted) (rs : List Registration) :
    (c.insertAll rs).entries.Sorted := by
  induction rs generalizing c with
  | nil => exact h
  | cons r rs ih => exact ih (sorted_insert h r.registry)

theorem sorted_after (start : Start) (steps : List Step) : (after start steps).entries.Sorted := by
  rw [after_eq_insertAll]
  exact sorted_insertAll Dictionary.sorted_nil _

theorem mem_registries {c : Catalog} {r : Registry} :
    r ∈ c.registries ↔ (r.ns, r.conventions) ∈ c.entries := by
  rw [registries, List.mem_map]
  constructor
  · rintro ⟨entry, hentry, rfl⟩
    exact hentry
  · intro h
    exact ⟨_, h, rfl⟩

theorem registry_eq_ok_iff {c : Catalog} {ns : String} {r : Registry} :
    c.registry ns = .ok r ↔
      r.ns = normalizeNamespace ns ∧ c.entries.get? (normalizeNamespace ns) = some r.conventions := by
  rw [registry]
  cases c.entries.get? (normalizeNamespace ns) with
  | none => simp
  | some dict =>
    simp only [Except.ok.injEq, Option.some.injEq]
    constructor
    · rintro rfl
      exact ⟨rfl, rfl⟩
    · rintro ⟨hns, rfl⟩
      rw [← hns]

/-- A listed name leads back to its registry exactly if it has no white space at its ends, which
is also when a name that was normalized stays as it is. -/
theorem registry_listed_iff (start : Start) (steps : List Step) :
    (∀ r ∈ (after start steps).registries,
      (after start steps).registry r.ns = .ok r ↔ trim r.ns = r.ns) ∧
    ∀ name, normalizeNamespace (normalizeNamespace name) = normalizeNamespace name ↔
      trim (normalizeNamespace name) = normalizeNamespace name := by
  refine ⟨fun r hr => ?_, normalizeNamespace_normalizeNamespace_iff⟩
  have listed := (sorted_after start steps).get?_eq_some_iff.mpr (mem_registries.mp hr)
  obtain ⟨registration, -, hns⟩ := ((represents_after start steps).known r.ns).mp ⟨_, listed⟩
  have normal := normalizeNamespace_normalizeNamespace_iff registration.name
  rw [← Registration.ns, hns] at normal
  rw [registry_eq_ok_iff, ← normal]
  constructor
  · rintro ⟨same, -⟩
    exact same.symm
  · intro same
    rw [same]
    exact ⟨rfl, listed⟩

def acme : Step := .load "acme.toml" "[[namespace]]\nname = \"\\\\Acme\\\\\"\n"

theorem registry_listed_acme :
    ⟨"Acme", []⟩ ∈ (after .builtin [acme]).registries ∧ trim "Acme" = "Acme" ∧
      (after .builtin [acme]).registry "Acme" = .ok ⟨"Acme", []⟩ := by
  have listed : ⟨"Acme", []⟩ ∈ (after .builtin [acme]).registries := by decide +kernel
  have trimmed : trim "Acme" = "Acme" := by decide +kernel
  exact ⟨listed, trimmed, ((registry_listed_iff .builtin [acme]).1 _ listed).mpr trimmed⟩

def spacedAcme : Step := .load "acme.toml" "[[namespace]]\nname = \"\\\\ Acme\"\n"

/-- The blank behind the separator stays in the name, and the lookup takes it off. -/
theorem not_registry_listed_spacedAcme :
    (after .empty [spacedAcme]).registries = [⟨" Acme", []⟩] ∧
      (after .empty [spacedAcme]).registry " Acme" = .error (.unknownNamespace "Acme") ∧
      normalizeNamespace (normalizeNamespace "\\ Acme") ≠ normalizeNamespace "\\ Acme" := by
  decide +kernel

end Catalog

end Datatypes
