import Datatypes.Convention.Document
import Datatypes.Proofs.Text.Dictionary

/-!
A catalog after any history of insertions and loads. Whatever the history, the catalog is the one
that its registrations make when they are inserted one after the other, and it answers like their
record: a namespace is known if it was registered, and of the conventions that were registered in
it under one name the last one counts.
-/

namespace Datatypes.Catalog

open Convention (NamespaceSpec readDocument)
open Dictionary (valuesFor)

structure Registration where
  name : String
  conventions : List (String × Convention)
deriving DecidableEq, Repr

namespace Registration

def ns (r : Registration) : String := normalizeNamespace r.name

def registry (r : Registration) : Registry := .ofList r.name r.conventions

def ofSpec (s : NamespaceSpec) : Registration := ⟨s.name, s.conventions⟩

end Registration

def insertAll (c : Catalog) (rs : List Registration) : Catalog :=
  rs.foldl (fun c r => c.insert r.registry) c

inductive Start where
  | empty
  | builtin
deriving DecidableEq, Repr

def Start.catalog : Start → Catalog
  | .empty => .empty
  | .builtin => .builtin

def Start.registrations : Start → List Registration
  | .empty => []
  | .builtin =>
    [⟨builtinNamespace, [("ComplexClassType", .complexClassType), ("ValueObject", .valueObject)]⟩]

inductive Step where
  | insert (r : Registration)
  | load (origin source : String)
deriving DecidableEq, Repr

def IsNamed (s : NamespaceSpec) : Prop := normalizeNamespace s.name ≠ ""

instance (s : NamespaceSpec) : Decidable (IsNamed s) := inferInstanceAs (Decidable (_ ≠ _))

namespace Step

def apply (c : Catalog) : Step → Catalog
  | .insert r => c.insert r.registry
  | .load origin source => (c.addDocument origin source).1

/-- What a step registers; a document does so up to its first namespace without a name. -/
def registrations : Step → List Registration
  | .insert r => [r]
  | .load _ source =>
    (((readDocument source).getD []).takeWhile (IsNamed ·)).map .ofSpec

end Step

def after (start : Start) (steps : List Step) : Catalog := steps.foldl Step.apply start.catalog

def log (start : Start) (steps : List Step) : List Registration :=
  start.registrations ++ steps.flatMap (·.registrations)

def conventionsFor (log : List Registration) (ns deriv : String) : List Convention :=
  valuesFor ((log.filter (·.ns = ns)).flatMap (·.conventions)) deriv

theorem insertAll_append (c : Catalog) (rs ss : List Registration) :
    c.insertAll (rs ++ ss) = (c.insertAll rs).insertAll ss := List.foldl_append

theorem addSpecs_eq (c : Catalog) (specs : List NamespaceSpec) :
    c.addSpecs specs =
      (c.insertAll ((specs.takeWhile (IsNamed ·)).map .ofSpec), specs.all (IsNamed ·)) := by
  induction specs generalizing c with
  | nil => rfl
  | cons spec specs ih =>
    rw [addSpecs]
    split
    · next h => simp [IsNamed, h, insertAll]
    · next h =>
      have named : IsNamed spec := h
      rw [ih]
      simp [named, insertAll, Registration.registry, Registration.ofSpec]

theorem addDocument_of_none (c : Catalog) {source : String} (h : readDocument source = none)
    (origin : String) :
    c.addDocument origin source = (c, .error (.invalidConventions origin .malformed)) := by
  rw [addDocument, h]

theorem addDocument_of_some (c : Catalog) {source : String} {specs : List NamespaceSpec}
    (h : readDocument source = some specs) (origin : String) :
    c.addDocument origin source =
      (c.insertAll ((specs.takeWhile (IsNamed ·)).map .ofSpec),
        if specs.all (IsNamed ·) then .ok ()
        else .error (.invalidConventions origin .emptyNamespace)) := by
  rw [addDocument, h]
  simp only [addSpecs_eq]
  cases specs.all (IsNamed ·) <;> rfl

theorem Step.apply_eq (c : Catalog) (s : Step) : s.apply c = c.insertAll s.registrations := by
  cases s with
  | insert r => rfl
  | load origin source =>
    rw [apply, registrations]
    cases h : readDocument source with
    | none => rw [addDocument_of_none c h]; rfl
    | some specs => rw [addDocument_of_some c h]; rfl

theorem after_eq_insertAll (start : Start) (steps : List Step) :
    after start steps = empty.insertAll (log start steps) := by
  have begun : start.catalog = empty.insertAll start.registrations := by cases start <;> rfl
  have continued (c : Catalog) :
      steps.foldl Step.apply c = c.insertAll (steps.flatMap (·.registrations)) := by
    induction steps generalizing c with
    | nil => rfl
    | cons s steps ih =>
      rw [List.foldl_cons, ih, Step.apply_eq, List.flatMap_cons, insertAll_append]
  rw [after, log, insertAll_append, ← begun, continued]

theorem ofList_eq (name : String) (entries : List (String × Convention)) :
    Registry.ofList name entries =
      ⟨normalizeNamespace name, Dictionary.insertAll [] entries⟩ := by
  have added (r : Registry) :
      entries.foldl (fun r entry => r.register entry.1 entry.2) r =
        ⟨r.ns, r.conventions.insertAll entries⟩ := by
    induction entries generalizing r with
    | nil => rfl
    | cons entry entries ih => exact ih (r.register entry.1 entry.2)
  exact added (Registry.empty name)

theorem get?_insert (c : Catalog) (r : Registry) (ns : String) :
    (c.insert r).entries.get? ns =
      if ns = r.ns then
        some (match c.entries.get? r.ns with
          | some old => old.insertAll r.conventions
          | none => r.conventions)
      else c.entries.get? ns := by
  rw [insert]
  cases c.entries.get? r.ns with
  | none => exact Dictionary.get?_insert ..
  | some old => exact Dictionary.get?_insert ..

theorem conventionsFor_concat (log : List Registration) (r : Registration) (ns deriv : String) :
    conventionsFor (log ++ [r]) ns deriv =
      conventionsFor log ns deriv ++ if r.ns = ns then valuesFor r.conventions deriv else [] := by
  rw [conventionsFor, List.filter_append, List.flatMap_append, Dictionary.valuesFor_append]
  by_cases h : r.ns = ns
  · simp [conventionsFor, h]
  · simp [conventionsFor, h, valuesFor]

structure Represents (c : Catalog) (log : List Registration) : Prop where
  known : ∀ ns, (∃ dict, c.entries.get? ns = some dict) ↔ ∃ r ∈ log, r.ns = ns
  latest : ∀ ns dict, c.entries.get? ns = some dict →
    ∀ deriv, dict.get? deriv = (conventionsFor log ns deriv).getLast?

theorem represents_empty : Represents empty [] := by
  constructor
  · simp [empty, Dictionary.get?]
  · simp [empty, Dictionary.get?]

theorem conventionsFor_of_unknown {log : List Registration} {ns : String}
    (h : ¬ ∃ r ∈ log, r.ns = ns) (deriv : String) : conventionsFor log ns deriv = [] := by
  have none : log.filter (·.ns = ns) = [] := by
    refine List.filter_eq_nil_iff.mpr fun r hr => ?_
    simpa using fun hns => h ⟨r, hr, hns⟩
  rw [conventionsFor, none]
  rfl

theorem Represents.insert {c : Catalog} {log : List Registration} (h : c.Represents log)
    (r : Registration) : (c.insert r.registry).Represents (log ++ [r]) := by
  have own : r.registry = ⟨r.ns, Dictionary.insertAll [] r.conventions⟩ := ofList_eq ..
  have sorted : (Dictionary.insertAll [] r.conventions).Sorted :=
    Dictionary.sorted_nil.insertAll r.conventions
  have added (deriv : String) :
      (Dictionary.insertAll [] r.conventions).get? deriv =
        (valuesFor r.conventions deriv).getLast? := by
    rw [Dictionary.get?_insertAll]
    exact Option.or_none
  constructor
  · intro ns
    rw [get?_insert, own]
    by_cases hns : ns = r.ns
    · simp [hns]
    · simp [hns, h.known ns, Ne.symm hns]
  · intro ns dict hdict deriv
    rw [get?_insert, own] at hdict
    rw [conventionsFor_concat, List.getLast?_append]
    by_cases hns : ns = r.ns
    · subst hns
      rw [if_pos rfl, Option.some.injEq] at hdict
      subst hdict
      cases hold : c.entries.get? r.ns with
      | none =>
        have unknown : ¬ ∃ s ∈ log, s.ns = r.ns := by
          rw [← h.known, hold]
          simp
        simp [added, conventionsFor_of_unknown unknown]
      | some old =>
        rw [if_pos rfl, ← h.latest _ _ hold, Dictionary.get?_insertAll, sorted.valuesFor_eq, added]
        cases (valuesFor r.conventions deriv).getLast? <;> rfl
    · rw [if_neg hns] at hdict
      simp [Ne.symm hns, h.latest ns dict hdict]

theorem Represents.insertAll {c : Catalog} {log : List Registration} (h : c.Represents log)
    (rs : List Registration) : (c.insertAll rs).Represents (log ++ rs) := by
  induction rs generalizing c log with
  | nil => simpa [Catalog.insertAll] using h
  | cons r rs ih =>
    have next := ih (h.insert r)
    rwa [List.append_assoc] at next

theorem represents_after (start : Start) (steps : List Step) :
    (after start steps).Represents (log start steps) := by
  rw [after_eq_insertAll]
  exact represents_empty.insertAll (log start steps)

def Answers (log : List Registration) (ns : String) : Except GenerationError Registry → Prop
  | .ok r =>
    r.ns = normalizeNamespace ns ∧ (∃ s ∈ log, s.ns = normalizeNamespace ns) ∧
      ∀ deriv, r.resolve? deriv = (conventionsFor log (normalizeNamespace ns) deriv).getLast?
  | .error e =>
    (¬ ∃ s ∈ log, s.ns = normalizeNamespace ns) ∧ e = .unknownNamespace (normalizeNamespace ns)

theorem Represents.answers {c : Catalog} {log : List Registration} (h : c.Represents log)
    (ns : String) : Answers log ns (c.registry ns) := by
  rw [Catalog.registry]
  cases hget : c.entries.get? (normalizeNamespace ns) with
  | none =>
    refine ⟨?_, rfl⟩
    rw [← h.known, hget]
    simp
  | some dict => exact ⟨rfl, (h.known _).mp ⟨dict, hget⟩, h.latest _ dict hget⟩

def FirstUnnamed (specs : List NamespaceSpec) (k : Nat) : Prop :=
  (∃ spec, specs[k]? = some spec ∧ ¬ IsNamed spec) ∧ ∀ spec ∈ specs.take k, IsNamed spec

theorem takeWhile_of_firstUnnamed {specs : List NamespaceSpec} {k : Nat}
    (h : FirstUnnamed specs k) : specs.takeWhile (IsNamed ·) = specs.take k := by
  obtain ⟨⟨spec, hk, hspec⟩, before⟩ := h
  obtain ⟨hlt, rfl⟩ := List.getElem?_eq_some_iff.mp hk
  have cut : specs = specs.take k ++ specs[k] :: specs.drop (k + 1) := by
    rw [← List.drop_eq_getElem_cons hlt, List.take_append_drop]
  rw [cut, List.takeWhile_append_of_pos (by simpa using before),
    List.takeWhile_cons_of_neg (by simpa using hspec)]
  simp

/-- Over any history a catalog is a map in which the last writer wins. A document that cannot be
decoded changes nothing, and one with a namespace without a name adds exactly what precedes it. -/
theorem registry_after (start : Start) (steps : List Step) :
    (∀ ns, Answers (log start steps) ns ((after start steps).registry ns)) ∧
    (∀ origin source, readDocument source = none →
      (after start steps).addDocument origin source =
        (after start steps, .error (.invalidConventions origin .malformed))) ∧
    ∀ origin source specs k, readDocument source = some specs → FirstUnnamed specs k →
      (after start steps).addDocument origin source =
        ((after start steps).insertAll ((specs.take k).map .ofSpec),
          .error (.invalidConventions origin .emptyNamespace)) := by
  refine ⟨(represents_after start steps).answers, ?_, ?_⟩
  · intro origin source h
    exact addDocument_of_none _ h origin
  · intro origin source specs k h hk
    rw [addDocument_of_some _ h, takeWhile_of_firstUnnamed hk, if_neg]
    obtain ⟨⟨spec, hspec, unnamed⟩, -⟩ := hk
    simp only [List.all_eq_true, decide_eq_true_eq]
    exact fun all => unnamed (all spec (List.mem_of_getElem? hspec))

def halfNamed : String :=
  "[[namespace]]\nname = \"Acme\"\n[[namespace]]\nname = \"\\\\\"\n[[namespace]]\nname = \"Late\"\n"

def acmeSteps : List Step :=
  [.load "half.toml" halfNamed, .insert ⟨"Acme", [("Money", .valueObject)]⟩,
    .insert ⟨" \\Acme", [("Money", .complexClassType), ("Price", .valueObject)]⟩]

theorem registry_after_acme :
    (∃ r, (after .builtin acmeSteps).registry "\\Acme\\" = .ok r ∧
      r.resolve? "Money" = some .complexClassType) ∧
    (after .builtin acmeSteps).registry "Late" = .error (.unknownNamespace "Late") ∧
    ∃ specs, readDocument halfNamed = some specs ∧ FirstUnnamed specs 1 ∧
      (after .builtin acmeSteps).addDocument "half.toml" halfNamed =
        ((after .builtin acmeSteps).insertAll ((specs.take 1).map .ofSpec),
          .error (.invalidConventions "half.toml" .emptyNamespace)) := by
  have law := registry_after .builtin acmeSteps
  have known : ∃ s ∈ log .builtin acmeSteps, s.ns = normalizeNamespace "\\Acme\\" := by
    decide +kernel
  have money : (conventionsFor (log .builtin acmeSteps) (normalizeNamespace "\\Acme\\")
      "Money").getLast? = some .complexClassType := by
    decide +kernel
  have unknown : ¬ ∃ s ∈ log .builtin acmeSteps, s.ns = normalizeNamespace "Late" := by
    decide +kernel
  have late : normalizeNamespace "Late" = "Late" := by decide +kernel
  have specs : readDocument halfNamed = some [⟨"Acme", []⟩, ⟨"\\", []⟩, ⟨"Late", []⟩] := by
    decide +kernel
  have first : FirstUnnamed [⟨"Acme", []⟩, ⟨"\\", []⟩, ⟨"Late", []⟩] 1 :=
    ⟨⟨_, rfl, by decide +kernel⟩, by decide +kernel⟩
  -- From here on the history is any one of which these facts hold.
  generalize acmeSteps = steps at *
  obtain ⟨looked, -, half⟩ := law
  refine ⟨?_, ?_, _, specs, first, half "half.toml" halfNamed _ 1 specs first⟩
  · have answer := looked "\\Acme\\"
    cases hr : (after .builtin steps).registry "\\Acme\\" with
    | error e =>
      rw [hr] at answer
      exact absurd known answer.1
    | ok r =>
      rw [hr] at answer
      exact ⟨r, rfl, (answer.2.2 "Money").trans money⟩
  · have answer := looked "Late"
    cases hr : (after .builtin steps).registry "Late" with
    | ok r =>
      rw [hr] at answer
      exact absurd answer.2.1 unknown
    | error e =>
      rw [hr] at answer
      rw [answer.2, late]

end Datatypes.Catalog
