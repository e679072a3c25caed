import Mathlib.Data.List.Nodup
import Datatypes.Proofs.Class.CopyOnWrite
import Datatypes.Proofs.Text.Segments
import Datatypes.Proofs.Text.Uppercase
import Datatypes.Text.Class

/-!
The names of the methods of a class. Accessors are called like their fields and mutators after
them, so distinct fields do not always make distinct methods: capital letters hide the difference
between two names, a field can be called like the mutator of another one, and one can be called
like the constructor. Nothing else makes two methods share a name.
-/

namespace Datatypes

namespace Class

open Text

inductive Clash (names : List String) : Prop where
  | construct (h : "__construct" ∈ names)
  | mutators {a b : String} (ha : a ∈ names) (hb : b ∈ names) (hne : a ≠ b)
      (h : capitalize a = capitalize b)
  | accessor {a b : String} (ha : a ∈ names) (hb : b ∈ names) (hne : a ≠ b)
      (h : a = "with" ++ capitalize b)

theorem ne_with_capitalize (a : String) : a ≠ "with" ++ capitalize a := by
  intro h
  have longer := length_le_capitalize a
  have same := congrArg (·.toList.length) h
  simp only [String.toList_append, List.length_append] at same
  have four : "with".toList.length = 4 := rfl
  omega

theorem with_capitalize_ne_construct (a : String) : "with" ++ capitalize a ≠ "__construct" := by
  intro h
  have first := congrArg (·.toList.head?) h
  simp at first

def methodNames (c : Constructor) (v : Convention) : List String :=
  "__construct" :: (fieldNames c v ++ (fieldNames c v).map ("with" ++ capitalize ·))

theorem names_methods (c : Constructor) (v : Convention) :
    (methods c v).map (·.name) = methodNames c v := by
  rw [methods_eq, methodNames, ← names_members]
  simp only [List.map_cons, List.map_append, List.map_map]
  rfl

theorem nodup_names_iff {names : List String} (hn : names.Nodup) :
    ("__construct" :: (names ++ names.map ("with" ++ capitalize ·))).Nodup ↔ ¬ Clash names := by
  constructor
  · intro h clash
    obtain ⟨hfirst, hrest⟩ := List.nodup_cons.mp h
    obtain ⟨-, hmutators, hdisjoint⟩ := List.nodup_append.mp hrest
    cases clash with
    | construct hmem => exact hfirst (List.mem_append_left _ hmem)
    | mutators ha hb hne hcap =>
      exact hne (List.inj_on_of_nodup_map hmutators ha hb (congrArg ("with" ++ ·) hcap))
    | accessor ha hb _ heq => exact hdisjoint _ ha _ (List.mem_map_of_mem hb) heq
  · intro h
    refine List.nodup_cons.mpr ⟨?_, List.nodup_append.mpr ⟨hn, ?_, ?_⟩⟩
    · intro hmem
      rcases List.mem_append.mp hmem with hmem | hmem
      · exact h (.construct hmem)
      · obtain ⟨a, -, heq⟩ := List.mem_map.mp hmem
        exact with_capitalize_ne_construct a heq
    · refine hn.map_on fun a ha b hb heq => ?_
      by_contra hne
      exact h (.mutators ha hb hne ((String.append_right_inj _).mp heq))
    · intro a ha b hb heq
      obtain ⟨field, hfield, rfl⟩ := List.mem_map.mp hb
      by_cases hne : a = field
      · exact ne_with_capitalize field (hne ▸ heq)
      · exact h (.accessor ha hfield hne heq)

theorem source_ends_with_methods {d : Definition} {v : Convention} {unit : SourceUnit}
    (h : assemble d v = .ok unit) :
    ∃ front, unit.source =
      text (front ++ [""].intercalate ((methods d.constructor v).map (·.lines)) ++ ["\x7d"]) := by
  have cut := intercalate_append [""]
    ([traitLines v, constantLines v].filter (· ≠ []) ++ properties d.constructor v)
    (by simp [methods] : (methods d.constructor v).map (·.lines) ≠ [])
  rw [source_of_assemble h, lines, blocks, cut, ← List.append_assoc]
  exact ⟨_, rfl⟩

theorem methodNames_nodup_iff {d : Definition} {v : Convention} {unit : SourceUnit}
    (h : assemble d v = .ok unit) (hn : (fieldNames d.constructor v).Nodup) :
    (∃ front, unit.source =
      text (front ++ [""].intercalate ((methods d.constructor v).map (·.lines)) ++ ["\x7d"])) ∧
    (methods d.constructor v).map (·.name) = methodNames d.constructor v ∧
    (((methods d.constructor v).map (·.name)).Nodup ↔ ¬ Clash (fieldNames d.constructor v)) := by
  refine ⟨source_ends_with_methods h, names_methods _ v, ?_⟩
  rw [names_methods]
  exact nodup_names_iff hn

def point (second : String) : Definition where
  ns := "Geo"
  name := "Point"
  constructor := ⟨"Geo\\Point", [⟨"x", "int", false, false⟩, ⟨second, "int", false, false⟩]⟩
  deriv := .named "ValueObject"
  conditions := []
  messageName := none

theorem methodNames_point : ∃ unit, assemble (point "y") .valueObject = .ok unit ∧
    (fieldNames (point "y").constructor .valueObject).Nodup ∧
    (methods (point "y").constructor .valueObject).map (·.name) =
      ["__construct", "x", "y", "withX", "withY"] ∧
    ¬ Clash (fieldNames (point "y").constructor .valueObject) := by
  have assembled : assemble (point "y") .valueObject =
      .ok ⟨(point "y").qualifiedName, text (lines (point "y") .valueObject)⟩ := rfl
  have fields_distinct : (fieldNames (point "y").constructor .valueObject).Nodup := by decide
  have names : (methods (point "y").constructor .valueObject).map (·.name) =
      ["__construct", "x", "y", "withX", "withY"] := by decide
  have distinct : ((methods (point "y").constructor .valueObject).map (·.name)).Nodup := by
    rw [names]
    decide
  exact ⟨_, assembled, fields_distinct, names,
    (methodNames_nodup_iff assembled fields_distinct).2.2.mp distinct⟩

/-- The fields `x` and `X` are two, and so are their accessors, but not their mutators. -/
theorem not_nodup_methodNames_point : ∃ unit, assemble (point "X") .valueObject = .ok unit ∧
    (∀ name ∈ fieldNames (point "X").constructor .valueObject, isWord name = true) ∧
    (fieldNames (point "X").constructor .valueObject).Nodup ∧
    ¬ ((methods (point "X").constructor .valueObject).map (·.name)).Nodup :=
  ⟨⟨(point "X").qualifiedName, text (lines (point "X") .valueObject)⟩, rfl, by decide, by decide,
    by decide⟩

end Class

end Datatypes
