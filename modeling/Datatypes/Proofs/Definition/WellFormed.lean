import Datatypes.Declaration.State
import Datatypes.Proofs.Text.Segments
import Datatypes.Proofs.Token.Spelling

/-!
The shape of the definitions that declarations give: names are words, class names are words with
separators between them, and a message name goes with a deriving that can carry one.
-/

namespace Datatypes

def IsPath (s : String) : Prop :=
  ∃ words, words ≠ [] ∧ (∀ w ∈ words, Text.isWord w = true) ∧
    s = Declaration.Reference.spelling words

theorem isPath_of_isWord {w : String} (h : Text.isWord w = true) : IsPath w :=
  ⟨[w], by simp, by simpa using h, by simp [Declaration.Reference.spelling]⟩

theorem IsPath.ne_empty {s : String} (h : IsPath s) : s ≠ "" := by
  obtain ⟨words, hne, hall, rfl⟩ := h
  cases words with
  | nil => exact absurd rfl hne
  | cons w words =>
    intro he
    have hw := hall w (by simp)
    cases words with
    | nil =>
      rw [Declaration.Reference.spelling, String.intercalate_singleton] at he
      simp [he, Text.isWord] at hw
    | cons v words =>
      have := congrArg String.toList he
      simp [Declaration.Reference.spelling] at this

theorem IsPath.head {s : String} (h : IsPath s) :
    ∃ c cs, s.toList = c :: cs ∧ Text.isWordStart c = true := by
  obtain ⟨words, hne, hall, rfl⟩ := h
  obtain ⟨w, rest, rfl⟩ := List.exists_cons_of_ne_nil hne
  obtain ⟨c, cs, rfl, hc, -⟩ := Token.exists_of_isWord (hall w (by simp))
  cases rest with
  | nil => exact ⟨c, cs, by simp [Declaration.Reference.spelling], hc⟩
  | cons v rest => exact ⟨c, _, by simp [Declaration.Reference.spelling]; rfl, hc⟩

theorem IsPath.ne_rooted {s : String} (h : IsPath s) (t : String) : s ≠ "\\" ++ t := by
  obtain ⟨c, cs, hcs, hc⟩ := h.head
  rintro rfl
  obtain rfl : '\\' = c := by simpa using congrArg List.head? hcs
  exact absurd hc (by decide)

theorem dropLeading_of_isPath {s : String} (h : IsPath s) : Text.dropLeading '\\' s = s := by
  obtain ⟨c, cs, hcs, hc⟩ := h.head
  have other : c ≠ '\\' := by
    rintro rfl
    exact absurd hc (by decide)
  rw [Text.dropLeading, hcs, List.dropWhile_cons_of_neg (by simpa using other), ← hcs,
    String.ofList_toList]

namespace Text

def isPathChar (c : Char) : Bool := isWordChar c || c = '\\'

theorem isWordChar_of_mem {w : String} (h : isWord w = true) :
    ∀ c ∈ w.toList, isWordChar c = true := by
  obtain ⟨first, rest, rfl, hfirst, hrest⟩ := Token.exists_of_isWord h
  intro c hc
  rw [String.toList_ofList] at hc
  rcases List.mem_cons.mp hc with rfl | hc
  · exact isWordChar_of_isWordStart hfirst
  · exact hrest c hc

theorem isPathChar_of_mem {s : String} (h : IsPath s) : ∀ c ∈ s.toList, isPathChar c = true := by
  obtain ⟨words, -, hall, rfl⟩ := h
  rw [Declaration.Reference.spelling, String.toList_intercalate]
  refine forall_mem_intercalate (by simp [isPathChar]) fun part hpart c hc => ?_
  obtain ⟨w, hw, rfl⟩ := List.mem_map.mp hpart
  simp [isPathChar, isWordChar_of_mem (hall w hw) c hc]

end Text

structure Argument.WellFormed (a : Argument) : Prop where
  name : Text.isWord a.name = true
  type : a = .untyped a.name ∨ IsPath a.type

structure Constructor.WellFormed (c : Constructor) : Prop where
  name : isScalarConstructor c.name = true ∨ IsPath c.name
  arguments : ∀ a ∈ c.arguments, a.WellFormed

def Deriving.WellFormed : Deriving → Prop
  | .named name => Text.isWord name = true ∧ name ≠ enumName
  | .enum values => (values.map Prod.fst).Nodup ∧ ∀ v ∈ values, Text.isWord v.1 = true

theorem Deriving.isWord_name {d : Deriving} (h : d.WellFormed) : Text.isWord d.name = true := by
  cases d with
  | named name => exact h.1
  | enum values => exact (by decide : Text.isWord enumName = true)

structure Condition.WellFormed (c : Condition) : Prop where
  scope : IsPath c.scope
  expression : Text.trim c.expression = c.expression

structure Definition.WellFormed (d : Definition) : Prop where
  ns : d.ns = "" ∨ IsPath d.ns
  name : Text.isWord d.name = true
  constructor : d.constructor.WellFormed
  deriv : d.deriv.WellFormed
  conditions : ∀ c ∈ d.conditions, c.WellFormed
  messageName : d.messageName ≠ none → d.deriv.name ∈ messageDerivings

end Datatypes
