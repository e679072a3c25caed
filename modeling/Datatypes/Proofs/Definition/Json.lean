import Mathlib.Data.List.Basic
import Datatypes.Declaration.Parser
import Datatypes.Definition.Json
import Datatypes.Proofs.Json.Compact

/-!
The JSON text of a collection determines the collection. Each record is read back from its value,
and the value from its text; an integer and a text are told apart by the quote. The digits of a
fraction are left out here: two of them can have one text.
-/

namespace Datatypes

open Json

namespace Constant

def isFloat : Constant → Bool
  | .float _ => true
  | _ => false

theorem whole_toJson {v : Constant} (h : v.isFloat = false) : v.toJson.Whole := by
  cases v with
  | int n => exact whole_ofInt n
  | float x => cases h
  | text s => exact .string

theorem toJson_inj {v w : Constant} (hv : v.isFloat = false) (hw : w.isFloat = false)
    (h : v.toJson = w.toJson) : v = w := by
  cases v with
  | float x => cases hv
  | int m =>
    cases w with
    | int n => exact congrArg Constant.int (ofInt_inj h)
    | float y => cases hw
    | text t => cases h
  | text s =>
    cases w with
    | int n => cases h
    | float y => cases hw
    | text t => exact congrArg Constant.text (Json.string.inj h)

end Constant

theorem map_inj_of_mem {α β : Type} {f : α → β} {xs ys : List α}
    (inj : ∀ x ∈ xs, ∀ y ∈ ys, f x = f y → x = y) (h : xs.map f = ys.map f) : xs = ys := by
  induction xs generalizing ys with
  | nil => simpa using h.symm
  | cons x xs ih =>
    cases ys with
    | nil => cases h
    | cons y ys =>
      rw [List.map_cons, List.map_cons, List.cons.injEq] at h
      rw [inj x (by simp) y (by simp) h.1,
        ih (fun a ha b hb => inj a (by simp [ha]) b (by simp [hb])) h.2]

theorem whole_map {α : Type} {toJson : α → Json} {xs : List α} (h : ∀ x ∈ xs, (toJson x).Whole) :
    (Json.array (xs.map toJson)).Whole := by
  apply Whole.array
  intro item hitem
  obtain ⟨x, hx, rfl⟩ := List.mem_map.mp hitem
  exact h x hx

namespace Argument

theorem whole_toJson (a : Argument) : a.toJson.Whole := by
  apply Whole.object
  simp [Whole.string, Whole.bool]

theorem toJson_injective : Function.Injective Argument.toJson := by
  intro a b h
  simp only [toJson, Json.object.injEq, List.cons.injEq, Prod.mk.injEq, Json.string.injEq,
    Json.bool.injEq, true_and, and_true] at h
  obtain ⟨name, type, nullable, isList⟩ := h
  cases a
  cases b
  simp_all

end Argument

namespace Constructor

theorem whole_toJson (c : Constructor) : c.toJson.Whole := by
  apply Whole.object
  simp [Whole.string, whole_map fun a _ => Argument.whole_toJson a]

theorem toJson_injective : Function.Injective Constructor.toJson := by
  intro c c' h
  simp only [toJson, Json.object.injEq, List.cons.injEq, Prod.mk.injEq, Json.string.injEq,
    Json.array.injEq, true_and, and_true] at h
  obtain ⟨name, arguments⟩ := h
  have sameArguments := List.map_injective_iff.mpr Argument.toJson_injective arguments
  cases c
  cases c'
  simp_all

end Constructor

namespace Condition

theorem whole_toJson (c : Condition) : c.toJson.Whole := by
  apply Whole.object
  simp [Whole.string]

theorem toJson_injective : Function.Injective Condition.toJson := by
  intro c c' h
  simp only [toJson, Json.object.injEq, List.cons.injEq, Prod.mk.injEq, Json.string.injEq,
    true_and, and_true] at h
  obtain ⟨scope, expression, message⟩ := h
  cases c
  cases c'
  simp_all

end Condition

namespace Deriving

def FloatFree : Deriving → Prop
  | .named _ => True
  | .enum values => ∀ entry ∈ values, entry.2.isFloat = false

theorem whole_toJson {d : Deriving} (h : d.FloatFree) : d.toJson.Whole := by
  cases d with
  | named name =>
    apply Whole.object
    simp [Whole.string]
  | enum values =>
    have cases : (Json.object (values.map fun entry => (entry.1, entry.2.toJson))).Whole := by
      apply Whole.object
      intro field hfield
      obtain ⟨entry, hentry, rfl⟩ := List.mem_map.mp hfield
      exact Constant.whole_toJson (h entry hentry)
    apply Whole.object
    simp [Whole.string, cases]

theorem toJson_inj {d d' : Deriving} (hd : d.FloatFree) (hd' : d'.FloatFree)
    (h : d.toJson = d'.toJson) : d = d' := by
  cases d with
  | named name =>
    cases d' with
    | named name' => simpa [toJson] using h
    | enum values' => simp [toJson] at h
  | enum values =>
    cases d' with
    | named name' => simp [toJson] at h
    | enum values' =>
      have entries : values.map (fun entry => (entry.1, entry.2.toJson)) =
          values'.map (fun entry => (entry.1, entry.2.toJson)) := by
        simpa [toJson] using h
      have same := map_inj_of_mem (fun x hx y hy hxy => by
        rw [Prod.mk.injEq] at hxy
        exact Prod.ext hxy.1 (Constant.toJson_inj (hd x hx) (hd' y hy) hxy.2)) entries
      rw [same]

end Deriving

namespace Definition

theorem whole_toJson {d : Definition} (h : d.deriv.FloatFree) : d.toJson.Whole := by
  have conditions := whole_map fun c (_ : c ∈ d.conditions) => Condition.whole_toJson c
  apply Whole.object
  cases d.messageName <;>
    simp [Whole.string, Constructor.whole_toJson, Deriving.whole_toJson h, conditions]

theorem toJson_inj {d d' : Definition} (hd : d.deriv.FloatFree) (hd' : d'.deriv.FloatFree)
    (h : d.toJson = d'.toJson) : d = d' := by
  simp only [toJson, Json.object.injEq, List.cons_append, List.nil_append, List.cons.injEq,
    Prod.mk.injEq, Json.string.injEq, Json.array.injEq, true_and] at h
  obtain ⟨ns, name, constructor, deriv, conditions, message⟩ := h
  have sameMessage : d.messageName = d'.messageName := by
    cases hm : d.messageName <;> cases hm' : d'.messageName <;> simp_all
  have sameDeriv := Deriving.toJson_inj hd hd' deriv
  have sameConstructor := Constructor.toJson_injective constructor
  have sameConditions := List.map_injective_iff.mpr Condition.toJson_injective conditions
  cases d
  cases d'
  simp_all

end Definition

def Collection.FloatFree (c : Collection) : Prop := ∀ d ∈ c.definitions, d.deriv.FloatFree

theorem collection_of_json {c c' : Collection} (hc : c.FloatFree) (hc' : c'.FloatFree)
    (same : c.toJson.compact = c'.toJson.compact) : c = c' := by
  have whole {c : Collection} (h : c.FloatFree) : c.toJson.Whole := by
    apply Whole.object
    simp [Whole.string, whole_map fun d hd => Definition.whole_toJson (h d hd)]
  have value := compact_inj (whole hc) (whole hc') same
  simp only [Collection.toJson, Json.object.injEq, List.cons.injEq, Prod.mk.injEq,
    Json.string.injEq, Json.array.injEq, true_and, and_true] at value
  obtain ⟨file, definitions⟩ := value
  have sameDefinitions := map_inj_of_mem
    (fun d hd d' hd' => Definition.toJson_inj (hc d hd) (hc' d' hd')) definitions
  cases c
  cases c'
  simp_all

def suits (clubs : Constant) : Collection :=
  ⟨"suits", [⟨"Cards", "Suit", ⟨"Cards\\Suit", [⟨"face", "string", true, false⟩]⟩,
    .enum [("Hearts", .int (-1)), ("Clubs", clubs)], [⟨"_", "$face == '\"'", "no \\ face"⟩], none⟩]⟩

def suitsSource : String :=
  "namespace Cards; data Suit = Suit \x7b ?string $face \x7d deriving (Enum) " ++
    "with (Hearts: -1, Clubs: '-1') where _: | $face == '\"' => \"no \\ face\";"

theorem floatFree_suits (clubs : Constant) (h : clubs.isFloat = false) :
    (suits clubs).FloatFree := by
  intro d hd
  obtain rfl := List.mem_singleton.mp hd
  have hearts : (Constant.int (-1)).isFloat = false := rfl
  simp [Deriving.FloatFree, hearts, h]

theorem collection_of_json_suits :
    ∃ c, Declaration.parse "suits" suitsSource = .ok c ∧
      (suits (.text "-1")).FloatFree ∧ (suits (.int (-1))).FloatFree ∧
      c.toJson.compact = (suits (.text "-1")).toJson.compact ∧ c = suits (.text "-1") ∧
      c.toJson.compact ≠ (suits (.int (-1))).toJson.compact := by
  have parsed : Declaration.parse "suits" suitsSource = .ok (suits (.text "-1")) := by
    decide +kernel
  have text := floatFree_suits (.text "-1") rfl
  have int := floatFree_suits (.int (-1)) rfl
  refine ⟨_, parsed, text, int, rfl, collection_of_json text text rfl, fun same => ?_⟩
  exact absurd (collection_of_json text int same) (by decide +kernel)

end Datatypes
