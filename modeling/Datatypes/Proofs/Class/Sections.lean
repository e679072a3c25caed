import Datatypes.Proofs.Class.CopyOnWrite
import Datatypes.Proofs.Text.Segments
import Datatypes.Proofs.Text.Uppercase

/-!
The lines of a class, told apart by how far they are indented and by how they start. As long as
no text that is spliced in has a line end, every line belongs to the section that wrote it, and
the sections stand in their fixed order.
-/

namespace Datatypes

def Definition.texts (d : Definition) : List String :=
  d.ns :: d.name :: d.constructor.arguments.flatMap fun a => [a.name, a.type]

def Attribute.texts (a : Attribute) : List String := a.name :: a.type :: a.default.toList

def Convention.texts (v : Convention) : List String :=
  v.uses ++ v.interfaces ++ v.parents ++ v.traits ++
    (v.publicConstants ++ v.privateConstants).flatMap (fun c => [c.key, c.value]) ++
    (v.protectedAttributes ++ v.privateAttributes).flatMap Attribute.texts

def OneLine (s : String) : Prop := '\n' ∉ s.toList

instance (s : String) : Decidable (OneLine s) := inferInstanceAs (Decidable ('\n' ∉ s.toList))

section OneLine

variable {s t : String}

@[simp] theorem oneLine_append : OneLine (s ++ t) ↔ OneLine s ∧ OneLine t := by
  simp [OneLine]

theorem oneLine_of_subset (h : OneLine s) (hsub : t.toList ⊆ s.toList) : OneLine t :=
  fun hmem => h (hsub hmem)

theorem oneLine_dropLeading (h : OneLine s) (c : Char) : OneLine (Text.dropLeading c s) := by
  refine oneLine_of_subset h ?_
  rw [Text.dropLeading, String.toList_ofList]
  exact (List.dropWhile_suffix _).subset

theorem oneLine_afterLast (h : OneLine s) (c : Char) : OneLine (Text.afterLast c s) := by
  refine oneLine_of_subset h fun x hx => ?_
  rw [Text.afterLast, String.toList_ofList, List.mem_reverse] at hx
  exact List.mem_reverse.mp ((List.takeWhile_prefix _).subset hx)

theorem oneLine_intercalate {parts : List String} (hs : OneLine s)
    (h : ∀ part ∈ parts, OneLine part) : OneLine (s.intercalate parts) := by
  rw [OneLine, String.toList_intercalate]
  intro hmem
  refine Text.forall_mem_intercalate (P := (· ≠ '\n')) ?_ ?_ '\n' hmem rfl
  · rintro x hx rfl
    exact hs hx
  · rintro part hpart x hx rfl
    obtain ⟨p, hp, rfl⟩ := List.mem_map.mp hpart
    exact h p hp hx

end OneLine

namespace Text

theorem oneLine_capitalize {s : String} (h : OneLine s) : OneLine (capitalize s) := by
  rw [capitalize]
  split
  · simp [OneLine]
  · next c cs hcs =>
    simp only [OneLine, hcs, List.mem_cons, not_or] at h
    simpa [OneLine] using ⟨newline_not_mem_capital (Ne.symm h.1), h.2⟩

end Text

section OneLine

variable {a : Attribute}

theorem oneLine_qualifiedType {type : String} (h : OneLine type) :
    OneLine (qualifiedType type) := by
  have bare := oneLine_dropLeading h '\\'
  simp only [qualifiedType]
  split
  · exact bare
  · exact oneLine_append.mpr ⟨by decide, bare⟩

theorem oneLine_typeHint (h : OneLine a.type) : ∀ hint ∈ a.typeHint, OneLine hint := by
  have base : OneLine (if a.isList then "array" else qualifiedType a.type) := by
    split
    · decide
    · exact oneLine_qualifiedType h
  intro hint hmem
  simp only [Attribute.typeHint] at hmem
  generalize (if a.isList then "array" else qualifiedType a.type) = type at base hmem
  split at hmem
  · cases hmem
  · split at hmem
    · rw [← Option.some.inj hmem]
      exact oneLine_append.mpr ⟨by decide, base⟩
    · rwa [← Option.some.inj hmem]

theorem oneLine_documentedType (h : OneLine a.type) : OneLine a.documentedType := by
  simp only [Attribute.documentedType, oneLine_append]
  refine ⟨⟨?_, ?_⟩, ?_⟩
  · split
    · decide
    · exact oneLine_qualifiedType h
  · split <;> decide
  · split <;> decide

theorem oneLine_parameter (hname : OneLine a.name) (htype : OneLine a.type) :
    OneLine a.parameter := by
  rw [Attribute.parameter]
  split
  · next hint found =>
    exact oneLine_append.mpr
      ⟨oneLine_append.mpr ⟨oneLine_typeHint htype hint found, by decide⟩, hname⟩
  · exact oneLine_append.mpr ⟨by decide, hname⟩

end OneLine

namespace Class

def sourceLines (source : String) : List String := Text.split '\n' source

def indent (line : String) : Nat := (line.toList.takeWhile (· = ' ')).length

def isMargin (line : String) : Bool := line ≠ "" && indent line = 0

def isMember (line : String) : Bool := indent line = 4

def isMemberOf (start line : String) : Bool :=
  isMember line && start.toList.isPrefixOf (line.toList.drop 4)

def isProperty (line : String) : Bool :=
  isMemberOf "protected $" line || isMemberOf "private $" line

theorem sourceLines_text {ls : List String} (h : ∀ l ∈ ls, OneLine l) :
    sourceLines (text ls) = ls ++ [""] := by
  have joined : text ls = "\n".intercalate (ls ++ [""]) := by
    clear h
    induction ls with
    | nil => simp [text]
    | cons l ls ih =>
      have rest : text (l :: ls) = l ++ "\n" ++ text ls := by
        rw [text, List.map_cons, String.join_cons, ← text]
      obtain ⟨next, more, hmore⟩ := List.exists_cons_of_ne_nil (by simp : ls ++ [""] ≠ [])
      rw [rest, ih, List.cons_append, hmore, String.intercalate_cons_cons]
  rw [sourceLines, joined]
  refine Text.split_intercalate (by rfl) (by simp) fun l hl => ?_
  rcases List.mem_append.mp hl with hl | hl
  · exact h l hl
  · rw [List.mem_singleton.mp hl]
    simp

section Lines

variable {d : Definition} {v : Convention}

theorem oneLine_shortNames {names : List String} (h : ∀ name ∈ names, OneLine name) :
    ∀ name ∈ shortNames names, OneLine name := by
  intro name hname
  obtain ⟨full, hfull, rfl⟩ := List.mem_map.mp hname
  exact oneLine_afterLast (h full hfull) '\\'

theorem oneLine_header {name : String} (hname : OneLine name) (hv : ∀ s ∈ v.texts, OneLine s) :
    OneLine (header name v) := by
  have listed {names : List String} (h : ∀ s ∈ names, s ∈ v.texts) :
      OneLine (", ".intercalate (shortNames names)) :=
    oneLine_intercalate (by decide) (oneLine_shortNames fun s hs => hv s (h s hs))
  have keyword : OneLine v.kind.keyword := by cases v.kind <;> decide
  simp only [header, oneLine_append]
  refine ⟨⟨⟨⟨keyword, by decide⟩, hname⟩, ?_⟩, ?_⟩
  · split
    · decide
    · exact oneLine_append.mpr ⟨by decide, listed fun s hs => by simp [Convention.texts, hs]⟩
  · split
    · decide
    · exact oneLine_append.mpr ⟨by decide, listed fun s hs => by simp [Convention.texts, hs]⟩

theorem oneLine_propertyLines {a : Attribute} (h : ∀ s ∈ a.texts, OneLine s) {visibility : String}
    (hv : OneLine visibility) : ∀ l ∈ propertyLines visibility a, OneLine l := by
  have type := oneLine_documentedType (h a.type (by simp [Attribute.texts]))
  have name := h a.name (by simp [Attribute.texts])
  simp only [propertyLines, List.mem_cons, List.not_mem_nil, or_false, forall_eq_or_imp, forall_eq,
    oneLine_append]
  refine ⟨by decide, ⟨by decide, type⟩, by decide,
    ⟨⟨⟨⟨by decide, hv⟩, by decide⟩, name⟩, ?_⟩, by decide⟩
  split
  · next value found =>
    exact oneLine_append.mpr ⟨by decide, h value (by simp [Attribute.texts, found])⟩
  · decide

theorem oneLine_methodLines {m : Method} (hname : OneLine m.name)
    (hparameters : ∀ a ∈ m.parameters, OneLine a.parameter) (hresult : ∀ r ∈ m.result, OneLine r)
    (hbody : ∀ s ∈ m.body, OneLine s.line) : ∀ l ∈ m.lines, OneLine l := by
  have parameters : OneLine (", ".intercalate (m.parameters.map (·.parameter))) := by
    refine oneLine_intercalate (by decide) fun p hp => ?_
    obtain ⟨a, ha, rfl⟩ := List.mem_map.mp hp
    exact hparameters a ha
  have head : OneLine m.header := by
    simp only [Method.header, oneLine_append]
    refine ⟨⟨⟨⟨⟨by decide, hname⟩, by decide⟩, parameters⟩, by decide⟩, ?_⟩
    split
    · next type found => exact oneLine_append.mpr ⟨by decide, hresult type found⟩
    · decide
  intro l hl
  simp only [Method.lines, List.cons_append, List.mem_cons, List.mem_append, List.mem_map,
    List.not_mem_nil, or_false] at hl
  rcases hl with rfl | rfl | ⟨s, hs, rfl⟩ | rfl
  · exact head
  · decide
  · exact hbody s hs
  · decide

theorem oneLine_methods {c : Constructor} (h : ∀ a ∈ fields c v, ∀ s ∈ a.texts, OneLine s) :
    ∀ m ∈ methods c v, ∀ l ∈ m.lines, OneLine l := by
  have name {a : Attribute} (ha : a ∈ fields c v) : OneLine a.name :=
    h a ha a.name (by simp [Attribute.texts])
  have type {a : Attribute} (ha : a ∈ fields c v) : OneLine a.type :=
    h a ha a.type (by simp [Attribute.texts])
  have argument {a : Attribute} (ha : a ∈ arguments c) : a ∈ fields c v :=
    List.mem_append_left _ ha
  intro m hm
  simp only [methods, List.cons_append, List.mem_cons, List.mem_append, List.mem_map] at hm
  rcases hm with rfl | ⟨a, ha, rfl⟩ | ⟨a, ha, rfl⟩
  · have keyword : OneLine "__construct" := by decide
    refine oneLine_methodLines keyword
      (fun a ha => oneLine_parameter (name (argument ha)) (type (argument ha)))
      (by simp [Method.constructor]) ?_
    intro s hs
    obtain ⟨a, ha, rfl⟩ := List.mem_map.mp hs
    have := name (argument ha)
    simp only [Statement.line, oneLine_append, this]
    decide
  · refine oneLine_methodLines (name ha) (by simp [Method.accessor]) (oneLine_typeHint (type ha)) ?_
    simp only [Method.accessor, List.mem_singleton, forall_eq, Statement.line, oneLine_append,
      name ha]
    decide
  · refine oneLine_methodLines (oneLine_append.mpr ⟨by decide, Text.oneLine_capitalize (name ha)⟩)
      (by simpa [Method.mutator] using oneLine_parameter (name ha) (type ha)) ?_ ?_
    · simp only [Method.mutator, Option.mem_some_iff, forall_eq']
      decide
    · simp only [Method.mutator, List.mem_cons, List.not_mem_nil, or_false, forall_eq_or_imp,
        forall_eq, Statement.line, oneLine_append, name ha]
      decide

theorem oneLine_fields (h : ∀ s ∈ d.texts ++ v.texts, OneLine s) :
    ∀ a ∈ fields d.constructor v, ∀ s ∈ a.texts, OneLine s := by
  intro a ha s hs
  rcases List.mem_append.mp ha with ha | ha
  · obtain ⟨argument, hargument, rfl⟩ := List.mem_map.mp ha
    refine h s (List.mem_append_left _ ?_)
    simp only [Attribute.texts, Attribute.ofArgument, Option.toList_none] at hs
    exact List.mem_cons_of_mem _ (List.mem_cons_of_mem _
      (List.mem_flatMap.mpr ⟨argument, hargument, hs⟩))
  · refine h s (List.mem_append_right _ (List.mem_append_right _ ?_))
    exact List.mem_flatMap.mpr ⟨a, List.mem_append_right _ ha, hs⟩

theorem oneLine_blocks (h : ∀ s ∈ d.texts ++ v.texts, OneLine s) :
    ∀ block ∈ blocks d.constructor v, ∀ l ∈ block, OneLine l := by
  have added {s : String} (hs : s ∈ v.texts) : OneLine s := h s (List.mem_append_right _ hs)
  have attributes {a : Attribute} (ha : a ∈ v.protectedAttributes ++ v.privateAttributes) :
      ∀ s ∈ a.texts, OneLine s := fun s hs =>
    added (List.mem_append_right _ (List.mem_flatMap.mpr ⟨a, ha, hs⟩))
  have constants {visibility : String} (hv : OneLine visibility) {c : ClassConstant}
      (hc : c ∈ v.publicConstants ++ v.privateConstants) :
      OneLine (constantLine visibility c) := by
    have parts : ∀ s ∈ [c.key, c.value], OneLine s := fun s hs =>
      added (List.mem_append_left _ (List.mem_append_right _ (List.mem_flatMap.mpr ⟨c, hc, hs⟩)))
    simp only [constantLine, oneLine_append]
    exact ⟨⟨⟨⟨⟨⟨by decide, hv⟩, by decide⟩, parts c.key (by simp)⟩, by decide⟩,
      parts c.value (by simp)⟩, by decide⟩
  intro block hblock
  simp only [blocks, properties, List.mem_append, List.mem_filter, List.mem_map, List.mem_cons,
    List.not_mem_nil, or_false] at hblock
  rcases hblock with (⟨rfl | rfl, -⟩ | (⟨a, ha, rfl⟩ | ⟨a, ha, rfl⟩) | ⟨a, ha, rfl⟩) | ⟨m, hm, rfl⟩
  · intro l hl
    obtain ⟨name, hname, rfl⟩ := List.mem_map.mp hl
    have short := oneLine_shortNames
      (fun s hs => added (by simp [Convention.texts, hs])) name hname
    simp only [oneLine_append, short]
    decide
  · intro l hl
    rcases List.mem_append.mp hl with hl | hl
    · obtain ⟨c, hc, rfl⟩ := List.mem_map.mp hl
      exact constants (by decide) (List.mem_append_left _ hc)
    · obtain ⟨c, hc, rfl⟩ := List.mem_map.mp hl
      exact constants (by decide) (List.mem_append_right _ hc)
  · exact oneLine_propertyLines (attributes (List.mem_append_left _ ha)) (by decide)
  · exact oneLine_propertyLines (attributes (List.mem_append_right _ ha)) (by decide)
  · exact oneLine_propertyLines (oneLine_fields h a (List.mem_append_left _ ha)) (by decide)
  · exact oneLine_methods (oneLine_fields h) m hm

theorem oneLine_lines (h : ∀ s ∈ d.texts ++ v.texts, OneLine s) :
    ∀ l ∈ lines d v, OneLine l := by
  have blank : ∀ l ∈ [""], OneLine l := by simp [OneLine]
  have imports : ∀ l ∈ importLines v, OneLine l := by
    intro l hl
    obtain ⟨name, hname, rfl⟩ := List.mem_map.mp hl
    have given :=
      h name (List.mem_append_right _ (List.mem_append_left _ (List.mem_append_left _ hname)))
    have := oneLine_dropLeading given '\\'
    simp only [oneLine_append, this]
    decide
  have front : ∀ l ∈ ["<?php", "", "declare(strict_types=1);", ""], OneLine l := by decide
  have ns : ∀ l ∈ if d.ns = "" then [] else ["namespace " ++ d.ns ++ ";", ""], OneLine l := by
    have := h d.ns (by simp [Definition.texts])
    split
    · simp
    · simp only [List.mem_cons, List.not_mem_nil, or_false, forall_eq_or_imp, forall_eq,
        oneLine_append, this]
      decide
  have imported : ∀ l ∈ if importLines v = [] then [] else importLines v ++ [""], OneLine l := by
    split
    · simp
    · exact List.forall_mem_append.mpr ⟨imports, blank⟩
  have head : OneLine (header d.name v) :=
    oneLine_header (h d.name (by simp [Definition.texts]))
      fun s hs => h s (List.mem_append_right _ hs)
  have opening : ∀ l ∈ [header d.name v, "\x7b"], OneLine l := by
    simp only [List.mem_cons, List.not_mem_nil, or_false, forall_eq_or_imp, forall_eq]
    exact ⟨head, by decide⟩
  have body := Text.forall_mem_intercalate blank (oneLine_blocks h)
  have closing : ∀ l ∈ ["\x7d"], OneLine l := by decide
  simp only [lines, List.forall_mem_append]
  exact ⟨⟨⟨⟨⟨front, ns⟩, imported⟩, opening⟩, body⟩, closing⟩

end Lines

theorem filter_intercalate_blank {p : String → Bool} (hp : p "" = false)
    (parts : List (List String)) :
    ([""].intercalate parts).filter p = parts.flatMap (·.filter p) := by
  induction parts with
  | nil => simp
  | cons part parts ih =>
    cases parts with
    | nil => simp
    | cons next parts =>
      rw [List.intercalate_cons_cons, List.filter_append, List.filter_append, ih]
      simp [hp]

section Filter

variable {d : Definition} {v : Convention}

theorem filter_lines {p : String → Bool} (hp : p "" = false) :
    (lines d v).filter p =
      ["<?php", "declare(strict_types=1);"].filter p ++
      (if d.ns = "" then [] else ["namespace " ++ d.ns ++ ";"]).filter p ++
      (importLines v).filter p ++ [header d.name v, "\x7b"].filter p ++
      (blocks d.constructor v).flatMap (·.filter p) ++ ["\x7d"].filter p := by
  have front : ["<?php", "", "declare(strict_types=1);", ""].filter p =
      ["<?php", "declare(strict_types=1);"].filter p := by
    simp [List.filter_cons, hp]
  have ns : (if d.ns = "" then [] else ["namespace " ++ d.ns ++ ";", ""]).filter p =
      (if d.ns = "" then [] else ["namespace " ++ d.ns ++ ";"]).filter p := by
    split
    · rfl
    · simp [List.filter_cons, hp]
  have imports : (if importLines v = [] then [] else importLines v ++ [""]).filter p =
      (importLines v).filter p := by
    split
    · next none => rw [none]
    · simp [hp]
  simp only [lines, List.filter_append, front, ns, imports, filter_intercalate_blank hp]

theorem isMargin_indented (s : String) : isMargin (indentation ++ s) = false := by
  simp [isMargin, indent, indentation]

theorem isMargin_method (m : Method) : ∀ l ∈ m.lines, isMargin l = false := by
  intro l hl
  simp only [Method.lines, List.cons_append, List.mem_cons, List.mem_append, List.mem_map,
    List.not_mem_nil, or_false] at hl
  rcases hl with rfl | rfl | ⟨s, -, rfl⟩ | rfl
  · simp only [Method.header, String.append_assoc, isMargin_indented]
  · exact isMargin_indented _
  · cases s with
    | blank => rfl
    | _ => simp only [Statement.line, String.append_assoc, isMargin_indented]
  · exact isMargin_indented _

theorem isMargin_property (visibility : String) (a : Attribute) :
    ∀ l ∈ propertyLines visibility a, isMargin l = false := by
  simp only [propertyLines, List.mem_cons, List.not_mem_nil, or_false, forall_eq_or_imp, forall_eq,
    String.append_assoc, isMargin_indented, and_self]

theorem isMargin_blocks (c : Constructor) :
    ∀ block ∈ blocks c v, ∀ l ∈ block, isMargin l = false := by
  intro block hblock l hl
  simp only [blocks, properties, List.mem_append, List.mem_filter, List.mem_map, List.mem_cons,
    List.not_mem_nil, or_false] at hblock
  rcases hblock with (⟨rfl | rfl, -⟩ | (⟨a, -, rfl⟩ | ⟨a, -, rfl⟩) | ⟨a, -, rfl⟩) | ⟨m, -, rfl⟩
  · obtain ⟨name, -, rfl⟩ := List.mem_map.mp hl
    simp only [String.append_assoc, isMargin_indented]
  · simp only [constantLines, List.mem_append, List.mem_map] at hl
    rcases hl with ⟨c, -, rfl⟩ | ⟨c, -, rfl⟩
    all_goals simp only [constantLine, String.append_assoc, isMargin_indented]
  · exact isMargin_property _ a l hl
  · exact isMargin_property _ a l hl
  · exact isMargin_property _ a l hl
  · exact isMargin_method m l hl

theorem isMember_indented (s : String) : isMember (indentation ++ s) = decide (indent s = 0) := by
  simp [isMember, indent, indentation]

theorem isMember_of_start {s t : String} (hs : s ≠ "") (hi : indent s = 0) :
    isMember (indentation ++ (s ++ t)) = true := by
  obtain ⟨c, cs, hcs⟩ := List.exists_cons_of_ne_nil (by simpa using hs : s.toList ≠ [])
  have start : c ≠ ' ' := by
    rintro rfl
    simp [indent, hcs] at hi
  rw [isMember_indented]
  simp [indent, hcs, start]

theorem filter_member_method (m : Method) :
    m.lines.filter isMember = [m.header, indentation ++ "\x7b", indentation ++ "\x7d"] := by
  have head : isMember m.header = true := by
    simp only [Method.header, String.append_assoc]
    exact isMember_of_start (by decide) (by decide)
  have brace (s : String) (hs : indent s = 0) : isMember (indentation ++ s) = true := by
    simp [isMember_indented, hs]
  have body : (m.body.map (·.line)).filter isMember = [] := by
    simp only [List.filter_eq_nil_iff, List.mem_map, forall_exists_index, and_imp,
      forall_apply_eq_imp_iff₂, Bool.not_eq_true]
    intro s _
    cases s with
    | blank => rfl
    | _ =>
      simp only [Statement.line, String.append_assoc, isMember_indented]
      simp [indent, indentation]
  simp [Method.lines, head, body, brace, indent, List.filter_cons]

def headText (d : Definition) (v : Convention) : String :=
  let listed (keyword : String) (names : List String) : String :=
    if names = [] then ""
    else " " ++ keyword ++ " " ++ ", ".intercalate (names.map (Text.afterLast '\\'))
  v.kind.keyword ++ " " ++ d.name ++ listed "extends" v.parents ++ listed "implements" v.interfaces

def useText (name : String) : String := "use \\" ++ Text.dropLeading '\\' name ++ ";"

def traitText (name : String) : String := indentation ++ "use " ++ Text.afterLast '\\' name ++ ";"

def constantText (visibility : String) (c : ClassConstant) : String :=
  indentation ++ visibility ++ " const " ++ c.key ++ " = " ++ c.value ++ ";"

def propertyText (visibility : String) (a : Attribute) : String :=
  indentation ++ visibility ++ " $" ++ a.name ++ a.default.elim "" (" = " ++ ·) ++ ";"

def argumentText (a : Argument) : String := indentation ++ "private $" ++ a.name ++ ";"

def propertyTexts (c : Constructor) (v : Convention) : List String :=
  v.protectedAttributes.map (propertyText "protected") ++
    v.privateAttributes.map (propertyText "private") ++ c.arguments.map argumentText

def typeText (a : Argument) : Option String :=
  let name := String.ofList (a.type.toList.dropWhile (· = '\\'))
  let mark := if a.nullable then "?" else ""
  if a.isList then some (mark ++ "array")
  else if name = "" then none
  else if name ∈ ["string", "int", "bool", "float"] then some (mark ++ name)
  else some (mark ++ ("\\" ++ name))

def parameterText (a : Argument) : String := (typeText a).elim "" (· ++ " ") ++ "$" ++ a.name

def accessorText (a : Argument) : String :=
  indentation ++ "public function " ++ a.name ++ "()" ++ (typeText a).elim "" (": " ++ ·)

def mutatorText (a : Argument) : String :=
  indentation ++ "public function with" ++ Text.capitalize a.name ++ "(" ++ parameterText a ++
    "): self"

def asArgument (a : Attribute) : Argument := ⟨a.name, a.type, a.nullable, a.isList⟩

def methodTexts (c : Constructor) (v : Convention) : List String :=
  let members := c.arguments ++ v.privateAttributes.map asArgument
  (indentation ++ "public function __construct(" ++
      ", ".intercalate (c.arguments.map parameterText) ++ ")") ::
    (members.map accessorText ++ members.map mutatorText)

theorem filter_member_property {visibility : String} (hv : indent visibility = 0)
    (hne : visibility ≠ "") (a : Attribute) :
    (propertyLines visibility a).filter isMember =
      [indentation ++ "/**", propertyText visibility a] := by
  have opening : isMember (indentation ++ "/**") = true := by decide
  have closing : isMember (indentation ++ " */") = false := by decide
  have type : isMember (indentation ++ (" * @var " ++ a.documentedType)) = false := by
    rw [isMember_indented]
    simp [indent]
  simp only [propertyLines, propertyText, String.append_assoc, List.filter_cons, List.filter_nil,
    opening, closing, type, isMember_of_start hne hv, Bool.false_eq_true, if_true, if_false]
  cases a.default <;> rfl

theorem propertyText_ofArgument (a : Argument) :
    propertyText "private" (.ofArgument a) = argumentText a := by
  have mark : "private" ++ " $" = "private $" := by decide
  simp only [propertyText, argumentText, Attribute.ofArgument, Option.elim_none,
    String.append_empty, ← mark, String.append_assoc]

theorem typeHint_eq (a : Attribute) : a.typeHint = typeText (asArgument a) := by
  have scalar (name : String) :
      isScalarType name = true ↔ name ∈ ["string", "int", "bool", "float"] := by
    simp [isScalarType, scalarTypes]
  obtain ⟨_, type, nullable, isList, _⟩ := a
  obtain ⟨name, hname⟩ : ∃ name, String.ofList (type.toList.dropWhile (· = '\\')) = name :=
    ⟨_, rfl⟩
  simp only [Attribute.typeHint, typeText, asArgument, qualifiedType, Text.dropLeading, hname]
  cases isList with
  | true => cases nullable <;> simp
  | false =>
    simp only [Bool.false_eq_true, if_false]
    by_cases empty : name = ""
    · simp [empty]
    by_cases hs : name ∈ ["string", "int", "bool", "float"]
    · have bare : (decide (name = "") || isScalarType name) = true := by simp [(scalar name).mpr hs]
      simp only [bare, if_true, if_neg empty, if_pos hs]
      cases nullable <;> simp
    · have absolute : (decide (name = "") || isScalarType name) = false := by
        simpa [empty, ← scalar] using hs
      have present : "\\" ++ name ≠ "" := by simp
      simp only [absolute, Bool.false_eq_true, if_false, if_neg empty, if_neg hs, if_neg present]
      cases nullable <;> simp

theorem parameter_eq (a : Attribute) : a.parameter = parameterText (asArgument a) := by
  rw [Attribute.parameter, parameterText, ← typeHint_eq]
  cases a.typeHint with
  | none => rfl
  | some hint =>
    simp only [Option.elim_some, String.append_assoc]
    rfl

theorem header_accessor (a : Attribute) :
    (Method.accessor a).header = accessorText (asArgument a) := by
  have brackets (s : String) : "(" ++ (")" ++ s) = "()" ++ s := by
    rw [← String.append_assoc]
    rfl
  rw [accessorText, ← typeHint_eq]
  cases ht : a.typeHint
  all_goals simp only [Method.header, Method.accessor, asArgument, List.map_nil,
    String.intercalate_nil, String.empty_append, String.append_assoc, brackets, ht,
    Option.elim_none, Option.elim_some]

theorem header_mutator (a : Attribute) :
    (Method.mutator a).header = mutatorText (asArgument a) := by
  have start (s : String) : "public function " ++ ("with" ++ s) = "public function with" ++ s := by
    rw [← String.append_assoc]
    rfl
  have result : ")" ++ (": " ++ "self") = "): self" := by decide
  simp only [Method.header, Method.mutator, Method.mutatorName, mutatorText, ← parameter_eq,
    List.map_cons, List.map_nil, String.intercalate_singleton, String.append_assoc, start, result]
  rfl

theorem header_constructor (as : List Argument) :
    (Method.constructor (as.map .ofArgument)).header =
      indentation ++ "public function __construct(" ++
        ", ".intercalate (as.map parameterText) ++ ")" := by
  have name (s : String) : "public function " ++ ("__construct" ++ ("(" ++ s)) =
      "public function __construct(" ++ s := by
    rw [← String.append_assoc, ← String.append_assoc]
    rfl
  have parameters : (as.map Attribute.ofArgument).map (·.parameter) = as.map parameterText := by
    simp only [List.map_map, Function.comp_def, parameter_eq]
    rfl
  simp only [Method.header, Method.constructor, parameters, String.append_assoc, name,
    String.append_empty]

theorem header_methods (c : Constructor) (v : Convention) :
    (methods c v).map (·.header) = methodTexts c v := by
  have members : (members c v).map asArgument =
      c.arguments ++ v.privateAttributes.map asArgument := by
    have same : asArgument ∘ Attribute.ofArgument = id := rfl
    simp [Class.members, same]
  simp only [methods_eq, methodTexts, List.map_cons, List.map_append, List.map_map,
    header_constructor, Function.comp_def, header_accessor, header_mutator, ← members]

def memberTexts (c : Constructor) (v : Convention) : List String :=
  v.traits.map traitText ++
    (v.publicConstants.map (constantText "public") ++
      v.privateConstants.map (constantText "private")) ++
    (propertyTexts c v).flatMap (fun l => [indentation ++ "/**", l]) ++
    (methodTexts c v).flatMap (fun l => [l, indentation ++ "\x7b", indentation ++ "\x7d"])

theorem filter_member_blocks (c : Constructor) (v : Convention) :
    (blocks c v).flatMap (·.filter isMember) = memberTexts c v := by
  have traits : (traitLines v).filter isMember = v.traits.map traitText := by
    have same : traitLines v = v.traits.map traitText := by
      simp only [traitLines, shortNames, List.map_map]
      rfl
    rw [same, List.filter_eq_self]
    simp only [List.mem_map, forall_exists_index, and_imp, forall_apply_eq_imp_iff₂, traitText,
      String.append_assoc]
    exact fun name _ => isMember_of_start (by decide) (by decide)
  have constants : (constantLines v).filter isMember =
      v.publicConstants.map (constantText "public") ++
        v.privateConstants.map (constantText "private") := by
    have same : constantLine = constantText := rfl
    rw [constantLines, same, List.filter_eq_self]
    simp only [List.forall_mem_append, List.mem_map, forall_exists_index, and_imp,
      forall_apply_eq_imp_iff₂, constantText, String.append_assoc]
    exact ⟨fun _ _ => isMember_of_start (by decide) (by decide),
      fun _ _ => isMember_of_start (by decide) (by decide)⟩
  have nonempty : ([traitLines v, constantLines v].filter (· ≠ [])).flatMap (·.filter isMember) =
      (traitLines v).filter isMember ++ (constantLines v).filter isMember := by
    by_cases ht : traitLines v = [] <;> by_cases hc : constantLines v = [] <;> simp [ht, hc]
  have property (visibility : String) (hi : indent visibility = 0) (hne : visibility ≠ "")
      (as : List Attribute) :
      (as.map (propertyLines visibility)).flatMap (·.filter isMember) =
        (as.map (propertyText visibility)).flatMap fun l => [indentation ++ "/**", l] := by
    simp only [List.flatMap_map, filter_member_property hi hne]
  have arguments : (arguments c).map (propertyText "private") = c.arguments.map argumentText := by
    simp only [Class.arguments, List.map_map, Function.comp_def, propertyText_ofArgument]
  have methods : ((methods c v).map (·.lines)).flatMap (·.filter isMember) =
      (methodTexts c v).flatMap fun l => [l, indentation ++ "\x7b", indentation ++ "\x7d"] := by
    simp only [← header_methods, List.flatMap_map, filter_member_method]
  simp only [blocks, properties, memberTexts, propertyTexts, List.flatMap_append, nonempty, traits,
    constants, methods, property "protected" (by decide) (by decide),
    property "private" (by decide) (by decide), arguments]

theorem filter_margin_lines (d : Definition) (v : Convention) :
    (lines d v).filter isMargin =
      ["<?php", "declare(strict_types=1);"] ++
      (if d.ns = "" then [] else ["namespace " ++ d.ns ++ ";"]) ++
      (v.uses ++ v.interfaces ++ v.parents ++ v.traits).map useText ++
      [headText d v, "\x7b", "\x7d"] := by
  have ns : (if d.ns = "" then [] else ["namespace " ++ d.ns ++ ";"]).filter isMargin =
      if d.ns = "" then [] else ["namespace " ++ d.ns ++ ";"] := by
    split
    · rfl
    · simp [isMargin, indent]
  have imports : (importLines v).filter isMargin =
      (v.uses ++ v.interfaces ++ v.parents ++ v.traits).map useText := by
    refine List.filter_eq_self.mpr fun l hl => ?_
    obtain ⟨name, -, rfl⟩ := List.mem_map.mp hl
    simp [isMargin, indent]
  have head : header d.name v = headText d v := by
    have first : " " ++ "extends" ++ " " = " extends " := by decide
    have second : " " ++ "implements" ++ " " = " implements " := by decide
    simp only [header, headText, shortNames, first, second]
  have margin : isMargin (headText d v) = true := by
    simp only [headText, String.append_assoc]
    cases v.kind <;> simp [ClassKind.keyword, isMargin, indent]
  have inner : (blocks d.constructor v).flatMap (·.filter isMargin) = [] := by
    refine List.flatMap_eq_nil_iff.mpr fun block hblock => List.filter_eq_nil_iff.mpr fun l hl => ?_
    simp [isMargin_blocks d.constructor block hblock l hl]
  have front : ["<?php", "declare(strict_types=1);"].filter isMargin =
      ["<?php", "declare(strict_types=1);"] := by decide
  have opening : isMargin "\x7b" = true := by decide
  have closing : isMargin "\x7d" = true := by decide
  rw [filter_lines (by decide), front, ns, imports, inner, head]
  simp [margin, opening, closing]

theorem filter_member_lines (d : Definition) (v : Convention) :
    (lines d v).filter isMember = memberTexts d.constructor v := by
  have front : ["<?php", "declare(strict_types=1);"].filter isMember = [] := by decide
  have ns : (if d.ns = "" then [] else ["namespace " ++ d.ns ++ ";"]).filter isMember = [] := by
    split
    · rfl
    · simp [isMember, indent]
  have imports : (importLines v).filter isMember = [] := by
    refine List.filter_eq_nil_iff.mpr fun l hl => ?_
    obtain ⟨name, -, rfl⟩ := List.mem_map.mp hl
    simp [isMember, indent]
  have head : isMember (header d.name v) = false := by
    simp only [header, String.append_assoc]
    cases v.kind <;> simp [ClassKind.keyword, isMember, indent]
  have opening : isMember "\x7b" = false := by decide
  have closing : isMember "\x7d" = false := by decide
  rw [filter_lines (by decide), front, ns, imports, filter_member_blocks]
  simp [head, opening, closing]

theorem isMemberOf_indented (start s : String) :
    isMemberOf start (indentation ++ s) =
      (decide (indent s = 0) && start.toList.isPrefixOf s.toList) := by
  rw [isMemberOf, isMember_indented]
  simp [indentation]

def declares (line : String) : Bool × Bool := (isProperty line, isMemberOf "public function" line)

theorem declares_propertyText (visibility : String) (h : visibility ∈ ["protected", "private"])
    (a : Attribute) : declares (propertyText visibility a) = (true, false) := by
  simp only [List.mem_cons, List.not_mem_nil, or_false] at h
  rcases h with rfl | rfl
  all_goals
    simp only [declares, isProperty, propertyText, String.append_assoc, isMemberOf_indented]
    simp [indent, List.isPrefixOf]

theorem declares_propertyTexts (c : Constructor) (v : Convention) :
    ∀ l ∈ propertyTexts c v, declares l = (true, false) := by
  intro l hl
  simp only [propertyTexts, List.mem_append, List.mem_map] at hl
  rcases hl with (⟨a, -, rfl⟩ | ⟨a, -, rfl⟩) | ⟨a, -, rfl⟩
  · exact declares_propertyText _ (by decide) a
  · exact declares_propertyText _ (by decide) a
  · rw [← propertyText_ofArgument]
    exact declares_propertyText _ (by decide) _

theorem declares_methodTexts (c : Constructor) (v : Convention) :
    ∀ l ∈ methodTexts c v, declares l = (false, true) := by
  intro l hl
  simp only [← header_methods, List.mem_map] at hl
  obtain ⟨m, -, rfl⟩ := hl
  simp only [declares, isProperty, Method.header, String.append_assoc, isMemberOf_indented]
  simp [indent, List.isPrefixOf]

theorem declares_traitText (name : String) : declares (traitText name) = (false, false) := by
  simp only [declares, isProperty, traitText, String.append_assoc, isMemberOf_indented]
  simp [indent, List.isPrefixOf]

theorem declares_constantText (visibility : String) (h : visibility ∈ ["public", "private"])
    (k : ClassConstant) : declares (constantText visibility k) = (false, false) := by
  simp only [List.mem_cons, List.not_mem_nil, or_false] at h
  rcases h with rfl | rfl
  all_goals
    simp only [declares, isProperty, constantText, String.append_assoc, isMemberOf_indented]
    simp [indent, List.isPrefixOf]

theorem declares_mark :
    ∀ mark ∈ ["/**", "\x7b", "\x7d"], declares (indentation ++ mark) = (false, false) := by
  decide

theorem filter_memberTexts {p : String → Bool} (hp : ∀ l, declares l = (false, false) → p l = false)
    (c : Constructor) (v : Convention) :
    (memberTexts c v).filter p = (propertyTexts c v).filter p ++ (methodTexts c v).filter p := by
  have mark (m : String) (hm : m ∈ ["/**", "\x7b", "\x7d"]) : p (indentation ++ m) = false :=
    hp _ (declares_mark m hm)
  have traits : (v.traits.map traitText).filter p = [] := by
    simp [hp _ (declares_traitText _)]
  have constants (visibility : String) (hv : visibility ∈ ["public", "private"])
      (ks : List ClassConstant) : (ks.map (constantText visibility)).filter p = [] := by
    simp [hp _ (declares_constantText visibility hv _)]
  have documented (ls : List String) :
      (ls.flatMap fun l => [indentation ++ "/**", l]).filter p = ls.filter p := by
    induction ls with
    | nil => rfl
    | cons l ls ih => simp [List.filter_cons, mark "/**" (by simp), ih]
  have braced (ls : List String) :
      (ls.flatMap fun l => [l, indentation ++ "\x7b", indentation ++ "\x7d"]).filter p =
        ls.filter p := by
    induction ls with
    | nil => rfl
    | cons l ls ih =>
      simp [List.filter_cons, mark "\x7b" (by simp), mark "\x7d" (by simp), ih]
  simp only [memberTexts, List.filter_append, traits, documented, braced, List.nil_append,
    constants "public" (by simp), constants "private" (by simp)]

theorem filter_property_lines (d : Definition) (v : Convention) :
    (lines d v).filter isProperty = propertyTexts d.constructor v := by
  have within : (fun l => isProperty l && isMember l) = isProperty := by
    funext l
    simp only [isProperty, isMemberOf]
    cases isMember l <;> simp
  have properties : (propertyTexts d.constructor v).filter isProperty =
      propertyTexts d.constructor v :=
    List.filter_eq_self.mpr fun l hl => congrArg Prod.fst (declares_propertyTexts _ v l hl)
  have methods : (methodTexts d.constructor v).filter isProperty = [] := by
    refine List.filter_eq_nil_iff.mpr fun l hl => ?_
    simpa [declares] using congrArg Prod.fst (declares_methodTexts _ v l hl)
  rw [← within, ← List.filter_filter, filter_member_lines,
    filter_memberTexts (p := isProperty) fun l hl => congrArg Prod.fst hl, properties, methods,
    List.append_nil]

theorem filter_method_lines (d : Definition) (v : Convention) :
    (lines d v).filter (isMemberOf "public function") = methodTexts d.constructor v := by
  have within : (fun l => isMemberOf "public function" l && isMember l) =
      isMemberOf "public function" := by
    funext l
    simp only [isMemberOf]
    cases isMember l <;> simp
  have properties :
      (propertyTexts d.constructor v).filter (isMemberOf "public function") = [] := by
    refine List.filter_eq_nil_iff.mpr fun l hl => ?_
    simpa [declares] using congrArg Prod.snd (declares_propertyTexts _ v l hl)
  have methods : (methodTexts d.constructor v).filter (isMemberOf "public function") =
      methodTexts d.constructor v :=
    List.filter_eq_self.mpr fun l hl => congrArg Prod.snd (declares_methodTexts _ v l hl)
  rw [← within, ← List.filter_filter, filter_member_lines,
    filter_memberTexts (p := isMemberOf "public function") fun l hl => congrArg Prod.snd hl,
    properties, methods, List.nil_append]

end Filter

structure Sections (d : Definition) (v : Convention) (ls : List String) : Prop where
  margin : ls.filter isMargin =
    ["<?php", "declare(strict_types=1);"] ++
      (if d.ns = "" then [] else ["namespace " ++ d.ns ++ ";"]) ++
      (v.uses ++ v.interfaces ++ v.parents ++ v.traits).map useText ++
      [headText d v, "\x7b", "\x7d"]
  members : ls.filter isMember = memberTexts d.constructor v
  properties : ls.filter isProperty = propertyTexts d.constructor v
  methods : ls.filter (isMemberOf "public function") = methodTexts d.constructor v

theorem sections_lines (d : Definition) (v : Convention) : Sections d v (lines d v ++ [""]) where
  margin := by simp [List.filter_append, filter_margin_lines, isMargin]
  members := by
    rw [List.filter_append, filter_member_lines]
    exact List.append_nil _
  properties := by
    rw [List.filter_append, filter_property_lines]
    exact List.append_nil _
  methods := by
    rw [List.filter_append, filter_method_lines]
    exact List.append_nil _

theorem sections_of_assemble {d : Definition} {v : Convention}
    (h : ∀ s ∈ d.texts ++ v.texts, OneLine s) (accepted : v.violation? d.constructor = none) :
    ∃ unit, assemble d v = .ok unit ∧ Sections d v (sourceLines unit.source) := by
  refine ⟨⟨d.qualifiedName, text (lines d v)⟩, by rw [assemble, accepted], ?_⟩
  rw [sourceLines_text (oneLine_lines h)]
  exact sections_lines d v

def invoice : Definition where
  ns := "Shop\\Billing"
  name := "Invoice"
  constructor := ⟨"Shop\\Billing\\Invoice",
    [⟨"id", "string", false, false⟩, ⟨"items", "Shop\\Item", true, true⟩, .untyped "note"]⟩
  deriv := .named "ComplexClassType"
  conditions := []
  messageName := none

theorem sections_invoice :
    (∀ s ∈ invoice.texts ++ Convention.complexClassType.texts, OneLine s) ∧
      Convention.complexClassType.violation? invoice.constructor = none ∧
      ∃ unit, assemble invoice .complexClassType = .ok unit ∧
        (sourceLines unit.source).filter isMargin =
          ["<?php", "declare(strict_types=1);", "namespace Shop\\Billing;",
            "use \\Some\\YetAnother\\CustomNamespace\\UsedClass;",
            "use \\Some\\CustomNamespace\\InterfaceClass;",
            "use \\Some\\CustomNamespace\\AnotherInterfaceClass;",
            "use \\Some\\Other\\CustomNamespace\\ExtensibleClass;", "use \\Traits\\SomeTrait;",
            "use \\Traits\\AnotherTrait;",
            "final class Invoice extends ExtensibleClass implements InterfaceClass, " ++
              "AnotherInterfaceClass", "\x7b", "\x7d"] ∧
        (sourceLines unit.source).filter isProperty =
          ["    protected $protectedAttr1 = \"hello\";", "    protected $protectedAttr2;",
            "    private $privateAttr1 = \"hello\";", "    private $privateAttr2 = 5;",
            "    private $privateAttr3;", "    private $nullablePrivateAttr4;",
            "    private $listPrivateAttr5;", "    private $id;", "    private $items;",
            "    private $note;"] ∧
        (sourceLines unit.source).filter (isMemberOf "public function") =
          ["    public function __construct(string $id, ?array $items, $note)",
            "    public function id(): string", "    public function items(): ?array",
            "    public function note()", "    public function privateAttr1(): string",
            "    public function privateAttr2(): int", "    public function privateAttr3(): int",
            "    public function nullablePrivateAttr4(): ?int",
            "    public function listPrivateAttr5(): array",
            "    public function withId(string $id): self",
            "    public function withItems(?array $items): self",
            "    public function withNote($note): self",
            "    public function withPrivateAttr1(string $privateAttr1): self",
            "    public function withPrivateAttr2(int $privateAttr2): self",
            "    public function withPrivateAttr3(int $privateAttr3): self",
            "    public function withNullablePrivateAttr4(?int $nullablePrivateAttr4): self",
            "    public function withListPrivateAttr5(array $listPrivateAttr5): self"] := by
  have texts : ∀ s ∈ invoice.texts ++ Convention.complexClassType.texts, OneLine s := by
    decide +kernel
  have accepted : Convention.complexClassType.violation? invoice.constructor = none := by decide
  obtain ⟨unit, assembled, sections⟩ := sections_of_assemble texts accepted
  refine ⟨texts, accepted, unit, assembled, ?_, ?_, ?_⟩
  · rw [sections.margin]
    decide +kernel
  · rw [sections.properties]
    decide +kernel
  · rw [sections.methods]
    decide +kernel

end Class

end Datatypes
