import Datatypes.Proofs.Class.CopyOnWrite
import Datatypes.Proofs.Definition.WellFormed

/-!
The source of a class determines the names and the arguments of its definition. No section has a
mark of its length, but each piece that the definition brings in ends at a character that cannot
belong to it, and where a section is left out another one starts with a character of its own.
What the convention brings in is the same in both texts and is cancelled, whatever it holds.
-/

namespace Datatypes

open Text

structure Definition.WellNamed (d : Definition) : Prop where
  ns : d.ns = "" ∨ IsPath d.ns
  name : isWord d.name = true
  arguments : ∀ a ∈ d.constructor.arguments, a.WellFormed

def baseType (type : String) : String :=
  if qualifiedType type = "" then "mixed" else qualifiedType type

def typeMarks (isList nullable : Bool) : String :=
  (if isList then "[]" else "") ++ (if nullable then "|null" else "")

theorem Attribute.documentedType_eq (a : Attribute) :
    a.documentedType = baseType a.type ++ typeMarks a.isList a.nullable :=
  String.append_assoc

theorem baseType_of_isPath {type : String} (h : IsPath type) :
    baseType type = if isScalarType type then type else "\\" ++ type := by
  have qualified : qualifiedType type = if isScalarType type then type else "\\" ++ type := by
    simp [qualifiedType, dropLeading_of_isPath h, h.ne_empty]
  have present : qualifiedType type ≠ "" := by
    rw [qualified]
    split
    · exact h.ne_empty
    · simp
  rw [baseType, if_neg present, qualified]

theorem baseType_empty : baseType "" = "mixed" := by decide

theorem isPathChar_baseType {type : String} (h : type = "" ∨ IsPath type) :
    ∀ c ∈ (baseType type).toList, isPathChar c = true := by
  rcases h with rfl | h
  · rw [baseType_empty]
    exact isPathChar_of_mem (isPath_of_isWord (by decide))
  · rw [baseType_of_isPath h]
    split
    · exact isPathChar_of_mem h
    · intro c hc
      rw [String.toList_append, List.mem_append] at hc
      rcases hc with hc | hc
      · rw [List.mem_singleton.mp hc]
        decide
      · exact isPathChar_of_mem h c hc

theorem baseType_inj {type type' : String} (h : type = "" ∨ IsPath type)
    (h' : type' = "" ∨ IsPath type') (same : baseType type = baseType type') : type = type' := by
  -- The missing type, the scalars and the class names are documented in three ways that do not
  -- overlap.
  have mixed : IsPath "mixed" := isPath_of_isWord (by decide)
  have unlisted {s : String} (hs : isScalarType s = true) : "mixed" ≠ s := by
    rintro rfl
    exact absurd hs (by decide)
  rcases h with rfl | h <;> rcases h' with rfl | h'
  · rfl
  · rw [baseType_empty, baseType_of_isPath h'] at same
    split at same
    · next scalar => exact absurd same (unlisted scalar)
    · exact absurd same (mixed.ne_rooted _)
  · rw [baseType_empty, baseType_of_isPath h] at same
    split at same
    · next scalar => exact absurd same.symm (unlisted scalar)
    · exact absurd same.symm (mixed.ne_rooted _)
  · rw [baseType_of_isPath h, baseType_of_isPath h'] at same
    split at same <;> split at same
    · exact same
    · exact absurd same (h.ne_rooted _)
    · exact absurd same.symm (h'.ne_rooted _)
    · simpa using same

theorem halts_typeMarks (isList nullable : Bool) (rest : List Char) :
    Halts isPathChar ((typeMarks isList nullable).toList ++ '\n' :: rest) := by
  cases isList <;> cases nullable <;> exact halts_cons.mpr (by decide)

theorem typeMarks_inj {isList isList' nullable nullable' : Bool}
    (h : typeMarks isList nullable = typeMarks isList' nullable') :
    isList = isList' ∧ nullable = nullable' := by
  revert isList isList' nullable nullable'
  decide

theorem newline_not_mem_typeMarks (isList nullable : Bool) :
    ∀ c ∈ (typeMarks isList nullable).toList, (c != '\n') = true := by
  cases isList <;> cases nullable <;> simp [typeMarks]

namespace Class

theorem toList_text_cons (l : String) (ls : List String) :
    (text (l :: ls)).toList = l.toList ++ '\n' :: (text ls).toList := by
  simp [text]

theorem toList_text_append (ls ms : List String) :
    (text (ls ++ ms)).toList = (text ls).toList ++ (text ms).toList := by
  simp [text]

def namespaceLines (ns : String) : List String :=
  if ns = "" then [] else ["namespace " ++ ns ++ ";", ""]

theorem toList_namespaceLines {ns : String} (h : ns ≠ "") :
    (text (namespaceLines ns)).toList =
      'n' :: ("amespace ".toList ++ (ns.toList ++ [';', '\n', '\n'])) := by
  rw [namespaceLines, if_neg h]
  simp [text]

theorem namespaceLines_inj {ns ns' : String} (h : ns = "" ∨ IsPath ns)
    (h' : ns' = "" ∨ IsPath ns') {rest rest' : List Char} (hr : Halts (· = 'n') rest)
    (hr' : Halts (· = 'n') rest')
    (same : (text (namespaceLines ns)).toList ++ rest =
      (text (namespaceLines ns')).toList ++ rest') : ns = ns' ∧ rest = rest' := by
  -- What follows a namespace never starts with the letter that a namespace starts with.
  have absent : (text (namespaceLines "")).toList = [] := by decide
  have differs {xs ys : List Char} (hx : Halts (· = 'n') xs) : xs ≠ 'n' :: ys := by
    rintro rfl
    exact absurd (halts_cons.mp hx) (by decide)
  rcases h with rfl | h <;> rcases h' with rfl | h'
  · rw [absent] at same
    exact ⟨rfl, same⟩
  · rw [absent, toList_namespaceLines h'.ne_empty] at same
    exact absurd same (differs hr)
  · rw [absent, toList_namespaceLines h.ne_empty] at same
    exact absurd same.symm (differs hr')
  · rw [toList_namespaceLines h.ne_empty, toList_namespaceLines h'.ne_empty] at same
    simp only [List.cons_append, List.append_assoc, List.cons.injEq, true_and,
      List.append_cancel_left_eq] at same
    have semicolon (cs : List Char) : Halts isPathChar (';' :: cs) := halts_cons.mpr (by decide)
    obtain ⟨hns, hrest⟩ := append_inj_of_halts (isPathChar_of_mem h) (isPathChar_of_mem h')
      (semicolon _) (semicolon _) same
    exact ⟨String.toList_inj.mp hns, by simpa using hrest⟩

def headerTail (v : Convention) : String :=
  (if v.parents = [] then "" else " extends " ++ ", ".intercalate (shortNames v.parents)) ++
    (if v.interfaces = [] then "" else
      " implements " ++ ", ".intercalate (shortNames v.interfaces))

theorem header_eq (name : String) (v : Convention) :
    header name v = v.kind.keyword ++ (" " ++ (name ++ headerTail v)) := by
  simp only [header, headerTail, String.append_assoc]

theorem halts_headerTail (v : Convention) (rest : List Char) :
    Halts isWordChar ((headerTail v).toList ++ '\n' :: rest) := by
  have space : isWordChar ' ' = false := by decide
  have newline : isWordChar '\n' = false := by decide
  rw [headerTail]
  split
  · split
    · exact halts_cons.mpr newline
    · simp [halts_cons, space]
  · simp [halts_cons, space]

theorem header_inj {name name' : String} (h : isWord name = true) (h' : isWord name' = true)
    {v : Convention} {rest rest' : List Char}
    (same : (header name v).toList ++ '\n' :: rest = (header name' v).toList ++ '\n' :: rest') :
    name = name' ∧ rest = rest' := by
  simp only [header_eq, String.toList_append, List.append_assoc,
    List.append_cancel_left_eq] at same
  obtain ⟨hname, hrest⟩ := append_inj_of_halts (isWordChar_of_mem h) (isWordChar_of_mem h')
    (halts_headerTail v _) (halts_headerTail v _) same
  exact ⟨String.toList_inj.mp hname, by simpa using hrest⟩

def argumentLines (a : Argument) : List String :=
  propertyLines "private" (.ofArgument a) ++ [""]

theorem toList_argumentLines (a : Argument) :
    (text (argumentLines a)).toList =
      "    /**\n     * @var ".toList ++ ((baseType a.type).toList ++
        ((typeMarks a.isList a.nullable).toList ++ '\n' :: ("     */\n    private $".toList ++
          (a.name.toList ++ [';', '\n', '\n'])))) := by
  have documented : (Attribute.ofArgument a).documentedType =
      baseType a.type ++ typeMarks a.isList a.nullable := Attribute.documentedType_eq _
  have named : (Attribute.ofArgument a).name = a.name := rfl
  have bare : (Attribute.ofArgument a).default = none := rfl
  simp [argumentLines, propertyLines, text, documented, named, bare, indentation]

theorem argumentLines_inj {a a' : Argument} (h : a.WellFormed) (h' : a'.WellFormed)
    {rest rest' : List Char}
    (same : (text (argumentLines a)).toList ++ rest = (text (argumentLines a')).toList ++ rest') :
    a = a' ∧ rest = rest' := by
  have typed {b : Argument} (hb : b.WellFormed) : b.type = "" ∨ IsPath b.type :=
    hb.type.imp (fun untyped => congrArg Argument.type untyped) id
  have newline (cs : List Char) : Halts (· != '\n') ('\n' :: cs) := halts_cons.mpr (by decide)
  have semicolon (cs : List Char) : Halts isWordChar (';' :: cs) := halts_cons.mpr (by decide)
  simp only [toList_argumentLines, List.append_assoc, List.cons_append,
    List.append_cancel_left_eq] at same
  obtain ⟨hbase, behindBase⟩ := append_inj_of_halts (isPathChar_baseType (typed h))
    (isPathChar_baseType (typed h')) (halts_typeMarks _ _ _) (halts_typeMarks _ _ _) same
  obtain ⟨hmarks, behindMarks⟩ := append_inj_of_halts (newline_not_mem_typeMarks _ _)
    (newline_not_mem_typeMarks _ _) (newline _) (newline _) behindBase
  simp only [List.cons.injEq, true_and, List.append_cancel_left_eq] at behindMarks
  obtain ⟨hname, behindName⟩ := append_inj_of_halts (isWordChar_of_mem h.name)
    (isWordChar_of_mem h'.name) (semicolon _) (semicolon _) behindMarks
  refine ⟨?_, by simpa using behindName⟩
  have name : a.name = a'.name := String.toList_inj.mp hname
  have type : a.type = a'.type := baseType_inj (typed h) (typed h') (String.toList_inj.mp hbase)
  obtain ⟨isList, nullable⟩ := typeMarks_inj (String.toList_inj.mp hmarks)
  cases a
  cases a'
  simp only [Argument.mk.injEq]
  exact ⟨name, type, nullable, isList⟩

theorem arguments_inj {as as' : List Argument} (h : ∀ a ∈ as, a.WellFormed)
    (h' : ∀ a ∈ as', a.WellFormed) {rest rest' : List Char}
    (hr : "    public".toList <+: rest) (hr' : "    public".toList <+: rest')
    (same : (text (as.flatMap argumentLines)).toList ++ rest =
      (text (as'.flatMap argumentLines)).toList ++ rest') : as = as' := by
  -- The constructor, which follows the properties, does not start like one of them.
  have none : (text ([].flatMap argumentLines)).toList = [] := rfl
  have differs {a : Argument} {xs ys : List Char} (hx : "    public".toList <+: xs) :
      xs ≠ (text (argumentLines a)).toList ++ ys := by
    obtain ⟨more, rfl⟩ := hx
    rw [toList_argumentLines]
    simp
  induction as generalizing as' with
  | nil =>
    cases as' with
    | nil => rfl
    | cons a' as' =>
      rw [none, List.nil_append, List.flatMap_cons, toList_text_append, List.append_assoc] at same
      exact absurd same (differs hr)
  | cons a as ih =>
    rw [List.flatMap_cons, toList_text_append, List.append_assoc] at same
    cases as' with
    | nil =>
      rw [none, List.nil_append] at same
      exact absurd same.symm (differs hr')
    | cons a' as' =>
      rw [List.flatMap_cons, toList_text_append, List.append_assoc] at same
      obtain ⟨first, behind⟩ := argumentLines_inj (h a (by simp)) (h' a' (by simp)) same
      have further : as = as' := ih (fun b hb => h b (List.mem_cons_of_mem _ hb))
        (fun b hb => h' b (List.mem_cons_of_mem _ hb)) behind
      rw [first, further]

def conventionBlocks (v : Convention) : List (List String) :=
  [traitLines v, constantLines v].filter (· ≠ []) ++
    v.protectedAttributes.map (propertyLines "protected") ++
    v.privateAttributes.map (propertyLines "private")

def importSection (v : Convention) : List String :=
  if importLines v = [] then [] else importLines v ++ [""]

def methodLines (c : Constructor) (v : Convention) : List String :=
  [""].intercalate ((methods c v).map (·.lines)) ++ ["\x7d"]

theorem toList_source (d : Definition) (v : Convention) :
    (text (lines d v)).toList =
      (text ["<?php", "", "declare(strict_types=1);", ""]).toList ++
        ((text (namespaceLines d.ns)).toList ++ ((text (importSection v)).toList ++
          ((header d.name v).toList ++ '\n' :: '\x7b' :: '\n' ::
            ((text ((conventionBlocks v).flatMap (· ++ [""]))).toList ++
              ((text (d.constructor.arguments.flatMap argumentLines)).toList ++
                (text (methodLines d.constructor v)).toList))))) := by
  have cut : blocks d.constructor v = (conventionBlocks v ++
      (arguments d.constructor).map (propertyLines "private")) ++
        (methods d.constructor v).map (·.lines) := by
    simp only [blocks, properties, conventionBlocks, List.append_assoc]
  have written : ((arguments d.constructor).map (propertyLines "private")).flatMap (· ++ [""]) =
      d.constructor.arguments.flatMap argumentLines := by
    rw [arguments, List.map_map, List.flatMap_map]
    rfl
  rw [lines, cut, intercalate_append [""] _ (by simp [methods]), List.flatMap_append, written]
  have brace : "\x7b".toList = ['\x7b'] := rfl
  have ended : (text []).toList = [] := rfl
  simp only [namespaceLines, importSection, methodLines, toList_text_append, toList_text_cons,
    brace, ended, List.append_assoc, List.cons_append, List.nil_append]

theorem public_prefix_methodLines (c : Constructor) (v : Convention) :
    "    public".toList <+: (text (methodLines c v)).toList := by
  obtain ⟨more, hmore⟩ : ∃ more, methodLines c v = (Method.constructor (arguments c)).header ::
      more := by
    rw [methodLines, methods, List.cons_append, List.map_cons]
    cases (((fields c v).map Method.accessor ++ (fields c v).map Method.mutator).map (·.lines)) with
    | nil => exact ⟨_, rfl⟩
    | cons next rest => exact ⟨_, by rw [List.intercalate_cons_cons]; rfl⟩
  rw [hmore, toList_text_cons, Method.header, indentation]
  simp

theorem halts_importSection (v : Convention) (name : String) (rest : List Char) :
    Halts (· = 'n') ((text (importSection v)).toList ++ ((header name v).toList ++ rest)) := by
  rw [importSection]
  split
  · have absent : (text []).toList = [] := rfl
    rw [absent, header_eq]
    cases v.kind <;> simp [ClassKind.keyword, halts_cons]
  · next h =>
    obtain ⟨first, more, hmore⟩ := List.exists_cons_of_ne_nil h
    have mem : first ∈ importLines v := by simp [hmore]
    obtain ⟨name, -, rfl⟩ := List.mem_map.mp mem
    rw [hmore]
    simp [toList_text_cons, halts_cons]

/-- Two definitions that become the same source under a convention have the same namespace, the
same name and the same arguments. -/
theorem definition_of_source {v : Convention} {d d' : Definition} {unit unit' : SourceUnit}
    (hd : d.WellNamed) (hd' : d'.WellNamed) (h : assemble d v = .ok unit)
    (h' : assemble d' v = .ok unit') (same : unit.source = unit'.source) :
    d.ns = d'.ns ∧ d.name = d'.name ∧ d.constructor.arguments = d'.constructor.arguments := by
  have chars : (text (lines d v)).toList = (text (lines d' v)).toList := by
    rw [← source_of_assemble h, ← source_of_assemble h', same]
  rw [toList_source, toList_source, List.append_cancel_left_eq] at chars
  obtain ⟨ns, behindNamespace⟩ := namespaceLines_inj hd.ns hd'.ns (halts_importSection v _ _)
    (halts_importSection v _ _) chars
  rw [List.append_cancel_left_eq] at behindNamespace
  obtain ⟨name, behindHeader⟩ := header_inj hd.name hd'.name behindNamespace
  simp only [List.cons.injEq, true_and, List.append_cancel_left_eq] at behindHeader
  exact ⟨ns, name, arguments_inj hd.arguments hd'.arguments (public_prefix_methodLines ..)
    (public_prefix_methodLines ..) behindHeader⟩

-- The name of the constructor is not part of the source, so the two parcels below differ there.
def parcel (shape : String) : Definition where
  ns := "Post\\Office"
  name := "Parcel"
  constructor := ⟨shape, [⟨"id", "string", false, false⟩, .untyped "note",
    ⟨"stamps", "Post\\Stamp", true, true⟩]⟩
  deriv := .named "ComplexClassType"
  conditions := []
  messageName := none

theorem wellNamed_parcel (shape : String) : (parcel shape).WellNamed where
  ns := .inr ⟨["Post", "Office"], by simp, by decide, rfl⟩
  name := (by decide : isWord "Parcel" = true)
  arguments := by
    intro a ha
    have stamp : IsPath "Post\\Stamp" := ⟨["Post", "Stamp"], by simp, by decide, by decide⟩
    rcases List.mem_cons.mp ha with rfl | ha
    · exact ⟨by decide, .inr (isPath_of_isWord (by decide))⟩
    · rcases List.mem_cons.mp ha with rfl | ha
      · exact ⟨by decide, .inl rfl⟩
      · obtain rfl := List.mem_singleton.mp ha
        exact ⟨by decide, .inr stamp⟩

theorem definition_of_source_parcel :
    parcel "Post\\Boxed" ≠ parcel "Post\\Rolled" ∧
      ∃ unit unit', assemble (parcel "Post\\Boxed") .complexClassType = .ok unit ∧
        assemble (parcel "Post\\Rolled") .complexClassType = .ok unit' ∧
        unit.source = unit'.source ∧
        (parcel "Post\\Boxed").ns = (parcel "Post\\Rolled").ns ∧
        (parcel "Post\\Boxed").name = (parcel "Post\\Rolled").name ∧
        (parcel "Post\\Boxed").constructor.arguments =
          (parcel "Post\\Rolled").constructor.arguments := by
  have assembled (shape : String) : assemble (parcel shape) .complexClassType =
      .ok ⟨(parcel shape).qualifiedName, text (lines (parcel shape) .complexClassType)⟩ := rfl
  have same : text (lines (parcel "Post\\Boxed") .complexClassType) =
      text (lines (parcel "Post\\Rolled") .complexClassType) := rfl
  exact ⟨by decide, _, _, assembled _, assembled _, same,
    definition_of_source (wellNamed_parcel _) (wellNamed_parcel _) (assembled _) (assembled _) same⟩

end Class

end Datatypes
