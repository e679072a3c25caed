import Datatypes.Proofs.Declaration.Acceptance

/-!
Constructors: their names, and their arguments one after the other. The constructor with the
arguments read so far stands in the place of the reader.
-/

namespace Datatypes.Declaration

open Text Token

theorem isWord_of_mem_scalarConstructors : ∀ s ∈ scalarConstructors, isWord s = true := by
  decide

theorem isWord_of_isScalarType {s : String} (h : isScalarType s = true) : isWord s = true := by
  have words : ∀ s ∈ scalarTypes, isWord s = true := by decide
  exact words s (by simpa [isScalarType] using h)

namespace Machine

attribute [local simp] Place.Moves Place.rule symbolRule wordRule spaced isWhitespace isSymbol
  Reference.push

variable {m : Machine} {ds : List Definition} {rest : List Char} {d : Draft}

theorem Accepts.constructorName {name : String}
    (hname : isScalarConstructor name = true ∨ IsPath name)
    (h : (m.reading d (.constructorBody name)).Accepts rest ds) :
    (m.reading d .constructorStart).Accepts
      ((Declaration.printName isScalarConstructor name).toList ++ ' ' :: rest) ds := by
  have word (w : String) : Place.constructorStart.Moves m.ns d (.word w) d
      (.constructorTail ⟨false, [w]⟩) := by
    simp +contextual [constructorStartRule]
  by_cases hlist : ∃ s ∈ scalarConstructors, name = s ++ "[]"
  · obtain ⟨s, hs, rfl⟩ := hlist
    have bare : isScalarConstructor (s ++ "[]") = true := by simp [isScalarConstructor, hs]
    have text : (s ++ "[]").toList ++ ' ' :: rest = s.toList ++ '[' :: ']' :: ' ' :: rest := by simp
    have opening : (Place.constructorTail ⟨false, [s]⟩).Moves m.ns d (.symbol '[') d
        (.constructorBracket s) := by
      simp +contextual [constructorTailRule, Reference.name, Reference.spelling, hs]
    have closing : (Place.constructorBracket s).Moves m.ns d (.symbol ']') d
        (.constructorBody (s ++ "[]")) := by
      simp +contextual [constructorBracketRule]
    rw [Declaration.printName, if_pos bare, text]
    exact .word (isWord_of_mem_scalarConstructors s hs) (halts_cons.mpr (by decide)) (word s)
      (.symbol (by decide) opening (.symbol (by decide) closing (.skip rfl h)))
  · have scalar : isScalarConstructor name = true → isWord name = true := by
      intro hs
      refine isWord_of_mem_scalarConstructors name ?_
      simp only [isScalarConstructor, Bool.or_eq_true, List.contains_iff_mem, List.mem_map] at hs
      rcases hs with hs | ⟨s, hs, rfl⟩
      · exact hs
      · exact absurd ⟨s, hs, rfl⟩ hlist
    have path : IsPath name := by
      rcases hname with hs | hp
      · exact isPath_of_isWord (scalar hs)
      · exact hp
    refine .printName .constructorWord .constructorTail ?_ word ?_ ?_ path scalar
      (halts_cons.mpr (by decide)) fun r hr => ?_
    · simp +contextual [constructorStartRule]
    · simp +contextual
    · simp +contextual [constructorTailRule]
    · refine .gap ?_ rfl h
      simp +contextual [constructorTailRule, constructorBodyRule, hr]

theorem Accepts.typeEnd {c : Constructor} {a : Argument} {r : Reference}
    (hname : isWord a.name = true) (hr : Halts isWordChar rest)
    (htype : r.resolve m.ns isScalarType = a.type)
    (h : (m.reading d (.argumentEnd { c with arguments := c.arguments ++ [a] })).Accepts rest ds) :
    (m.reading d (.typeTail c a.nullable r)).Accepts
      ((if a.isList then "[]" else "").toList ++ ' ' :: '$' :: (a.name.toList ++ rest)) ds := by
  have named : (m.reading d (.argumentName c a.nullable a.isList a.type)).Accepts
      ('$' :: (a.name.toList ++ rest)) ds := by
    refine .move (lexeme_var hname hr) (by simp) ?_ h
    simp +contextual [argumentNameRule]
  cases hlist : a.isList with
  | false =>
    rw [hlist] at named
    refine .gap ?_ rfl named
    simp +contextual [typeTailRule, htype]
  | true =>
    rw [hlist] at named
    have opening : (Place.typeTail c a.nullable r).Moves m.ns d (.symbol '[') d
        (.typeBracket c a.nullable r) := by
      simp +contextual [typeTailRule]
    have closing : (Place.typeBracket c a.nullable r).Moves m.ns d (.symbol ']') d
        (.typeGap c a.nullable r) := by
      simp +contextual [typeBracketRule]
    refine .symbol (by decide) opening (.symbol (by decide) closing (.gap ?_ rfl named))
    simp +contextual [typeGapRule, htype]

theorem Accepts.typedArgument {c : Constructor} {a : Argument} {start : Place}
    (hsep : start.Moves m.ns d .separator d (.typeWord c a.nullable ⟨true, []⟩))
    (hword : ∀ w, start.Moves m.ns d (.word w) d (.typeTail c a.nullable ⟨false, [w]⟩))
    (hpath : IsPath a.type) (hname : isWord a.name = true) (hr : Halts isWordChar rest)
    (h : (m.reading d (.argumentEnd { c with arguments := c.arguments ++ [a] })).Accepts rest ds) :
    (m.reading d start).Accepts ((Declaration.printName isScalarType a.type).toList ++
      ((if a.isList then "[]" else "").toList ++ ' ' :: '$' :: (a.name.toList ++ rest))) ds := by
  have halts : Halts isWordChar
      ((if a.isList then "[]" else "").toList ++ ' ' :: '$' :: (a.name.toList ++ rest)) := by
    cases a.isList <;> exact halts_cons.mpr (by decide)
  refine .printName (.typeWord c a.nullable) (.typeTail c a.nullable) hsep hword ?_ ?_ hpath
    isWord_of_isScalarType halts fun r htype => .typeEnd hname hr htype h
  · simp +contextual
  · simp +contextual [typeTailRule]

theorem Accepts.argument {c : Constructor} {a : Argument} (ha : a.WellFormed)
    (hr : Halts isWordChar rest)
    (h : (m.reading d (.argumentEnd { c with arguments := c.arguments ++ [a] })).Accepts rest ds) :
    (m.reading d (.argumentStart c)).Accepts ((printArgument a).toList ++ rest) ds := by
  rcases ha.type with untyped | path
  · have type : a.type = "" := by rw [untyped, Argument.untyped]
    have text : (printArgument a).toList ++ rest = '$' :: a.name.toList ++ rest := by
      simp [printArgument, type]
    rw [text]
    refine .move (lexeme_var ha.name hr) (by simp) ?_ h
    simp +contextual [argumentStartRule, ← untyped]
  · let typed := (Declaration.printName isScalarType a.type).toList ++
      ((if a.isList then "[]" else "").toList ++ ' ' :: '$' :: (a.name.toList ++ rest))
    cases hnull : a.nullable with
    | false =>
      have text : (printArgument a).toList ++ rest = typed := by
        simp [printArgument, path.ne_empty, hnull, typed]
      rw [text]
      refine .typedArgument ?_ ?_ path ha.name hr h
      · simp +contextual [argumentStartRule, hnull]
      · simp +contextual [argumentStartRule, hnull]
    | true =>
      have text : (printArgument a).toList ++ rest = '?' :: typed := by
        simp [printArgument, path.ne_empty, hnull, typed]
      have mark : (Place.argumentStart c).Moves m.ns d (.symbol '?') d (.nullableType c) := by
        simp +contextual [argumentStartRule]
      rw [text]
      refine .symbol (by decide) mark (.typedArgument ?_ ?_ path ha.name hr h)
      · simp +contextual [nullableTypeRule, hnull]
      · simp +contextual [nullableTypeRule, hnull]

theorem Accepts.arguments {args : List Argument} (hne : args ≠ [])
    (hall : ∀ a ∈ args, a.WellFormed) (hr : Halts isWordChar rest) {c : Constructor}
    (h : (m.reading d (.argumentEnd { c with arguments := c.arguments ++ args })).Accepts rest ds) :
    (m.reading d (.argumentStart c)).Accepts
      ((", ".intercalate (args.map printArgument)).toList ++ rest) ds := by
  induction args generalizing c with
  | nil => exact absurd rfl hne
  | cons a args ih =>
    have ha := hall a (by simp)
    cases args with
    | nil => simpa using Accepts.argument ha hr h
    | cons b args =>
      have text : (", ".intercalate ((a :: b :: args).map printArgument)).toList ++ rest =
          (printArgument a).toList ++
            ',' :: ' ' :: ((", ".intercalate ((b :: args).map printArgument)).toList ++ rest) := by
        simp
      have comma (c : Constructor) : (Place.argumentEnd c).Moves m.ns d (.symbol ',') d
          (.argumentStart c) := by
        simp +contextual [argumentEndRule]
      have further := ih (by simp) (fun x hx => hall x (by simp [hx]))
        (c := { c with arguments := c.arguments ++ [a] }) (by simpa using h)
      rw [text]
      exact .argument ha (halts_cons.mpr (by decide))
        (.symbol (by decide) (comma _) (.skip rfl further))

theorem Accepts.constructor {c : Constructor} (hc : c.WellFormed)
    (h : (m.reading (d.addConstructor c) .constructorEnd).Accepts rest ds) :
    (m.reading d .constructorStart).Accepts ((printConstructor c).toList ++ rest) ds := by
  have text : (printConstructor c).toList ++ rest =
      (Declaration.printName isScalarConstructor c.name).toList ++ ' ' :: '\x7b' :: ' ' ::
        ((", ".intercalate (c.arguments.map printArgument)).toList ++ ' ' :: '\x7d' :: rest) := by
    simp [printConstructor]
  have opening : (Place.constructorBody c.name).Moves m.ns d (.symbol '\x7b') d
      (.argumentStart ⟨c.name, []⟩) := by
    simp +contextual [constructorBodyRule]
  rw [text]
  refine .constructorName hc.name (.symbol (by decide) opening (.skip rfl ?_))
  by_cases hargs : c.arguments = []
  · have closing : (Place.argumentStart ⟨c.name, []⟩).Moves m.ns d (.symbol '\x7d')
        (d.addConstructor c) .constructorEnd := by
      simp +contextual [argumentStartRule, ← hargs]
    rw [hargs]
    exact .skip rfl (.symbol (by decide) closing h)
  · have closing : (Place.argumentEnd c).Moves m.ns d (.symbol '\x7d') (d.addConstructor c)
        .constructorEnd := by
      simp +contextual [argumentEndRule]
    exact .arguments hargs hc.arguments (halts_cons.mpr (by decide))
      (.skip rfl (.symbol (by decide) closing h))

end Machine

end Datatypes.Declaration
