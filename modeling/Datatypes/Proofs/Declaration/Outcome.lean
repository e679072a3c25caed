import Datatypes.Proofs.Declaration.Guard

/-!
What a token can make of a declaration, place by place. `Outcome ns t d p o` lists the moves of
the reader from the place `p`, with the draft `d`, over the token `t`; every rule keeps to them, so
that what each of these moves keeps, every step keeps. The moves that hand the token on to another
place have that place's outcome.
-/

namespace Datatypes.Declaration

inductive Outcome (ns : String) (t : Token) : Draft → Place → Except Failure Progress → Prop
  | space {d : Draft} {p : Place} :
      p.isSpaced = true → t.kind = .whitespace → Outcome ns t d p (.ok (.reading d p))
  | unexpected {d : Draft} {p : Place} (expected : Expected) :
      Outcome ns t d p (.error ⟨t.line, .unexpected expected t⟩)
  | declared {d : Draft} {p : Place} {definition : Definition} :
      t.kind = .symbol ';' →
      Definition.ofParts ns d.name d.constructors d.derivings d.conditions d.messageName =
        .ok definition →
      Outcome ns t d p (.ok (.declared definition))
  | invalid {d : Draft} {p : Place} (cause : DefinitionError) :
      t.kind = .symbol ';' →
      Outcome ns t d p (.error ⟨t.line, .invalidDefinition d.name d.line cause⟩)
  -- Constructors.
  | equals {d : Draft} :
      t.kind = .symbol '=' → Outcome ns t d .equals (.ok (.reading d .constructorStart))
  | constructorSeparator {d : Draft} :
      t.kind = .separator →
      Outcome ns t d .constructorStart (.ok (.reading d (.constructorWord ⟨true, []⟩)))
  | constructorFirst {d : Draft} {w : String} :
      t.kind = .word w →
      Outcome ns t d .constructorStart (.ok (.reading d (.constructorTail ⟨false, [w]⟩)))
  | constructorWord {d : Draft} {r : Reference} {w : String} :
      t.kind = .word w →
      Outcome ns t d (.constructorWord r) (.ok (.reading d (.constructorTail (r.push w))))
  | constructorTail {d : Draft} {r : Reference} :
      t.kind = .separator →
      Outcome ns t d (.constructorTail r) (.ok (.reading d (.constructorWord r)))
  | constructorList {d : Draft} {r : Reference} :
      t.kind = .symbol '[' → r.name ∈ scalarConstructors →
      Outcome ns t d (.constructorTail r) (.ok (.reading d (.constructorBracket r.name)))
  | constructorNamed {d : Draft} {r : Reference} {o : Except Failure Progress} :
      Outcome ns t d (.constructorBody (r.resolve ns isScalarConstructor)) o →
      Outcome ns t d (.constructorTail r) o
  | constructorBracket {d : Draft} {name : String} :
      t.kind = .symbol ']' →
      Outcome ns t d (.constructorBracket name) (.ok (.reading d (.constructorBody (name ++ "[]"))))
  | arguments {d : Draft} {name : String} :
      t.kind = .symbol '\x7b' →
      Outcome ns t d (.constructorBody name) (.ok (.reading d (.argumentStart ⟨name, []⟩)))
  | noArguments {d : Draft} {name : String} {o : Except Failure Progress} :
      Outcome ns t (d.addConstructor ⟨name, []⟩) .constructorEnd o →
      Outcome ns t d (.constructorBody name) o
  | alternative {d : Draft} :
      t.kind = .symbol '|' → Outcome ns t d .constructorEnd (.ok (.reading d .constructorStart))
  -- Arguments.
  | argumentsEnd {d : Draft} {c : Constructor} :
      t.kind = .symbol '\x7d' →
      Outcome ns t d (.argumentStart c) (.ok (.reading (d.addConstructor c) .constructorEnd))
  | nullable {d : Draft} {c : Constructor} :
      t.kind = .symbol '?' → Outcome ns t d (.argumentStart c) (.ok (.reading d (.nullableType c)))
  | untyped {d : Draft} {c : Constructor} {v : String} :
      t.kind = .var v →
      Outcome ns t d (.argumentStart c)
        (.ok (.reading d (.argumentEnd { c with arguments := c.arguments ++ [.untyped v] })))
  | typeSeparator {d : Draft} {c : Constructor} :
      t.kind = .separator →
      Outcome ns t d (.argumentStart c) (.ok (.reading d (.typeWord c false ⟨true, []⟩)))
  | typeFirst {d : Draft} {c : Constructor} {w : String} :
      t.kind = .word w →
      Outcome ns t d (.argumentStart c) (.ok (.reading d (.typeTail c false ⟨false, [w]⟩)))
  | nullableSeparator {d : Draft} {c : Constructor} :
      t.kind = .separator →
      Outcome ns t d (.nullableType c) (.ok (.reading d (.typeWord c true ⟨true, []⟩)))
  | nullableFirst {d : Draft} {c : Constructor} {w : String} :
      t.kind = .word w →
      Outcome ns t d (.nullableType c) (.ok (.reading d (.typeTail c true ⟨false, [w]⟩)))
  | typeWord {d : Draft} {c : Constructor} {nullable : Bool} {r : Reference} {w : String} :
      t.kind = .word w →
      Outcome ns t d (.typeWord c nullable r) (.ok (.reading d (.typeTail c nullable (r.push w))))
  | typeTail {d : Draft} {c : Constructor} {nullable : Bool} {r : Reference} :
      t.kind = .separator →
      Outcome ns t d (.typeTail c nullable r) (.ok (.reading d (.typeWord c nullable r)))
  | typeList {d : Draft} {c : Constructor} {nullable : Bool} {r : Reference} :
      t.kind = .symbol '[' →
      Outcome ns t d (.typeTail c nullable r) (.ok (.reading d (.typeBracket c nullable r)))
  | typeEnd {d : Draft} {c : Constructor} {nullable : Bool} {r : Reference} :
      t.kind = .whitespace →
      Outcome ns t d (.typeTail c nullable r)
        (.ok (.reading d (.argumentName c nullable false (r.resolve ns isScalarType))))
  | typeBracket {d : Draft} {c : Constructor} {nullable : Bool} {r : Reference} :
      t.kind = .symbol ']' →
      Outcome ns t d (.typeBracket c nullable r) (.ok (.reading d (.typeGap c nullable r)))
  | typeGap {d : Draft} {c : Constructor} {nullable : Bool} {r : Reference} :
      t.kind = .whitespace →
      Outcome ns t d (.typeGap c nullable r)
        (.ok (.reading d (.argumentName c nullable true (r.resolve ns isScalarType))))
  | argumentName {d : Draft} {c : Constructor} {nullable isList : Bool} {type v : String} :
      t.kind = .var v →
      Outcome ns t d (.argumentName c nullable isList type)
        (.ok (.reading d
          (.argumentEnd { c with arguments := c.arguments ++ [⟨v, type, nullable, isList⟩] })))
  | argumentEnd {d : Draft} {c : Constructor} :
      t.kind = .symbol '\x7d' →
      Outcome ns t d (.argumentEnd c) (.ok (.reading (d.addConstructor c) .constructorEnd))
  | argumentNext {d : Draft} {c : Constructor} :
      t.kind = .symbol ',' → Outcome ns t d (.argumentEnd c) (.ok (.reading d (.argumentStart c)))
  -- Derivings.
  | derivings {d : Draft} :
      t.kind = .word "deriving" →
      Outcome ns t d .constructorEnd (.ok (.reading d .derivingOpen))
  | derivingOpen {d : Draft} :
      t.kind = .symbol '(' → Outcome ns t d .derivingOpen (.ok (.reading d .derivingItem))
  | derivingsEnd {d : Draft} :
      t.kind = .symbol ')' → Outcome ns t d .derivingItem (.ok (.reading d .derivingEnd))
  | derivingName {d : Draft} {w : String} :
      t.kind = .word w →
      Outcome ns t d .derivingItem (.ok (.reading (d.addDeriving w) (.derivingTail w)))
  | derivingColon {d : Draft} {name : String} :
      t.kind = .symbol ':' → name ∈ messageDerivings →
      Outcome ns t d (.derivingTail name) (.ok (.reading d .derivingMessage))
  | derivingBare {d : Draft} {name : String} {o : Except Failure Progress} :
      Outcome ns t d .derivingItemEnd o → Outcome ns t d (.derivingTail name) o
  | derivingMessage {d : Draft} {message : String} :
      t.kind = .quoted message →
      Outcome ns t d .derivingMessage (.ok (.reading (d.setMessage message) .derivingItemEnd))
  | derivingNext {d : Draft} :
      t.kind = .symbol ',' → Outcome ns t d .derivingItemEnd (.ok (.reading d .derivingItem))
  | derivingItemEnd {d : Draft} :
      t.kind = .symbol ')' → Outcome ns t d .derivingItemEnd (.ok (.reading d .derivingEnd))
  -- The values of an enumeration.
  | mapping {d : Draft} {p : Place} :
      t.kind = .word "with" → d.derivings.any (·.isEnum) = true →
      Outcome ns t d p (.ok (.reading d .mappingOpen))
  | mappingOpen {d : Draft} :
      t.kind = .symbol '(' → Outcome ns t d .mappingOpen (.ok (.reading d (.mappingCase [])))
  | mappingsEnd {d : Draft} {values : List (String × Constant)} :
      t.kind = .symbol ')' →
      Outcome ns t d (.mappingCase values) (.ok (.reading (d.setValues values) .mappingEnd))
  | mappingCase {d : Draft} {values : List (String × Constant)} {w : String} :
      t.kind = .word w →
      Outcome ns t d (.mappingCase values) (.ok (.reading d (.mappingColon values w t.line)))
  | mappingColon {d : Draft} {values : List (String × Constant)} {case : String} {line : Nat} :
      t.kind = .symbol ':' →
      Outcome ns t d (.mappingColon values case line)
        (.ok (.reading d (.mappingValue values case line [] 0)))
  | mappingToken {d : Draft} {values : List (String × Constant)} {case : String} {line : Nat}
      {span : List Token} {depth depth' : Nat} :
      t.kind ≠ .whitespace → (depth = 0 → ∀ c ∈ [',', ')', ']'], t.kind ≠ .symbol c) →
      (depth' : Int) = depth + Token.balance [t] →
      Outcome ns t d (.mappingValue values case line span depth)
        (.ok (.reading d (.mappingValue values case line (span ++ [t]) depth')))
  | mappingNext {d : Draft} {values : List (String × Constant)} {case : String} {line : Nat}
      {span : List Token} {value : Constant} :
      t.kind = .symbol ',' → Constant.evaluate span = .ok value →
      Outcome ns t d (.mappingValue values case line span 0)
        (.ok (.reading d (.mappingCase (insertCase values case value))))
  | mappingLast {d : Draft} {values : List (String × Constant)} {case : String} {line : Nat}
      {span : List Token} {value : Constant} :
      t.kind = .symbol ')' → Constant.evaluate span = .ok value →
      Outcome ns t d (.mappingValue values case line span 0)
        (.ok (.reading (d.setValues (insertCase values case value)) .mappingEnd))
  | invalidCase {d : Draft} {values : List (String × Constant)} {case : String} {line : Nat}
      {span : List Token} {cause : ConstantError} :
      t.kind = .symbol ',' ∨ t.kind = .symbol ')' → Constant.evaluate span = .error cause →
      Outcome ns t d (.mappingValue values case line span 0)
        (.error ⟨line, .invalidCase case cause⟩)
  -- Guards.
  | conditions {d : Draft} {p : Place} :
      t.kind = .word "where" → Outcome ns t d p (.ok (.reading d (.groupStart anyConstructor)))
  | groupSeparator {d : Draft} {scope : String} :
      t.kind = .separator →
      Outcome ns t d (.groupStart scope) (.ok (.reading d (.scopeWord ⟨true, []⟩)))
  | groupFirst {d : Draft} {scope w : String} :
      t.kind = .word w →
      Outcome ns t d (.groupStart scope) (.ok (.reading d (.scopeTail ⟨false, [w]⟩)))
  | groupBar {d : Draft} {scope : String} :
      t.kind = .symbol '|' →
      Outcome ns t d (.groupStart scope) (.ok (.reading d (.guard scope [] 0)))
  | scopeWord {d : Draft} {r : Reference} {w : String} :
      t.kind = .word w → Outcome ns t d (.scopeWord r) (.ok (.reading d (.scopeTail (r.push w))))
  | scopeTail {d : Draft} {r : Reference} :
      t.kind = .separator → Outcome ns t d (.scopeTail r) (.ok (.reading d (.scopeWord r)))
  | scopeNamed {d : Draft} {r : Reference} {o : Except Failure Progress} :
      Outcome ns t d (.scopeColon (r.resolve ns (· = anyConstructor))) o →
      Outcome ns t d (.scopeTail r) o
  | scopeColon {d : Draft} {scope : String} :
      t.kind = .symbol ':' →
      Outcome ns t d (.scopeColon scope) (.ok (.reading d (.guardOpen scope)))
  | guardOpen {d : Draft} {scope : String} :
      t.kind = .symbol '|' →
      Outcome ns t d (.guardOpen scope) (.ok (.reading d (.guard scope [] 0)))
  | guardToken {d : Draft} {scope : String} {captured : List Token} {depth : Int} :
      (t.kind = .arrow → depth ≠ 0) →
      Outcome ns t d (.guard scope captured depth)
        (.ok (.reading d (.guard scope (captured ++ [t]) (depth + Token.balance [t]))))
  | guardArrow {d : Draft} {scope : String} {captured : List Token} :
      t.kind = .arrow →
      Outcome ns t d (.guard scope captured 0)
        (.ok (.reading d (.guardMessage scope (guardText captured))))
  | guardMessage {d : Draft} {scope expression message : String} :
      t.kind = .quoted message →
      Outcome ns t d (.guardMessage scope expression)
        (.ok (.reading (d.addCondition ⟨scope, expression, message⟩) (.guardEnd scope)))
  | guardNext {d : Draft} {scope : String} :
      t.kind = .symbol '|' → Outcome ns t d (.guardEnd scope) (.ok (.reading d (.guard scope [] 0)))
  | nextGroupSeparator {d : Draft} {scope : String} :
      t.kind = .separator →
      Outcome ns t d (.guardEnd scope) (.ok (.reading d (.scopeWord ⟨true, []⟩)))
  | nextGroupFirst {d : Draft} {scope w : String} :
      t.kind = .word w →
      Outcome ns t d (.guardEnd scope) (.ok (.reading d (.scopeTail ⟨false, [w]⟩)))

section Rules

variable {ns : String} {t : Token} {d : Draft} {p : Place}

theorem outcome_spaced {rule : Rule} (hp : p.isSpaced = true)
    (h : t.kind ≠ .whitespace → Outcome ns t d p (rule t)) :
    Outcome ns t d p (spaced d p rule t) := by
  rw [spaced]
  split
  · next hw => exact .space hp (by simpa [Token.isWhitespace] using hw)
  · next hw => exact h (by simpa [Token.isWhitespace] using hw)

theorem outcome_symbolRule {c : Char} {next : Place} (hp : p.isSpaced = true)
    (h : t.kind = .symbol c → Outcome ns t d p (.ok (.reading d next))) :
    Outcome ns t d p (symbolRule d p c next t) := by
  refine outcome_spaced hp fun _ => ?_
  split
  · next hc => exact h (by simpa [Token.isSymbol] using hc)
  · exact .unexpected _

theorem outcome_wordRule {next : String → Place}
    (h : ∀ w, t.kind = .word w → Outcome ns t d p (.ok (.reading d (next w)))) :
    Outcome ns t d p (wordRule d next t) := by
  rw [wordRule]
  split
  · next w hw => exact h w hw
  · exact .unexpected _

theorem outcome_finish (ht : t.kind = .symbol ';') : Outcome ns t d p (finish ns d t) := by
  rw [finish]
  split
  · next hd => exact .declared ht hd
  · exact .invalid _ ht

theorem outcome_mappingStart (ht : t.kind = .word "with") :
    Outcome ns t d p (mappingStart d t) := by
  rw [mappingStart]
  split
  · next he => exact .mapping ht he
  · exact .unexpected _

theorem outcome_constructorEndRule :
    Outcome ns t d .constructorEnd (constructorEndRule ns d t) := by
  refine outcome_spaced rfl fun _ => ?_
  split
  · next h => exact .alternative h
  · next h => exact outcome_finish h
  · next h => exact .derivings h
  · next h => exact outcome_mappingStart h
  · next h => exact .conditions h
  · exact .unexpected _

theorem outcome_constructorStartRule :
    Outcome ns t d .constructorStart (constructorStartRule d t) := by
  refine outcome_spaced rfl fun _ => ?_
  split
  · next h => exact .constructorSeparator h
  · next h => exact .constructorFirst h
  · exact .unexpected _

theorem outcome_constructorBodyRule (name : String) :
    Outcome ns t d (.constructorBody name) (constructorBodyRule ns d name t) := by
  refine outcome_spaced rfl fun _ => ?_
  split
  · next h => exact .arguments (by simpa [Token.isSymbol] using h)
  · exact .noArguments outcome_constructorEndRule

theorem outcome_constructorTailRule (r : Reference) :
    Outcome ns t d (.constructorTail r) (constructorTailRule ns d r t) := by
  rw [constructorTailRule]
  split
  · next h => exact .constructorTail h
  · split
    · next h =>
      simp only [Token.isSymbol, Bool.and_eq_true, decide_eq_true_eq, List.contains_iff_mem] at h
      exact .constructorList h.1.1 h.2
    · exact .constructorNamed (outcome_constructorBodyRule _)

theorem outcome_constructorBracketRule (name : String) :
    Outcome ns t d (.constructorBracket name) (constructorBracketRule d name t) := by
  rw [constructorBracketRule]
  split
  · next h => exact .constructorBracket (by simpa [Token.isSymbol] using h)
  · exact .unexpected _

theorem outcome_argumentStartRule (c : Constructor) :
    Outcome ns t d (.argumentStart c) (argumentStartRule d c t) := by
  refine outcome_spaced rfl fun _ => ?_
  split
  · next h => exact .argumentsEnd h
  · next h => exact .nullable h
  · next h => exact .untyped h
  · next h => exact .typeSeparator h
  · next h => exact .typeFirst h
  · exact .unexpected _

theorem outcome_nullableTypeRule (c : Constructor) :
    Outcome ns t d (.nullableType c) (nullableTypeRule d c t) := by
  refine outcome_spaced rfl fun _ => ?_
  split
  · next h => exact .nullableSeparator h
  · next h => exact .nullableFirst h
  · exact .unexpected _

theorem outcome_typeTailRule (c : Constructor) (nullable : Bool) (r : Reference) :
    Outcome ns t d (.typeTail c nullable r) (typeTailRule ns d c nullable r t) := by
  rw [typeTailRule]
  split
  · next h => exact .typeEnd h
  · next h => exact .typeList h
  · next h => exact .typeTail h
  · exact .unexpected _

theorem outcome_typeBracketRule (c : Constructor) (nullable : Bool) (r : Reference) :
    Outcome ns t d (.typeBracket c nullable r) (typeBracketRule d c nullable r t) := by
  rw [typeBracketRule]
  split
  · next h => exact .typeBracket (by simpa [Token.isSymbol] using h)
  · exact .unexpected _

theorem outcome_typeGapRule (c : Constructor) (nullable : Bool) (r : Reference) :
    Outcome ns t d (.typeGap c nullable r) (typeGapRule ns d c nullable r t) := by
  rw [typeGapRule]
  split
  · next h => exact .typeGap (by simpa [Token.isWhitespace] using h)
  · exact .unexpected _

theorem outcome_argumentNameRule (c : Constructor) (nullable isList : Bool) (type : String) :
    Outcome ns t d (.argumentName c nullable isList type)
      (argumentNameRule d c nullable isList type t) := by
  refine outcome_spaced rfl fun _ => ?_
  split
  · next h => exact .argumentName h
  · exact .unexpected _

theorem outcome_argumentEndRule (c : Constructor) :
    Outcome ns t d (.argumentEnd c) (argumentEndRule d c t) := by
  refine outcome_spaced rfl fun _ => ?_
  split
  · next h => exact .argumentEnd h
  · next h => exact .argumentNext h
  · exact .unexpected _

theorem outcome_derivingItemRule : Outcome ns t d .derivingItem (derivingItemRule d t) := by
  refine outcome_spaced rfl fun _ => ?_
  split
  · next h => exact .derivingsEnd h
  · next h => exact .derivingName h
  · exact .unexpected _

theorem outcome_derivingItemEndRule :
    Outcome ns t d .derivingItemEnd (derivingItemEndRule d t) := by
  refine outcome_spaced rfl fun _ => ?_
  split
  · next h => exact .derivingNext h
  · next h => exact .derivingItemEnd h
  · exact .unexpected _

theorem outcome_derivingTailRule (name : String) :
    Outcome ns t d (.derivingTail name) (derivingTailRule d name t) := by
  refine outcome_spaced rfl fun _ => ?_
  split
  · next h =>
    simp only [Token.isSymbol, Bool.and_eq_true, decide_eq_true_eq, List.contains_iff_mem] at h
    exact .derivingColon h.1 h.2
  · exact .derivingBare outcome_derivingItemEndRule

theorem outcome_derivingMessageRule :
    Outcome ns t d .derivingMessage (derivingMessageRule d t) := by
  refine outcome_spaced rfl fun _ => ?_
  split
  · next h => exact .derivingMessage h
  · exact .unexpected _

theorem outcome_derivingEndRule : Outcome ns t d .derivingEnd (derivingEndRule ns d t) := by
  refine outcome_spaced rfl fun _ => ?_
  split
  · next h => exact outcome_finish h
  · next h => exact outcome_mappingStart h
  · next h => exact .conditions h
  · exact .unexpected _

theorem outcome_mappingCaseRule (values : List (String × Constant)) :
    Outcome ns t d (.mappingCase values) (mappingCaseRule d values t) := by
  refine outcome_spaced rfl fun _ => ?_
  split
  · next h => exact .mappingsEnd h
  · next h => exact .mappingCase h
  · exact .unexpected _

theorem depth_mappingValueRule {depth : Nat}
    (h : depth = 0 → ∀ c ∈ [',', ')', ']'], t.kind ≠ .symbol c) :
    ((if t.isSymbol '(' ∨ t.isSymbol '[' then depth + 1
      else if t.isSymbol ')' ∨ t.isSymbol ']' then depth - 1
      else depth : Nat) : Int) = depth + Token.balance [t] := by
  rw [Token.add_balance_singleton]
  split
  · rfl
  · split
    · next hc =>
      have : depth ≠ 0 := by
        rintro rfl
        simp only [Token.isSymbol, decide_eq_true_eq] at hc
        rcases hc with hc | hc
        · exact h rfl ')' (by simp) hc
        · exact h rfl ']' (by simp) hc
      omega
    · rfl

theorem outcome_mappingValueRule (values : List (String × Constant)) (case : String) (line : Nat)
    (span : List Token) (depth : Nat) :
    Outcome ns t d (.mappingValue values case line span depth)
      (mappingValueRule d values case line span depth t) := by
  refine outcome_spaced rfl fun hw => ?_
  split
  · next h =>
    obtain ⟨rfl, ht⟩ := h
    simp only [Token.isSymbol, decide_eq_true_eq] at ht
    split
    · next he => exact .invalidCase ht he
    · next value he =>
      split
      · next hc => exact .mappingNext (by simpa [Token.isSymbol] using hc) he
      · next hc =>
        refine .mappingLast (ht.resolve_left ?_) he
        simpa [Token.isSymbol] using hc
  · next hend =>
    split
    · exact .unexpected _
    · next hbracket =>
      have open_ : depth = 0 → ∀ c ∈ [',', ')', ']'], t.kind ≠ .symbol c := by
        simp only [Token.isSymbol, decide_eq_true_eq] at hend hbracket
        simp only [List.mem_cons, List.not_mem_nil, or_false, forall_eq_or_imp, forall_eq]
        tauto
      exact .mappingToken hw open_ (depth_mappingValueRule open_)

theorem outcome_mappingEndRule : Outcome ns t d .mappingEnd (mappingEndRule ns d t) := by
  refine outcome_spaced rfl fun _ => ?_
  split
  · next h => exact outcome_finish h
  · next h => exact .conditions h
  · exact .unexpected _

theorem outcome_groupStartRule (scope : String) :
    Outcome ns t d (.groupStart scope) (groupStartRule d scope t) := by
  refine outcome_spaced rfl fun _ => ?_
  split
  · next h => exact .groupSeparator h
  · next h => exact .groupFirst h
  · next h => exact .groupBar h
  · exact .unexpected _

theorem outcome_scopeTailRule (r : Reference) :
    Outcome ns t d (.scopeTail r) (scopeTailRule ns d r t) := by
  rw [scopeTailRule]
  split
  · next h => exact .scopeTail h
  · exact .scopeNamed (outcome_symbolRule rfl .scopeColon)

theorem outcome_guardRule (scope : String) (captured : List Token) (depth : Int) :
    Outcome ns t d (.guard scope captured depth) (guardRule d scope captured depth t) := by
  by_cases h : t.kind = .arrow ∧ depth = 0
  · rw [guardRule, if_pos h]
    obtain ⟨ht, rfl⟩ := h
    exact .guardArrow ht
  · have inside : t.kind = .arrow → depth ≠ 0 := fun ht hd => h ⟨ht, hd⟩
    have moved : guardRule d scope captured depth t = _ := Machine.rule_guard inside ns d
    rw [moved]
    exact .guardToken inside

theorem outcome_guardMessageRule (scope expression : String) :
    Outcome ns t d (.guardMessage scope expression) (guardMessageRule d scope expression t) := by
  refine outcome_spaced rfl fun _ => ?_
  split
  · next h => exact .guardMessage h
  · exact .unexpected _

theorem outcome_guardEndRule (scope : String) :
    Outcome ns t d (.guardEnd scope) (guardEndRule ns d scope t) := by
  refine outcome_spaced rfl fun _ => ?_
  split
  · next h => exact .guardNext h
  · next h => exact .nextGroupSeparator h
  · next h => exact .nextGroupFirst h
  · next h => exact outcome_finish h
  · exact .unexpected _

end Rules

theorem Place.outcome (ns : String) (d : Draft) (p : Place) (t : Token) :
    Outcome ns t d p (p.rule ns d t) := by
  cases p with
  | equals => exact outcome_symbolRule rfl .equals
  | constructorStart => exact outcome_constructorStartRule
  | constructorWord => exact outcome_wordRule fun _ => .constructorWord
  | constructorTail => exact outcome_constructorTailRule _
  | constructorBracket => exact outcome_constructorBracketRule _
  | constructorBody => exact outcome_constructorBodyRule _
  | argumentStart => exact outcome_argumentStartRule _
  | nullableType => exact outcome_nullableTypeRule _
  | typeWord => exact outcome_wordRule fun _ => .typeWord
  | typeTail => exact outcome_typeTailRule _ _ _
  | typeBracket => exact outcome_typeBracketRule _ _ _
  | typeGap => exact outcome_typeGapRule _ _ _
  | argumentName => exact outcome_argumentNameRule _ _ _ _
  | argumentEnd => exact outcome_argumentEndRule _
  | constructorEnd => exact outcome_constructorEndRule
  | derivingOpen => exact outcome_symbolRule rfl .derivingOpen
  | derivingItem => exact outcome_derivingItemRule
  | derivingTail => exact outcome_derivingTailRule _
  | derivingMessage => exact outcome_derivingMessageRule
  | derivingItemEnd => exact outcome_derivingItemEndRule
  | derivingEnd => exact outcome_derivingEndRule
  | mappingOpen => exact outcome_symbolRule rfl .mappingOpen
  | mappingCase => exact outcome_mappingCaseRule _
  | mappingColon => exact outcome_symbolRule rfl .mappingColon
  | mappingValue => exact outcome_mappingValueRule _ _ _ _ _
  | mappingEnd => exact outcome_mappingEndRule
  | groupStart => exact outcome_groupStartRule _
  | scopeWord => exact outcome_wordRule fun _ => .scopeWord
  | scopeTail => exact outcome_scopeTailRule _
  | scopeColon => exact outcome_symbolRule rfl .scopeColon
  | guardOpen => exact outcome_symbolRule rfl .guardOpen
  | guard => exact outcome_guardRule _ _ _
  | guardMessage => exact outcome_guardMessageRule _ _
  | guardEnd => exact outcome_guardEndRule _

namespace Machine

inductive Outcome (m : Machine) (t : Token) : Except Failure Machine → Prop
  | unexpected (expected : Expected) : Outcome m t (.error ⟨t.line, .unexpected expected t⟩)
  | nestedNamespaces : m.inBlock = true → Outcome m t (.error ⟨t.line, .nestedNamespaces⟩)
  | unknownDefinition : Outcome m t (.error ⟨t.line, .unknownDefinition t.text⟩)
  | space : m.state = .topLevel → t.kind = .whitespace → Outcome m t (.ok m)
  | blockEnd :
      m.state = .topLevel → m.inBlock = true → t.kind = .symbol '\x7d' →
      Outcome m t (.ok { m with ns := "", inBlock := false, state := .topLevel })
  -- A namespace.
  | nameSpace :
      m.state = .topLevel → m.inBlock = false → t.kind = .word "namespace" →
      Outcome m t (.ok { m with state := .namespaceGap })
  | namespaceGap :
      m.state = .namespaceGap → t.kind = .whitespace →
      Outcome m t (.ok { m with state := .namespaceWord [] })
  | namespaceWord {words : List String} {w : String} :
      m.state = .namespaceWord words → t.kind = .word w →
      Outcome m t (.ok { m with state := .namespaceTail (words ++ [w]) })
  | namespaceTail {words : List String} :
      m.state = .namespaceTail words → t.kind = .separator →
      Outcome m t (.ok { m with state := .namespaceWord words })
  | namespaceSpace {words : List String} :
      m.state = .namespaceTail words ∨ m.state = .namespaceEnd words → t.kind = .whitespace →
      Outcome m t (.ok { m with state := .namespaceEnd words })
  | namespaceBlock {words : List String} :
      m.state = .namespaceTail words ∨ m.state = .namespaceEnd words → t.kind = .symbol '\x7b' →
      Outcome m t
        (.ok { m with ns := Reference.spelling words, inBlock := true, state := .topLevel })
  | namespaceEnd {words : List String} :
      m.state = .namespaceTail words ∨ m.state = .namespaceEnd words → t.kind = .symbol ';' →
      Outcome m t (.ok { m with ns := Reference.spelling words, state := .topLevel })
  -- A declaration.
  | data :
      m.state = .topLevel → t.kind = .word "data" →
      Outcome m t (.ok { m with state := .nameGap t.line })
  | nameGap {line : Nat} :
      m.state = .nameGap line → t.kind = .whitespace →
      Outcome m t (.ok { m with state := .name line })
  | name {line : Nat} {w : String} :
      m.state = .name line → t.kind = .word w →
      Outcome m t (.ok { m with state := .body { line := line, name := w } .equals })
  | reading {d d' : Draft} {p p' : Place} :
      m.state = .body d p → Declaration.Outcome m.ns t d p (.ok (.reading d' p')) →
      Outcome m t (.ok { m with state := .body d' p' })
  | declared {d : Draft} {p : Place} {definition : Definition} :
      m.state = .body d p → Declaration.Outcome m.ns t d p (.ok (.declared definition)) →
      Outcome m t
        (.ok { m with definitions := m.definitions ++ [definition], state := .topLevel })
  | rejected {d : Draft} {p : Place} {e : Failure} :
      m.state = .body d p → Declaration.Outcome m.ns t d p (.error e) → Outcome m t (.error e)

variable {m : Machine} {t : Token}

theorem outcome_stepTopLevel (hs : m.state = .topLevel) : m.Outcome t (m.stepTopLevel t) := by
  rw [stepTopLevel]
  split
  · next ht => exact .space hs ht
  · next ht =>
    split
    · next hb => exact .nestedNamespaces hb
    · next hb => exact .nameSpace hs (by simpa using hb) ht
  · next ht => exact .data hs ht
  · exact .unknownDefinition
  · split
    · next hb =>
      simp only [Token.isSymbol, Bool.and_eq_true, decide_eq_true_eq] at hb
      exact .blockEnd hs hb.1 hb.2
    · exact .unexpected _

theorem outcome_stepNamespaceEnd {words : List String}
    (hs : m.state = .namespaceTail words ∨ m.state = .namespaceEnd words) :
    m.Outcome t (m.stepNamespaceEnd words t) := by
  rw [stepNamespaceEnd]
  split
  · next ht => exact .namespaceSpace hs ht
  · next ht => exact .namespaceBlock hs ht
  · next ht => exact .namespaceEnd hs ht
  · exact .unexpected _

theorem outcome (m : Machine) (t : Token) : m.Outcome t (m.step t) := by
  rw [step]
  split
  · next hs => exact outcome_stepTopLevel hs
  · next hs =>
    split
    · next ht => exact .namespaceGap hs (by simpa [Token.isWhitespace] using ht)
    · exact .unexpected _
  · next hs =>
    split
    · next ht => exact .namespaceWord hs ht
    · exact .unexpected _
  · next hs =>
    split
    · next ht => exact .namespaceTail hs ht
    · exact outcome_stepNamespaceEnd (.inl hs)
  · next hs => exact outcome_stepNamespaceEnd (.inr hs)
  · next hs =>
    split
    · next ht => exact .nameGap hs (by simpa [Token.isWhitespace] using ht)
    · exact .unexpected _
  · next hs =>
    split
    · next ht => exact .name hs ht
    · exact .unexpected _
  · next d p hs =>
    have place := Place.outcome m.ns d p t
    split
    · next hr => exact .rejected hs (hr ▸ place)
    · next hr => exact .reading hs (hr ▸ place)
    · next hr => exact .declared hs (hr ▸ place)

theorem outcome_of_step {o : Except Failure Machine} (h : m.step t = o) : m.Outcome t o :=
  h ▸ m.outcome t

end Machine

end Datatypes.Declaration
