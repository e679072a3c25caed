import Datatypes.Proofs.Constant.Evaluation
import Datatypes.Proofs.Declaration.Outcome
import Datatypes.Proofs.Declaration.Run
import Datatypes.Proofs.Token.Joining

/-!
A declaration says the same wherever it stands. Its lines serve for messages only, and the
namespace only goes into the names that it qualifies; which tokens make up a declaration depends
on neither.
-/

namespace Datatypes

variable (f : String → String)

def Argument.mapType (a : Argument) : Argument := { a with type := f a.type }

def Constructor.mapNames (c : Constructor) : Constructor :=
  ⟨f c.name, c.arguments.map (·.mapType f)⟩

def Condition.mapScope (c : Condition) : Condition := { c with scope := f c.scope }

def Definition.mapNames (d : Definition) : Definition :=
  { d with
    ns := f d.ns
    constructor := d.constructor.mapNames f
    conditions := d.conditions.map (·.mapScope f) }

theorem Definition.mapNames_id (d : Definition) : d.mapNames id = d := by
  simp [mapNames, Constructor.mapNames, Argument.mapType, Condition.mapScope]

namespace Declaration

def Draft.erase (d : Draft) : Draft :=
  { d with
    line := 0
    constructors := d.constructors.map (·.mapNames f)
    conditions := d.conditions.map (·.mapScope f) }

def Place.erase : Place → Place
  | .constructorBody name => .constructorBody (f name)
  | .argumentStart c => .argumentStart (c.mapNames f)
  | .nullableType c => .nullableType (c.mapNames f)
  | .typeWord c nullable r => .typeWord (c.mapNames f) nullable r
  | .typeTail c nullable r => .typeTail (c.mapNames f) nullable r
  | .typeBracket c nullable r => .typeBracket (c.mapNames f) nullable r
  | .typeGap c nullable r => .typeGap (c.mapNames f) nullable r
  | .argumentName c nullable isList type => .argumentName (c.mapNames f) nullable isList (f type)
  | .argumentEnd c => .argumentEnd (c.mapNames f)
  | .mappingColon values case _ => .mappingColon values case 0
  | .mappingValue values case _ span depth =>
    .mappingValue values case 0 (span.map (·.unlined)) depth
  | .groupStart scope => .groupStart (f scope)
  | .scopeColon scope => .scopeColon (f scope)
  | .guardOpen scope => .guardOpen (f scope)
  | .guard scope captured depth => .guard (f scope) (captured.map (·.unlined)) depth
  | .guardMessage scope expression => .guardMessage (f scope) expression
  | .guardEnd scope => .guardEnd (f scope)
  | p => p

def Progress.erase : Progress → Progress
  | .reading d p => .reading (d.erase f) (p.erase f)
  | .declared definition => .declared (definition.mapNames f)

def view (o : Except Failure Progress) : Option Progress := o.toOption.map (·.erase f)

/-- `f` hides whatever the one namespace resolves otherwise than the other. -/
structure Blurs (ns ns' : String) : Prop where
  idem : ∀ name, f (f name) = f name
  own : f ns = f ns'
  resolve : ∀ (r : Reference) bare, f (r.resolve ns bare) = f (r.resolve ns' bare)

variable {f}

theorem blurs_id (ns : String) : Blurs id ns ns := ⟨fun _ => rfl, rfl, fun _ _ => rfl⟩

theorem Blurs.constructor {ns ns' : String} (h : Blurs f ns ns') (c : Constructor) :
    (c.mapNames f).mapNames f = c.mapNames f := by
  simp [Constructor.mapNames, Argument.mapType, h.idem]

section Drafts

variable {d d' : Draft}

theorem Draft.erase_eq_iff : d.erase f = d'.erase f ↔
    d.name = d'.name ∧ d.constructors.map (·.mapNames f) = d'.constructors.map (·.mapNames f) ∧
      d.derivings = d'.derivings ∧
      d.conditions.map (·.mapScope f) = d'.conditions.map (·.mapScope f) ∧
      d.messageName = d'.messageName := by
  simp [Draft.erase]

variable (hd : d.erase f = d'.erase f)

include hd

theorem erase_addConstructor {c c' : Constructor} (hc : c.mapNames f = c'.mapNames f) :
    (d.addConstructor c).erase f = (d'.addConstructor c').erase f := by
  obtain ⟨hn, hcs, hds, hg, hm⟩ := Draft.erase_eq_iff.mp hd
  simp [Draft.erase, Draft.addConstructor, hn, hcs, hds, hg, hm, hc]

theorem erase_addCondition {c c' : Condition} (hc : c.mapScope f = c'.mapScope f) :
    (d.addCondition c).erase f = (d'.addCondition c').erase f := by
  obtain ⟨hn, hcs, hds, hg, hm⟩ := Draft.erase_eq_iff.mp hd
  simp [Draft.erase, Draft.addCondition, hn, hcs, hds, hg, hm, hc]

theorem erase_addDeriving (w : String) :
    (d.addDeriving w).erase f = (d'.addDeriving w).erase f := by
  obtain ⟨hn, hcs, hds, hg, hm⟩ := Draft.erase_eq_iff.mp hd
  simp [Draft.erase, Draft.addDeriving, hn, hcs, hds, hg, hm]

theorem erase_setMessage (message : String) :
    (d.setMessage message).erase f = (d'.setMessage message).erase f := by
  obtain ⟨hn, hcs, hds, hg, -⟩ := Draft.erase_eq_iff.mp hd
  simp [Draft.erase, Draft.setMessage, hn, hcs, hds, hg]

theorem erase_setValues (values : List (String × Constant)) :
    (d.setValues values).erase f = (d'.setValues values).erase f := by
  obtain ⟨hn, hcs, hds, hg, hm⟩ := Draft.erase_eq_iff.mp hd
  simp [Draft.erase, Draft.setValues, hn, hcs, hds, hg, hm]

end Drafts

theorem mapNames_snoc {c c' : Constructor} (hc : c.mapNames f = c'.mapNames f)
    {a a' : Argument} (ha : a.mapType f = a'.mapType f) :
    ({ c with arguments := c.arguments ++ [a] } : Constructor).mapNames f =
      ({ c' with arguments := c'.arguments ++ [a'] } : Constructor).mapNames f := by
  simp only [Constructor.mapNames, Constructor.mk.injEq] at hc
  simp [Constructor.mapNames, hc, ha]

theorem guardText_unlined (captured : List Token) :
    guardText (captured.map (·.unlined)) = guardText captured := by
  have texts : (captured.map (·.unlined)).map (·.text) = captured.map (·.text) := by
    simp [Token.unlined]
  rw [guardText, texts, guardText]

theorem evaluate_toOption_congr {span span' : List Token}
    (h : span.map (·.kind) = span'.map (·.kind)) :
    (Constant.evaluate span).toOption = (Constant.evaluate span').toOption := by
  have kept {a b : List Token} (h : a.map (·.kind) = b.map (·.kind)) {v : Constant}
      (hv : Constant.evaluate a = .ok v) : Constant.evaluate b = .ok v := by
    obtain ⟨e, spelled, value⟩ := Constant.exists_tree_of_evaluate hv
    rw [Constant.evaluate_eq_valueWithin (h ▸ spelled), value]
  cases hv : Constant.evaluate span with
  | ok v => rw [kept h hv]
  | error e =>
    cases hv' : Constant.evaluate span' with
    | ok v => rw [kept h.symm hv'] at hv; cases hv
    | error e' => rfl

theorem view_finish_eq (ns : String) (d : Draft) (t : Token) :
    view f (finish ns d t) =
      (Definition.ofParts (f ns) d.name (d.constructors.map (·.mapNames f)) d.derivings
        (d.conditions.map (·.mapScope f)) d.messageName).toOption.map .declared := by
  obtain ⟨line, name, constructors, derivings, conditions, message⟩ := d
  rw [finish]
  rcases constructors with _ | ⟨c, _ | ⟨c', cs⟩⟩ <;>
    rcases derivings with _ | ⟨x, _ | ⟨x', xs⟩⟩ <;> rfl

section Rules

variable {d d' : Draft} (hd : d.erase f = d'.erase f) {p p' : Place} {t : Token}

include hd

theorem view_reading (hp : p.erase f = p'.erase f) :
    view f (.ok (.reading d p)) = view f (.ok (.reading d' p')) := by
  simp [view, Except.toOption, Progress.erase, hd, hp]

theorem view_spaced {rule rule' : Rule} (hp : p.erase f = p'.erase f)
    (hr : view f (rule t) = view f (rule' t.unlined)) :
    view f (spaced d p rule t) = view f (spaced d' p' rule' t.unlined) := by
  rw [spaced, spaced, Token.unlined_isWhitespace]
  split
  · exact view_reading hd hp
  · exact hr

theorem view_symbolRule (c : Char) {next next' : Place} (hp : p.erase f = p'.erase f)
    (hn : next.erase f = next'.erase f) :
    view f (symbolRule d p c next t) = view f (symbolRule d' p' c next' t.unlined) := by
  refine view_spaced hd hp ?_
  rw [Token.unlined_isSymbol]
  split
  · exact view_reading hd hn
  · rfl

theorem view_wordRule {next next' : String → Place}
    (hn : ∀ w, (next w).erase f = (next' w).erase f) :
    view f (wordRule d next t) = view f (wordRule d' next' t.unlined) := by
  rw [wordRule, wordRule, Token.unlined_kind]
  split
  · exact view_reading hd (hn _)
  · rfl

theorem view_mappingStart : view f (mappingStart d t) = view f (mappingStart d' t.unlined) := by
  rw [mappingStart, mappingStart, (Draft.erase_eq_iff.mp hd).2.2.1]
  split
  · exact view_reading hd rfl
  · rfl

theorem view_constructorStartRule :
    view f (constructorStartRule d t) = view f (constructorStartRule d' t.unlined) := by
  refine view_spaced hd rfl ?_
  rw [Token.unlined_kind]
  split
  · exact view_reading hd rfl
  · exact view_reading hd rfl
  · rfl

theorem view_constructorBracketRule (name : String) :
    view f (constructorBracketRule d name t) =
      view f (constructorBracketRule d' name t.unlined) := by
  rw [constructorBracketRule, constructorBracketRule,
    Token.unlined_isSymbol]
  split
  · exact view_reading hd rfl
  · rfl

section Arguments

variable {c c' : Constructor} (hc : c.mapNames f = c'.mapNames f)

include hc

theorem view_argumentStartRule :
    view f (argumentStartRule d c t) = view f (argumentStartRule d' c' t.unlined) := by
  refine view_spaced hd (congrArg Place.argumentStart hc) ?_
  rw [Token.unlined_kind]
  split
  · exact view_reading (erase_addConstructor hd hc) rfl
  · exact view_reading hd (congrArg Place.nullableType hc)
  · exact view_reading hd (congrArg Place.argumentEnd (mapNames_snoc hc rfl))
  · exact view_reading hd (congrArg (Place.typeWord · false _) hc)
  · exact view_reading hd (congrArg (Place.typeTail · false _) hc)
  · rfl

theorem view_nullableTypeRule :
    view f (nullableTypeRule d c t) = view f (nullableTypeRule d' c' t.unlined) := by
  refine view_spaced hd (congrArg Place.nullableType hc) ?_
  rw [Token.unlined_kind]
  split
  · exact view_reading hd (congrArg (Place.typeWord · true _) hc)
  · exact view_reading hd (congrArg (Place.typeTail · true _) hc)
  · rfl

theorem view_typeBracketRule (nullable : Bool) (r : Reference) :
    view f (typeBracketRule d c nullable r t) =
      view f (typeBracketRule d' c' nullable r t.unlined) := by
  rw [typeBracketRule, typeBracketRule, Token.unlined_isSymbol]
  split
  · exact view_reading hd (congrArg (Place.typeGap · nullable _) hc)
  · rfl

theorem view_argumentNameRule (nullable isList : Bool) {type type' : String}
    (ht : f type = f type') :
    view f (argumentNameRule d c nullable isList type t) =
      view f (argumentNameRule d' c' nullable isList type' t.unlined) := by
  refine view_spaced hd (congrArg₂ (Place.argumentName · nullable isList ·) hc ht) ?_
  rw [Token.unlined_kind]
  split
  · refine view_reading hd (congrArg Place.argumentEnd (mapNames_snoc hc ?_))
    simp [Argument.mapType, ht]
  · rfl

theorem view_argumentEndRule :
    view f (argumentEndRule d c t) = view f (argumentEndRule d' c' t.unlined) := by
  refine view_spaced hd (congrArg Place.argumentEnd hc) ?_
  rw [Token.unlined_kind]
  split
  · exact view_reading (erase_addConstructor hd hc) rfl
  · exact view_reading hd (congrArg Place.argumentStart hc)
  · rfl

end Arguments

theorem view_derivingItemRule :
    view f (derivingItemRule d t) = view f (derivingItemRule d' t.unlined) := by
  refine view_spaced hd rfl ?_
  rw [Token.unlined_kind]
  split
  · exact view_reading hd rfl
  · exact view_reading (erase_addDeriving hd _) rfl
  · rfl

theorem view_derivingItemEndRule :
    view f (derivingItemEndRule d t) = view f (derivingItemEndRule d' t.unlined) := by
  refine view_spaced hd rfl ?_
  rw [Token.unlined_kind]
  split
  · exact view_reading hd rfl
  · exact view_reading hd rfl
  · rfl

theorem view_derivingTailRule (name : String) :
    view f (derivingTailRule d name t) = view f (derivingTailRule d' name t.unlined) := by
  refine view_spaced hd rfl ?_
  rw [Token.unlined_isSymbol]
  split
  · exact view_reading hd rfl
  · exact view_derivingItemEndRule hd

theorem view_derivingMessageRule :
    view f (derivingMessageRule d t) = view f (derivingMessageRule d' t.unlined) := by
  refine view_spaced hd rfl ?_
  rw [Token.unlined_kind]
  split
  · exact view_reading (erase_setMessage hd _) rfl
  · rfl

theorem view_mappingCaseRule (values : List (String × Constant)) :
    view f (mappingCaseRule d values t) = view f (mappingCaseRule d' values t.unlined) := by
  refine view_spaced hd rfl ?_
  rw [Token.unlined_kind]
  split
  · exact view_reading (erase_setValues hd _) rfl
  · exact view_reading hd rfl
  · rfl

theorem view_mappingValueRule (values : List (String × Constant)) (case : String)
    (line : Nat) (span : List Token) (depth : Nat) :
    view f (mappingValueRule d values case line span depth t) =
      view f (mappingValueRule d' values case 0 (span.map (·.unlined)) depth t.unlined) := by
  refine view_spaced hd (congrArg (Place.mappingValue values case 0 · depth) ?_) ?_
  · simp [Token.unlined]
  have symbol (c : Char) : t.unlined.isSymbol c = t.isSymbol c := rfl
  simp only [symbol]
  split
  · have same : (Constant.evaluate span).toOption =
        (Constant.evaluate (span.map (·.unlined))).toOption :=
      evaluate_toOption_congr (by simp [Token.unlined])
    cases hv : Constant.evaluate span with
    | error e =>
      cases hv' : Constant.evaluate (span.map (·.unlined)) with
      | error e' => rfl
      | ok v => rw [hv, hv'] at same; cases same
    | ok v =>
      cases hv' : Constant.evaluate (span.map (·.unlined)) with
      | error e' => rw [hv, hv'] at same; cases same
      | ok v' =>
        rw [hv, hv'] at same
        cases same
        simp only []
        split
        · exact view_reading hd rfl
        · exact view_reading (erase_setValues hd _) rfl
  · split
    · rfl
    · refine view_reading hd (congrArg (Place.mappingValue values case 0 · _) ?_)
      simp [Token.unlined]

theorem view_groupStartRule {scope scope' : String} (hs : f scope = f scope') :
    view f (groupStartRule d scope t) = view f (groupStartRule d' scope' t.unlined) := by
  refine view_spaced hd (congrArg Place.groupStart hs) ?_
  rw [Token.unlined_kind]
  split
  · exact view_reading hd rfl
  · exact view_reading hd rfl
  · exact view_reading hd (congrArg (Place.guard · [] 0) hs)
  · rfl

theorem view_guardRule {scope scope' : String} (hs : f scope = f scope') (captured : List Token)
    (depth : Int) :
    view f (guardRule d scope captured depth t) =
      view f (guardRule d' scope' (captured.map (·.unlined)) depth t.unlined) := by
  rw [guardRule, guardRule, guardText_unlined]
  have symbol (c : Char) : t.unlined.isSymbol c = t.isSymbol c := rfl
  have kind : t.unlined.kind = t.kind := rfl
  simp only [symbol, kind]
  split
  · exact view_reading hd (congrArg (Place.guardMessage · _) hs)
  · refine view_reading hd (congrArg₂ (Place.guard · · _) hs ?_)
    simp [Token.unlined]

theorem view_guardMessageRule {scope scope' : String} (hs : f scope = f scope')
    (expression : String) :
    view f (guardMessageRule d scope expression t) =
      view f (guardMessageRule d' scope' expression t.unlined) := by
  refine view_spaced hd (congrArg (Place.guardMessage · expression) hs) ?_
  rw [Token.unlined_kind]
  split
  · refine view_reading (erase_addCondition hd ?_) (congrArg Place.guardEnd hs)
    simp [Condition.mapScope, hs]
  · rfl

section Namespaces

variable {ns ns' : String} (h : Blurs f ns ns')

include h

theorem view_finish : view f (finish ns d t) = view f (finish ns' d' t.unlined) := by
  obtain ⟨hn, hcs, hds, hg, hm⟩ := Draft.erase_eq_iff.mp hd
  rw [view_finish_eq, view_finish_eq, hn, hcs, hds, hg, hm, h.own]

theorem view_constructorEndRule :
    view f (constructorEndRule ns d t) = view f (constructorEndRule ns' d' t.unlined) := by
  refine view_spaced hd rfl ?_
  rw [Token.unlined_kind]
  split
  · exact view_reading hd rfl
  · exact view_finish hd h
  · exact view_reading hd rfl
  · exact view_mappingStart hd
  · exact view_reading hd rfl
  · rfl

theorem view_constructorBodyRule {name name' : String} (hn : f name = f name') :
    view f (constructorBodyRule ns d name t) =
      view f (constructorBodyRule ns' d' name' t.unlined) := by
  refine view_spaced hd (congrArg Place.constructorBody hn) ?_
  have started : (⟨name, []⟩ : Constructor).mapNames f =
      (⟨name', []⟩ : Constructor).mapNames f := by
    simp [Constructor.mapNames, hn]
  rw [Token.unlined_isSymbol]
  split
  · exact view_reading hd (congrArg Place.argumentStart started)
  · exact view_constructorEndRule (erase_addConstructor hd started) h

theorem view_constructorTailRule (r : Reference) :
    view f (constructorTailRule ns d r t) = view f (constructorTailRule ns' d' r t.unlined) := by
  rw [constructorTailRule, constructorTailRule, Token.unlined_kind,
    Token.unlined_isSymbol]
  split
  · exact view_reading hd rfl
  · split
    · exact view_reading hd rfl
    · exact view_constructorBodyRule hd h (h.resolve r isScalarConstructor)

theorem view_typeTailRule {c c' : Constructor} (hc : c.mapNames f = c'.mapNames f)
    (nullable : Bool) (r : Reference) :
    view f (typeTailRule ns d c nullable r t) =
      view f (typeTailRule ns' d' c' nullable r t.unlined) := by
  rw [typeTailRule, typeTailRule, Token.unlined_kind]
  split
  · exact view_reading hd
      (congrArg₂ (Place.argumentName · nullable false ·) hc (h.resolve r isScalarType))
  · exact view_reading hd (congrArg (Place.typeBracket · nullable r) hc)
  · exact view_reading hd (congrArg (Place.typeWord · nullable r) hc)
  · rfl

theorem view_typeGapRule {c c' : Constructor} (hc : c.mapNames f = c'.mapNames f)
    (nullable : Bool) (r : Reference) :
    view f (typeGapRule ns d c nullable r t) =
      view f (typeGapRule ns' d' c' nullable r t.unlined) := by
  rw [typeGapRule, typeGapRule, Token.unlined_isWhitespace]
  split
  · exact view_reading hd
      (congrArg₂ (Place.argumentName · nullable true ·) hc (h.resolve r isScalarType))
  · rfl

theorem view_derivingEndRule :
    view f (derivingEndRule ns d t) = view f (derivingEndRule ns' d' t.unlined) := by
  refine view_spaced hd rfl ?_
  rw [Token.unlined_kind]
  split
  · exact view_finish hd h
  · exact view_mappingStart hd
  · exact view_reading hd rfl
  · rfl

theorem view_mappingEndRule :
    view f (mappingEndRule ns d t) = view f (mappingEndRule ns' d' t.unlined) := by
  refine view_spaced hd rfl ?_
  rw [Token.unlined_kind]
  split
  · exact view_finish hd h
  · exact view_reading hd rfl
  · rfl

theorem view_scopeTailRule (r : Reference) :
    view f (scopeTailRule ns d r t) = view f (scopeTailRule ns' d' r t.unlined) := by
  rw [scopeTailRule, scopeTailRule, Token.unlined_kind]
  split
  · exact view_reading hd rfl
  · exact view_symbolRule hd ':' (congrArg Place.scopeColon (h.resolve r _))
      (congrArg Place.guardOpen (h.resolve r _))

theorem view_guardEndRule {scope scope' : String} (hs : f scope = f scope') :
    view f (guardEndRule ns d scope t) = view f (guardEndRule ns' d' scope' t.unlined) := by
  refine view_spaced hd (congrArg Place.guardEnd hs) ?_
  rw [Token.unlined_kind]
  split
  · exact view_reading hd (congrArg (Place.guard · [] 0) hs)
  · exact view_reading hd rfl
  · exact view_reading hd rfl
  · exact view_finish hd h
  · rfl

theorem view_rule_erase (p : Place) :
    view f (p.rule ns d t) = view f ((p.erase f).rule ns' d' t.unlined) := by
  cases p with
  | equals | derivingOpen | mappingOpen => exact view_symbolRule hd _ rfl rfl
  | constructorStart => exact view_constructorStartRule hd
  | constructorWord r | scopeWord r => exact view_wordRule hd fun _ => rfl
  | constructorTail r => exact view_constructorTailRule hd h r
  | constructorBracket name => exact view_constructorBracketRule hd name
  | constructorBody name => exact view_constructorBodyRule hd h (h.idem name).symm
  | argumentStart c => exact view_argumentStartRule hd (h.constructor c).symm
  | nullableType c => exact view_nullableTypeRule hd (h.constructor c).symm
  | typeWord c nullable r =>
    exact view_wordRule hd fun _ => congrArg (Place.typeTail · nullable _) (h.constructor c).symm
  | typeTail c nullable r => exact view_typeTailRule hd h (h.constructor c).symm nullable r
  | typeBracket c nullable r => exact view_typeBracketRule hd (h.constructor c).symm nullable r
  | typeGap c nullable r => exact view_typeGapRule hd h (h.constructor c).symm nullable r
  | argumentName c nullable isList type =>
    exact view_argumentNameRule hd (h.constructor c).symm nullable isList (h.idem type).symm
  | argumentEnd c => exact view_argumentEndRule hd (h.constructor c).symm
  | constructorEnd => exact view_constructorEndRule hd h
  | derivingItem => exact view_derivingItemRule hd
  | derivingTail name => exact view_derivingTailRule hd name
  | derivingMessage => exact view_derivingMessageRule hd
  | derivingItemEnd => exact view_derivingItemEndRule hd
  | derivingEnd => exact view_derivingEndRule hd h
  | mappingCase values => exact view_mappingCaseRule hd values
  | mappingColon values case line => exact view_symbolRule hd ':' rfl rfl
  | mappingValue values case line span depth =>
    exact view_mappingValueRule hd values case line span depth
  | mappingEnd => exact view_mappingEndRule hd h
  | groupStart scope => exact view_groupStartRule hd (h.idem scope).symm
  | scopeTail r => exact view_scopeTailRule hd h r
  | scopeColon scope =>
    have hs := (h.idem scope).symm
    exact view_symbolRule hd ':' (congrArg Place.scopeColon hs) (congrArg Place.guardOpen hs)
  | guardOpen scope =>
    have hs := (h.idem scope).symm
    exact view_symbolRule hd '|' (congrArg Place.guardOpen hs) (congrArg (Place.guard · [] 0) hs)
  | guard scope captured depth => exact view_guardRule hd (h.idem scope).symm captured depth
  | guardMessage scope expression =>
    exact view_guardMessageRule hd (h.idem scope).symm expression
  | guardEnd scope => exact view_guardEndRule hd h (h.idem scope).symm

end Namespaces

end Rules

end Declaration

end Datatypes
