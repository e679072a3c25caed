import Datatypes.Constant.Expression
import Datatypes.Declaration.State
import Datatypes.ParseError
import Datatypes.Text.Blank

/-!
How a token moves the reader on. Each place of a declaration has its rule; a rule that ends on a
token which belongs to what follows hands that token on to the next rule, within the same step.
-/

namespace Datatypes.Declaration

def unexpected {α : Type} (expected : Expected) (t : Token) : Except Failure α :=
  .error ⟨t.line, .unexpected expected t⟩

inductive Progress where
  | reading (draft : Draft) (place : Place)
  | declared (definition : Definition)
deriving DecidableEq, Repr

abbrev Rule := Token → Except Failure Progress

def spaced (d : Draft) (p : Place) (rule : Rule) : Rule := fun t =>
  if t.isWhitespace then .ok (.reading d p) else rule t

def symbolRule (d : Draft) (p : Place) (c : Char) (next : Place) : Rule :=
  spaced d p fun t => if t.isSymbol c then .ok (.reading d next) else unexpected (.symbol c) t

def wordRule (d : Draft) (next : String → Place) : Rule := fun t =>
  match t.kind with
  | .word w => .ok (.reading d (next w))
  | _ => unexpected .identifier t

/-- The name that a reference has in a namespace, which qualifies neither an absolute spelling
nor a name for which `bare` holds. -/
def Reference.resolve (r : Reference) (ns : String) (bare : String → Bool) : String :=
  if r.absolute || bare r.name then r.name else qualify ns r.name

def finish (ns : String) (d : Draft) (t : Token) : Except Failure Progress :=
  match Definition.ofParts ns d.name d.constructors d.derivings d.conditions d.messageName with
  | .ok definition => .ok (.declared definition)
  | .error cause => .error ⟨t.line, .invalidDefinition d.name d.line cause⟩

def mappingStart (d : Draft) (t : Token) : Except Failure Progress :=
  if d.derivings.any (·.isEnum) then .ok (.reading d .mappingOpen) else unexpected .mappingEnd t

def constructorEndRule (ns : String) (d : Draft) : Rule :=
  spaced d .constructorEnd fun t =>
    match t.kind with
    | .symbol '|' => .ok (.reading d .constructorStart)
    | .symbol ';' => finish ns d t
    | .word "deriving" => .ok (.reading d .derivingOpen)
    | .word "with" => mappingStart d t
    | .word "where" => .ok (.reading d (.groupStart anyConstructor))
    | _ => unexpected .constructorEnd t

def constructorStartRule (d : Draft) : Rule :=
  spaced d .constructorStart fun t =>
    match t.kind with
    | .separator => .ok (.reading d (.constructorWord ⟨true, []⟩))
    | .word w => .ok (.reading d (.constructorTail ⟨false, [w]⟩))
    | _ => unexpected .identifier t

def constructorBodyRule (ns : String) (d : Draft) (name : String) : Rule :=
  spaced d (.constructorBody name) fun t =>
    if t.isSymbol '\x7b' then .ok (.reading d (.argumentStart ⟨name, []⟩))
    else constructorEndRule ns (d.addConstructor ⟨name, []⟩) t

/-- Brackets make a list only of a scalar that is spelled without a separator. -/
def constructorTailRule (ns : String) (d : Draft) (r : Reference) : Rule := fun t =>
  match t.kind with
  | .separator => .ok (.reading d (.constructorWord r))
  | _ =>
    if t.isSymbol '[' && !r.absolute && scalarConstructors.contains r.name then
      .ok (.reading d (.constructorBracket r.name))
    else constructorBodyRule ns d (r.resolve ns isScalarConstructor) t

def constructorBracketRule (d : Draft) (name : String) : Rule := fun t =>
  if t.isSymbol ']' then .ok (.reading d (.constructorBody (name ++ "[]")))
  else unexpected (.symbol ']') t

def argumentStartRule (d : Draft) (c : Constructor) : Rule :=
  spaced d (.argumentStart c) fun t =>
    match t.kind with
    | .symbol '\x7d' => .ok (.reading (d.addConstructor c) .constructorEnd)
    | .symbol '?' => .ok (.reading d (.nullableType c))
    | .var v => .ok (.reading d (.argumentEnd { c with arguments := c.arguments ++ [.untyped v] }))
    | .separator => .ok (.reading d (.typeWord c false ⟨true, []⟩))
    | .word w => .ok (.reading d (.typeTail c false ⟨false, [w]⟩))
    | _ => unexpected .typeNameOrVariable t

def nullableTypeRule (d : Draft) (c : Constructor) : Rule :=
  spaced d (.nullableType c) fun t =>
    match t.kind with
    | .separator => .ok (.reading d (.typeWord c true ⟨true, []⟩))
    | .word w => .ok (.reading d (.typeTail c true ⟨false, [w]⟩))
    | _ => unexpected .typeName t

def typeTailRule (ns : String) (d : Draft) (c : Constructor) (nullable : Bool) (r : Reference) :
    Rule := fun t =>
  match t.kind with
  | .whitespace => .ok (.reading d (.argumentName c nullable false (r.resolve ns isScalarType)))
  | .symbol '[' => .ok (.reading d (.typeBracket c nullable r))
  | .separator => .ok (.reading d (.typeWord c nullable r))
  | _ => unexpected .typeEnd t

def typeBracketRule (d : Draft) (c : Constructor) (nullable : Bool) (r : Reference) : Rule :=
  fun t =>
    if t.isSymbol ']' then .ok (.reading d (.typeGap c nullable r)) else unexpected (.symbol ']') t

def typeGapRule (ns : String) (d : Draft) (c : Constructor) (nullable : Bool) (r : Reference) :
    Rule := fun t =>
  if t.isWhitespace then
    .ok (.reading d (.argumentName c nullable true (r.resolve ns isScalarType)))
  else unexpected .whitespace t

def argumentNameRule (d : Draft) (c : Constructor) (nullable isList : Bool) (type : String) :
    Rule :=
  spaced d (.argumentName c nullable isList type) fun t =>
    match t.kind with
    | .var v =>
      .ok (.reading d (.argumentEnd
        { c with arguments := c.arguments ++ [⟨v, type, nullable, isList⟩] }))
    | _ => unexpected .variableName t

def argumentEndRule (d : Draft) (c : Constructor) : Rule :=
  spaced d (.argumentEnd c) fun t =>
    match t.kind with
    | .symbol '\x7d' => .ok (.reading (d.addConstructor c) .constructorEnd)
    | .symbol ',' => .ok (.reading d (.argumentStart c))
    | _ => unexpected .argumentEnd t

def derivingItemRule (d : Draft) : Rule :=
  spaced d .derivingItem fun t =>
    match t.kind with
    | .symbol ')' => .ok (.reading d .derivingEnd)
    | .word w => .ok (.reading (d.addDeriving w) (.derivingTail w))
    | _ => unexpected .identifier t

def derivingItemEndRule (d : Draft) : Rule :=
  spaced d .derivingItemEnd fun t =>
    match t.kind with
    | .symbol ',' => .ok (.reading d .derivingItem)
    | .symbol ')' => .ok (.reading d .derivingEnd)
    | _ => unexpected .itemEnd t

def derivingTailRule (d : Draft) (name : String) : Rule :=
  spaced d (.derivingTail name) fun t =>
    if t.isSymbol ':' && messageDerivings.contains name then .ok (.reading d .derivingMessage)
    else derivingItemEndRule d t

def derivingMessageRule (d : Draft) : Rule :=
  spaced d .derivingMessage fun t =>
    match t.kind with
    | .quoted message => .ok (.reading (d.setMessage message) .derivingItemEnd)
    | _ => unexpected .quotation t

def derivingEndRule (ns : String) (d : Draft) : Rule :=
  spaced d .derivingEnd fun t =>
    match t.kind with
    | .symbol ';' => finish ns d t
    | .word "with" => mappingStart d t
    | .word "where" => .ok (.reading d (.groupStart anyConstructor))
    | _ => unexpected .derivingEnd t

def mappingCaseRule (d : Draft) (values : List (String × Constant)) : Rule :=
  spaced d (.mappingCase values) fun t =>
    match t.kind with
    | .symbol ')' => .ok (.reading (d.setValues values) .mappingEnd)
    | .word w => .ok (.reading d (.mappingColon values w t.line))
    | _ => unexpected .identifier t

/-- The value of a case ends at a comma or a closing bracket that is not inside its own
brackets; then its tokens are evaluated. -/
def mappingValueRule (d : Draft) (values : List (String × Constant)) (case : String) (line : Nat)
    (span : List Token) (depth : Nat) : Rule :=
  spaced d (.mappingValue values case line span depth) fun t =>
    if depth = 0 ∧ (t.isSymbol ',' ∨ t.isSymbol ')') then
      match Constant.evaluate span with
      | .error cause => .error ⟨line, .invalidCase case cause⟩
      | .ok value =>
        let values := insertCase values case value
        if t.isSymbol ',' then .ok (.reading d (.mappingCase values))
        else .ok (.reading (d.setValues values) .mappingEnd)
    else if depth = 0 ∧ t.isSymbol ']' then unexpected .itemEnd t
    else
      let depth :=
        if t.isSymbol '(' ∨ t.isSymbol '[' then depth + 1
        else if t.isSymbol ')' ∨ t.isSymbol ']' then depth - 1
        else depth
      .ok (.reading d (.mappingValue values case line (span ++ [t]) depth))

def mappingEndRule (ns : String) (d : Draft) : Rule :=
  spaced d .mappingEnd fun t =>
    match t.kind with
    | .symbol ';' => finish ns d t
    | .word "where" => .ok (.reading d (.groupStart anyConstructor))
    | _ => unexpected .mappingEnd t

def groupStartRule (d : Draft) (scope : String) : Rule :=
  spaced d (.groupStart scope) fun t =>
    match t.kind with
    | .separator => .ok (.reading d (.scopeWord ⟨true, []⟩))
    | .word w => .ok (.reading d (.scopeTail ⟨false, [w]⟩))
    | .symbol '|' => .ok (.reading d (.guard scope [] 0))
    | _ => unexpected (.symbol '|') t

def scopeTailRule (ns : String) (d : Draft) (r : Reference) : Rule := fun t =>
  match t.kind with
  | .separator => .ok (.reading d (.scopeWord r))
  | _ =>
    let scope := r.resolve ns (· = anyConstructor)
    symbolRule d (.scopeColon scope) ':' (.guardOpen scope) t

def guardText (captured : List Token) : String :=
  Text.trim (String.join (captured.map (·.text)))

/--
A guard ends at an arrow where as many brackets have been closed as opened. The count has no bound;
a guard in which it would leave the range from -2 ^ 31 to 2 ^ 31 - 1 is outside the program.
-/
def guardRule (d : Draft) (scope : String) (captured : List Token) (depth : Int) : Rule := fun t =>
  if t.kind = .arrow ∧ depth = 0 then .ok (.reading d (.guardMessage scope (guardText captured)))
  else
    let depth :=
      if t.isSymbol '(' ∨ t.isSymbol '[' then depth + 1
      else if t.isSymbol ')' ∨ t.isSymbol ']' then depth - 1
      else depth
    .ok (.reading d (.guard scope (captured ++ [t]) depth))

def guardMessageRule (d : Draft) (scope expression : String) : Rule :=
  spaced d (.guardMessage scope expression) fun t =>
    match t.kind with
    | .quoted message =>
      .ok (.reading (d.addCondition ⟨scope, expression, message⟩) (.guardEnd scope))
    | _ => unexpected .quotation t

def guardEndRule (ns : String) (d : Draft) (scope : String) : Rule :=
  spaced d (.guardEnd scope) fun t =>
    match t.kind with
    | .symbol '|' => .ok (.reading d (.guard scope [] 0))
    | .separator => .ok (.reading d (.scopeWord ⟨true, []⟩))
    | .word w => .ok (.reading d (.scopeTail ⟨false, [w]⟩))
    | .symbol ';' => finish ns d t
    | _ => unexpected (.symbol ';') t

def Place.rule (ns : String) (d : Draft) : Place → Rule
  | .equals => symbolRule d .equals '=' .constructorStart
  | .constructorStart => constructorStartRule d
  | .constructorWord r => wordRule d fun w => .constructorTail (r.push w)
  | .constructorTail r => constructorTailRule ns d r
  | .constructorBracket name => constructorBracketRule d name
  | .constructorBody name => constructorBodyRule ns d name
  | .argumentStart c => argumentStartRule d c
  | .nullableType c => nullableTypeRule d c
  | .typeWord c nullable r => wordRule d fun w => .typeTail c nullable (r.push w)
  | .typeTail c nullable r => typeTailRule ns d c nullable r
  | .typeBracket c nullable r => typeBracketRule d c nullable r
  | .typeGap c nullable r => typeGapRule ns d c nullable r
  | .argumentName c nullable isList type => argumentNameRule d c nullable isList type
  | .argumentEnd c => argumentEndRule d c
  | .constructorEnd => constructorEndRule ns d
  | .derivingOpen => symbolRule d .derivingOpen '(' .derivingItem
  | .derivingItem => derivingItemRule d
  | .derivingTail name => derivingTailRule d name
  | .derivingMessage => derivingMessageRule d
  | .derivingItemEnd => derivingItemEndRule d
  | .derivingEnd => derivingEndRule ns d
  | .mappingOpen => symbolRule d .mappingOpen '(' (.mappingCase [])
  | .mappingCase values => mappingCaseRule d values
  | .mappingColon values case line =>
    symbolRule d (.mappingColon values case line) ':' (.mappingValue values case line [] 0)
  | .mappingValue values case line span depth => mappingValueRule d values case line span depth
  | .mappingEnd => mappingEndRule ns d
  | .groupStart scope => groupStartRule d scope
  | .scopeWord r => wordRule d fun w => .scopeTail (r.push w)
  | .scopeTail r => scopeTailRule ns d r
  | .scopeColon scope => symbolRule d (.scopeColon scope) ':' (.guardOpen scope)
  | .guardOpen scope => symbolRule d (.guardOpen scope) '|' (.guard scope [] 0)
  | .guard scope captured depth => guardRule d scope captured depth
  | .guardMessage scope expression => guardMessageRule d scope expression
  | .guardEnd scope => guardEndRule ns d scope

namespace Machine

def stepTopLevel (m : Machine) (t : Token) : Except Failure Machine :=
  match t.kind with
  | .whitespace => .ok m
  | .word "namespace" =>
    if m.inBlock then .error ⟨t.line, .nestedNamespaces⟩
    else .ok { m with state := .namespaceGap }
  | .word "data" => .ok { m with state := .nameGap t.line }
  | .word _ => .error ⟨t.line, .unknownDefinition t.text⟩
  | _ =>
    if m.inBlock && t.isSymbol '\x7d' then
      .ok { m with ns := "", inBlock := false, state := .topLevel }
    else unexpected .topLevel t

def stepNamespaceEnd (m : Machine) (words : List String) (t : Token) : Except Failure Machine :=
  match t.kind with
  | .whitespace => .ok { m with state := .namespaceEnd words }
  | .symbol '\x7b' =>
    .ok { m with ns := Reference.spelling words, inBlock := true, state := .topLevel }
  | .symbol ';' => .ok { m with ns := Reference.spelling words, state := .topLevel }
  | _ => unexpected .namespaceEnd t

def step (m : Machine) (t : Token) : Except Failure Machine :=
  match m.state with
  | .topLevel => m.stepTopLevel t
  | .namespaceGap =>
    if t.isWhitespace then .ok { m with state := .namespaceWord [] }
    else unexpected .whitespace t
  | .namespaceWord words =>
    match t.kind with
    | .word w => .ok { m with state := .namespaceTail (words ++ [w]) }
    | _ => unexpected .identifier t
  | .namespaceTail words =>
    if t.kind = .separator then .ok { m with state := .namespaceWord words }
    else m.stepNamespaceEnd words t
  | .namespaceEnd words => m.stepNamespaceEnd words t
  | .nameGap line =>
    if t.isWhitespace then .ok { m with state := .name line } else unexpected .whitespace t
  | .name line =>
    match t.kind with
    | .word w => .ok { m with state := .body { line := line, name := w } .equals }
    | _ => unexpected .identifier t
  | .body draft place =>
    match place.rule m.ns draft t with
    | .error e => .error e
    | .ok (.reading draft place) => .ok { m with state := .body draft place }
    | .ok (.declared definition) =>
      .ok { m with definitions := m.definitions ++ [definition], state := .topLevel }

def finish (m : Machine) (line : Nat) : Except Failure (List Definition) :=
  match m.state with
  | .topLevel =>
    if m.inBlock then .error ⟨line, .neverClosed m.ns⟩ else .ok m.definitions
  | _ => .error ⟨line, .unexpectedEnd⟩

end Machine

end Datatypes.Declaration
