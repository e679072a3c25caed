import Datatypes.Proofs.Declaration.Constructor
import Datatypes.Proofs.Declaration.Deriving
import Datatypes.Proofs.Declaration.Guard

/-!
Printing definitions and reading them back: whole declarations, the namespaces around them, and
any number of them one after the other.
-/

namespace Datatypes.Declaration

open Text Token

namespace Machine

attribute [local simp] Place.Moves Place.rule symbolRule wordRule spaced isWhitespace isSymbol
  Reference.push

variable {m : Machine} {ds : List Definition} {rest : List Char} {d : Draft}

def declare (m : Machine) (definition : Definition) : Machine :=
  { m with definitions := m.definitions ++ [definition], state := .topLevel }

theorem step_topLevel_of_whitespace (hm : m.state = .topLevel) (t : Token)
    (ht : t.kind = .whitespace) : m.step t = .ok m := by
  simp [step, stepTopLevel, hm, ht]

theorem Accepts.declared {p : Place} {definition : Definition}
    (hend : ∀ t : Token, t.kind = .symbol ';' → p.rule m.ns d t = Declaration.finish m.ns d t)
    (hparts : Definition.ofParts m.ns d.name d.constructors d.derivings d.conditions d.messageName =
      .ok definition)
    (h : (m.declare definition).Accepts rest ds) :
    (m.reading d p).Accepts (';' :: rest) ds := by
  refine .step (lexeme_symbol (by decide) rest) (by simp) (fun t ht => ?_) h
  simp only [Machine.step, reading, declare, hend t ht, Declaration.finish, hparts]

theorem Accepts.printConditions {p : Place} (hp : p.isSpaced = true)
    (hwhere : p.Moves m.ns d (.word "where") d (.groupStart anyConstructor))
    (hend : ∀ t : Token, t.kind = .symbol ';' → p.rule m.ns d t = Declaration.finish m.ns d t)
    {cs : List Condition} (hall : ∀ c ∈ cs, c.WellFormed ∧ c.Printable) {definition : Definition}
    (hparts : Definition.ofParts m.ns d.name d.constructors d.derivings (d.conditions ++ cs)
      d.messageName = .ok definition)
    (h : (m.declare definition).Accepts rest ds) :
    (m.reading d p).Accepts ((printConditions cs).toList ++ ';' :: rest) ds := by
  cases cs with
  | nil =>
    rw [List.append_nil] at hparts
    exact .declared hend hparts h
  | cons c cs =>
    have text : (Declaration.printConditions (c :: cs)).toList ++ ';' :: rest =
        ' ' :: ("where".toList ++
          ' ' :: ((" ".intercalate ((c :: cs).map printCondition)).toList ++ ';' :: rest)) := by
      simp [Declaration.printConditions]
    have group : OpensScope m.ns (.groupStart anyConstructor) := by
      simp +contextual [OpensScope, groupStartRule]
    rw [text]
    refine .skip hp (.word (by decide) (halts_cons.mpr (by decide)) hwhere (.skip rfl
      (.conditions group (by simp) hall fun scope => .declared ?_ hparts h)))
    simp +contextual [guardEndRule]

theorem Accepts.ending {definition : Definition} (hd : definition.Printable)
    (hns : m.ns = definition.ns) {line : Nat}
    (h : (m.declare definition).Accepts rest ds) :
    (m.reading ⟨line, definition.name, [definition.constructor], [.ofName definition.deriv.name],
        [], definition.messageName⟩ .derivingEnd).Accepts
      ((printValues definition.deriv).toList ++
        ((Declaration.printConditions definition.conditions).toList ++ ';' :: rest)) ds := by
  obtain ⟨ns, name, constructor, deriv, conditions, messageName⟩ := definition
  have shape := hd.deriv
  have guards : ∀ c ∈ conditions, c.WellFormed ∧ c.Printable := fun c hc =>
    ⟨hd.conditions c hc, hd.guards c hc⟩
  cases deriv with
  | named n =>
    have kind : Deriving.ofName n = .named n := if_neg shape.2
    refine .printConditions rfl ?_ ?_ guards ?_ h
    · simp +contextual [derivingEndRule]
    · simp +contextual [derivingEndRule]
    · simp [Definition.ofParts, Deriving.name, kind, hns]
  | enum values =>
    have kind : Deriving.ofName enumName = .enum [] := if_pos rfl
    have cases : ∀ v ∈ values, isWord v.1 = true ∧ v.2.Printable := fun v hv =>
      ⟨shape.2 v hv, hd.values values rfl v hv⟩
    refine .mapping ?_ cases shape.1 (.printConditions rfl ?_ ?_ guards ?_ h)
    · simp [Deriving.name, kind, Deriving.isEnum]
    · simp +contextual [mappingEndRule]
    · simp +contextual [mappingEndRule]
    · simp [Definition.ofParts, Draft.setValues, Deriving.name, kind, fillEnum, hns]

theorem halts_path {s : String} (h : IsPath s) (rest : List Char) :
    Halts isBlank (s.toList ++ rest) := by
  obtain ⟨words, hne, hall, rfl⟩ := h
  obtain ⟨w, words, rfl⟩ := List.exists_cons_of_ne_nil hne
  have hw := hall w (by simp)
  cases words with
  | nil => simpa [Reference.spelling] using halts_word hw rest
  | cons v words => simpa [Reference.spelling] using halts_word hw _

theorem Accepts.declarationName {w : String} (hw : isWord w = true) (hr : Halts isWordChar rest)
    (h : ∀ line, (m.reading { line := line, name := w } .equals).Accepts rest ds) :
    { m with state := .topLevel }.Accepts ("data".toList ++ ' ' :: (w.toList ++ rest)) ds := by
  have gap (line : Nat) (t : Token) (ht : t.kind = .whitespace) :
      { m with state := .nameGap line }.step t = .ok { m with state := .name line } := by
    simp [Machine.step, ht]
  have name (line : Nat) (t : Token) (ht : t.kind = .word w) :
      { m with state := .name line }.step t =
        .ok (m.reading { line := line, name := w } .equals) := by
    simp [Machine.step, reading, ht]
  refine .token (lexeme_word (by decide) (halts_cons.mpr (by decide))) (by simp) fun t ht _ =>
    ⟨{ m with state := .nameGap t.line }, by simp [Machine.step, stepTopLevel, ht], ?_⟩
  exact .step (lexeme_space (halts_word hw rest)) (by simp) (gap t.line)
    (.step (lexeme_word hw hr) (by simp) (name t.line) (h t.line))

theorem Accepts.body {definition : Definition} (hd : definition.Printable)
    (hns : m.ns = definition.ns)
    (h : (m.declare definition).Accepts rest ds) :
    { m with state := .topLevel }.Accepts ((printBody definition).toList ++ rest) ds := by
  have text : (printBody definition).toList ++ rest =
      "data".toList ++ ' ' :: (definition.name.toList ++ ' ' :: '=' :: ' ' ::
        ((printConstructor definition.constructor).toList ++
          ' ' :: ("deriving".toList ++ ' ' :: '(' :: (definition.deriv.name.toList ++
            ((printMessage definition.messageName).toList ++ ')' ::
              ((printValues definition.deriv).toList ++
                ((Declaration.printConditions definition.conditions).toList ++
                  ';' :: rest))))))) := by
    simp [printBody, printDeriving]
  rw [text]
  refine .declarationName hd.name (halts_cons.mpr (by decide)) fun line => .skip rfl ?_
  have equals : Place.equals.Moves m.ns { line := line, name := definition.name } (.symbol '=')
      { line := line, name := definition.name } .constructorStart := by
    simp +contextual
  refine .move (.symbol (by decide) rfl) (by simp) equals
    (.skip rfl (.constructor hd.constructor ?_))
  exact .derivingClause (Deriving.isWord_name hd.deriv) hd.messageName hd.message rfl
    (.ending hd hns h)

theorem Accepts.namespaceBlock {ns : String} (hns : IsPath ns) (hm : m.inBlock = false)
    (h : Accepts ⟨ns, true, m.definitions, .topLevel⟩ rest ds) :
    { m with state := .topLevel }.Accepts
      ("namespace".toList ++ ' ' :: (ns.toList ++ ' ' :: '\x7b' :: rest)) ds := by
  have space := lexeme_space (halts_path hns (' ' :: '\x7b' :: rest))
  obtain ⟨words, hne, hall, rfl⟩ := hns
  have keyword (t : Token) (ht : t.kind = .word "namespace") :
      { m with state := .topLevel }.step t = .ok { m with state := .namespaceGap } := by
    simp [Machine.step, stepTopLevel, ht, hm]
  have gap (t : Token) (ht : t.kind = .whitespace) :
      { m with state := .namespaceGap }.step t = .ok { m with state := .namespaceWord [] } := by
    simp [Machine.step, ht]
  have tail (t : Token) (ht : t.kind = .whitespace) :
      { m with state := .namespaceTail words }.step t =
        .ok { m with state := .namespaceEnd words } := by
    simp [Machine.step, stepNamespaceEnd, ht]
  have stay (t : Token) (ht : t.kind = .whitespace) :
      { m with state := .namespaceEnd words }.step t =
        .ok { m with state := .namespaceEnd words } := by
    simp [Machine.step, stepNamespaceEnd, ht]
  have opening (t : Token) (ht : t.kind = .symbol '\x7b') :
      { m with state := .namespaceEnd words }.step t =
        .ok ⟨Reference.spelling words, true, m.definitions, .topLevel⟩ := by
    simp [Machine.step, stepNamespaceEnd, ht]
  refine .step (lexeme_word (by decide) (halts_cons.mpr (by decide))) (by simp) keyword
    (.step space (by simp) gap (.path .namespaceWord .namespaceTail ?_ ?_ hne hall
      (halts_cons.mpr (by decide)) [] (.space tail stay
        (.step (lexeme_symbol (by decide) rest) (by simp) opening h))))
  · intro ws w t ht
    simp [Machine.step, ht]
  · intro ws t ht
    simp [Machine.step, ht]

theorem Accepts.definition {definition : Definition} (hd : definition.Printable)
    {before : List Definition}
    (h : Accepts { definitions := before ++ [definition] } rest ds) :
    Accepts { definitions := before } ((printDefinition definition).toList ++ rest) ds := by
  rcases hd.ns with global | path
  · rw [printDefinition, if_pos global]
    exact Accepts.body (m := { definitions := before }) hd global.symm h
  · have text : (printDefinition definition).toList ++ rest =
        "namespace".toList ++ ' ' :: (definition.ns.toList ++ ' ' :: '\x7b' :: ' ' ::
          ((printBody definition).toList ++ ' ' :: '\x7d' :: rest)) := by
      simp [printDefinition, path.ne_empty]
    have closing (t : Token) (ht : t.kind = .symbol '\x7d') :
        (⟨definition.ns, true, before ++ [definition], .topLevel⟩ : Machine).step t =
          .ok { definitions := before ++ [definition] } := by
      simp [Machine.step, stepTopLevel, ht]
    have after : Accepts ⟨definition.ns, true, before ++ [definition], .topLevel⟩
        (' ' :: '\x7d' :: rest) ds :=
      .space (step_topLevel_of_whitespace rfl) (step_topLevel_of_whitespace rfl)
        (.step (lexeme_symbol (by decide) rest) (by simp) closing h)
    have inside : Accepts ⟨definition.ns, true, before, .topLevel⟩
        (' ' :: ((printBody definition).toList ++ ' ' :: '\x7d' :: rest)) ds :=
      .space (step_topLevel_of_whitespace rfl) (step_topLevel_of_whitespace rfl)
        (Accepts.body (m := ⟨definition.ns, true, before, .topLevel⟩) hd rfl after)
    rw [text]
    exact Accepts.namespaceBlock (m := { definitions := before }) path rfl inside

theorem halts_print (ds : List Definition) : Halts isBlank (print ds).toList := by
  cases ds with
  | nil => exact halts_nil _
  | cons d ds =>
    have data : isBlank 'd' = false := by decide
    have block : isBlank 'n' = false := by decide
    rw [print, List.map_cons, String.join_cons, printDefinition]
    split <;> simp [printBody, halts_cons, data, block]

theorem accepts_print {definitions : List Definition} (h : ∀ d ∈ definitions, d.Printable)
    (before : List Definition) :
    Accepts { definitions := before } (print definitions).toList (before ++ definitions) := by
  -- What has been read before is part of the machine, so the induction runs over the rest.
  induction definitions generalizing before with
  | nil =>
    rw [List.append_nil]
    exact accepts_nil (m := { definitions := before }) rfl rfl
  | cons d definitions ih =>
    have text : (print (d :: definitions)).toList =
        (printDefinition d).toList ++ (['\n'] ++ (print definitions).toList) := by
      simp [print]
    have further := ih (fun x hx => h x (by simp [hx])) (before ++ [d])
    have newline : Lexeme .whitespace ['\n'] (print definitions).toList :=
      .whitespace (by simp [isBlank]) (halts_print definitions)
    rw [text]
    exact .definition (h d (by simp)) (.step newline (by simp) (step_topLevel_of_whitespace rfl)
      (by simpa using further))

end Machine

theorem parse_print (file : String) (definitions : List Definition)
    (h : ∀ d ∈ definitions, d.Printable) :
    parse file (print definitions) = .ok ⟨file, definitions⟩ :=
  Machine.parse_of_accepts (Machine.accepts_print h []) file

def sealedState : Definition where
  ns := "Shop\\Order"
  name := "State"
  constructor := ⟨"Int[]", []⟩
  deriv := .enum
    [("Open", .int (-9223372036854775808)), ("Shut", .int (-7)), ("Lost", .text "\\\"")]
  conditions := []
  messageName := none

def placeOrder : Definition where
  ns := ""
  name := "PlaceOrder"
  constructor := ⟨"PlaceOrder",
    [⟨"items", "Shop\\Item", true, true⟩, ⟨"note", "string", false, false⟩, .untyped "data"]⟩
  deriv := .named "Command"
  conditions := [⟨"_", "f([1 => 2])", "no items"⟩, ⟨"Shop\\Item", "", ""⟩]
  messageName := some "place-order"

theorem isPath_shopItem : IsPath "Shop\\Item" := ⟨["Shop", "Item"], by decide, by decide, rfl⟩

theorem sealedState_printable : sealedState.Printable where
  ns := .inr ⟨["Shop", "Order"], by decide, by decide, rfl⟩
  name := by decide
  constructor := ⟨.inl (by decide), by simp [sealedState]⟩
  deriv := ⟨by decide, by decide⟩
  conditions := by simp [sealedState]
  messageName := by simp [sealedState]
  values := by
    rintro values hv v hmem
    cases hv
    simp only [List.mem_cons, List.not_mem_nil, or_false] at hmem
    rcases hmem with rfl | rfl | rfl
    · exact (by decide : Constant.InRange (-9223372036854775808))
    · exact (by decide : Constant.InRange (-7))
    · exact .escaped .nil
  guards := by simp [sealedState]
  message := by simp [sealedState]

def bracketedArrow : List Token :=
  [⟨.word "f", "f", 0⟩, ⟨.symbol '(', "(", 0⟩, ⟨.symbol '[', "[", 0⟩, ⟨.int 1, "1", 0⟩,
    ⟨.whitespace, " ", 0⟩, ⟨.arrow, "=>", 0⟩, ⟨.whitespace, " ", 0⟩, ⟨.int 2, "2", 0⟩,
    ⟨.symbol ']', "]", 0⟩, ⟨.symbol ')', ")", 0⟩]

theorem guardText_bracketedArrow : GuardText "f([1 => 2])" bracketedArrow where
  lex := by decide +kernel
  noComment := by decide
  balanced := by decide
  arrows := by
    intro before t after heq hk
    have table : ∀ i < bracketedArrow.length, bracketedArrow[i]?.map (·.kind) = some .arrow →
        balance (bracketedArrow.take i) ≠ 0 := by decide
    have bound : before.length < bracketedArrow.length := by simp [heq]
    have found : bracketedArrow[before.length]?.map (·.kind) = some .arrow := by simp [heq, hk]
    have taken : bracketedArrow.take before.length = before := by simp [heq]
    rw [← taken]
    exact table before.length bound found

theorem guardText_empty : GuardText "" [] where
  lex := by decide +kernel
  noComment := by simp
  balanced := by decide
  arrows := by simp

theorem placeOrder_printable : placeOrder.Printable where
  ns := .inl rfl
  name := by decide
  constructor :=
    { name := .inr (isPath_of_isWord (by decide))
      arguments := by
        simp only [placeOrder, List.mem_cons, List.not_mem_nil, or_false, forall_eq_or_imp,
          forall_eq]
        exact ⟨⟨by decide, .inr isPath_shopItem⟩, ⟨by decide, .inr (isPath_of_isWord (by decide))⟩,
          ⟨by decide, .inl rfl⟩⟩ }
  deriv := ⟨by decide, by decide⟩
  conditions := by
    simp only [placeOrder, List.mem_cons, List.not_mem_nil, or_false, forall_eq_or_imp, forall_eq]
    exact ⟨⟨isPath_of_isWord (by decide), by decide⟩, ⟨isPath_shopItem, by decide⟩⟩
  messageName := fun _ => by decide
  values := by simp [placeOrder]
  guards := by
    simp only [placeOrder, List.mem_cons, List.not_mem_nil, or_false, forall_eq_or_imp, forall_eq]
    exact ⟨⟨⟨_, guardText_bracketedArrow⟩, quotable_of_plain (by simp)⟩,
      ⟨⟨_, guardText_empty⟩, .nil⟩⟩
  message := by
    simp only [placeOrder, Option.mem_some_iff, forall_eq']
    exact quotable_of_plain (by simp)

theorem parse_print_shop :
    (∀ d ∈ [sealedState, placeOrder], d.Printable) ∧
      parse "shop.dt" (print [sealedState, placeOrder]) =
        .ok ⟨"shop.dt", [sealedState, placeOrder]⟩ := by
  have printable : ∀ d ∈ [sealedState, placeOrder], d.Printable := by
    simp only [List.mem_cons, List.not_mem_nil, or_false, forall_eq_or_imp, forall_eq]
    exact ⟨sealedState_printable, placeOrder_printable⟩
  exact ⟨printable, parse_print "shop.dt" [sealedState, placeOrder] printable⟩

end Datatypes.Declaration
