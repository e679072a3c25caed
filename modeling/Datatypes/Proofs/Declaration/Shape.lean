import Datatypes.Proofs.Declaration.Deriving
import Datatypes.Proofs.Declaration.Outcome
import Datatypes.Proofs.Declaration.Run

/-!
What is read from a source is well formed. The pieces of a declaration are so from the moment
they are read, every place knows what has been read before it, and each move keeps both.
-/

namespace Datatypes

namespace Text

def Trimmed (s : String) : Prop :=
  (∀ c ∈ s.toList.head?, isBlank c = false) ∧ ∀ c ∈ s.toList.getLast?, isBlank c = false

theorem trimmed_of_trim_eq_self {s : String} (h : trim s = s) : Trimmed s := by
  obtain ⟨front, back⟩ := halts_of_strip_eq_self h
  refine ⟨front, ?_⟩
  rwa [Halts, List.head?_reverse] at back

end Text

namespace Token

def Spelled (t : Token) : Prop :=
  ∀ w, t.kind = .word w ∨ t.kind = .var w → Text.isWord w = true

theorem isWord_ofList {c : Char} {cs : List Char} (hc : Text.isWordStart c = true)
    (h : ∀ x ∈ cs, Text.isWordChar x = true) : Text.isWord (String.ofList (c :: cs)) = true := by
  simpa [Text.isWord, hc] using h

theorem ofDigits_ne_name (digits : List Char) (w : String) :
    ofDigits digits ≠ .word w ∧ ofDigits digits ≠ .var w := by
  rw [ofDigits]
  split <;> simp

theorem Lexeme.isWord_of_name {kind : TokenKind} {text rest : List Char}
    (h : Lexeme kind text rest) {w : String} (hk : kind = .word w ∨ kind = .var w) :
    Text.isWord w = true := by
  cases h with
  | word hc hcs _ =>
    obtain hk | hk := hk <;> cases hk
    exact isWord_ofList hc hcs
  | var hc hcs _ =>
    obtain hk | hk := hk <;> cases hk
    exact isWord_ofList hc hcs
  | integer _ _ _ =>
    have := ofDigits_ne_name
    simp_all
  | _ => simp at hk

theorem Lexes.spelled {line : Nat} {cs : List Char} {tokens : List Token}
    (h : Lexes line cs tokens) : ∀ t ∈ tokens, t.Spelled := by
  induction h with
  | nil => simp
  | cons h _ ih =>
    intro t ht
    rcases List.mem_cons.mp ht with rfl | ht
    · exact fun w hk => h.isWord_of_name hk
    · exact ih t ht

end Token

theorem qualify_isPath {ns name : String} (hns : ns = "" ∨ IsPath ns) (hname : IsPath name) :
    IsPath (qualify ns name) := by
  rw [qualify]
  split
  · exact hname
  · next hne =>
    obtain ⟨words, hw, hwords, rfl⟩ := hns.resolve_left hne
    obtain ⟨more, hm, hmore, rfl⟩ := hname
    refine ⟨words ++ more, by simp [hw], ?_, ?_⟩
    · intro w hmem
      rcases List.mem_append.mp hmem with h | h
      · exact hwords w h
      · exact hmore w h
    · rw [Declaration.Reference.spelling, Declaration.Reference.spelling,
        Declaration.Reference.spelling, String.intercalate_append_of_ne_nil hw hm]

namespace Declaration

open Text (isWord)

def Reference.Worded (r : Reference) : Prop := ∀ w ∈ r.words, isWord w = true

theorem Reference.Worded.push {r : Reference} (h : r.Worded) {w : String}
    (hw : isWord w = true) : (r.push w).Worded ∧ (r.push w).words ≠ [] := by
  refine ⟨?_, by simp [Reference.push]⟩
  intro v hv
  rcases List.mem_append.mp hv with hv | hv
  · exact h v hv
  · rwa [List.mem_singleton.mp hv]

theorem Reference.worded_nil {absolute : Bool} : (Reference.mk absolute []).Worded := by
  simp [Reference.Worded]

theorem Reference.worded_singleton {absolute : Bool} {w : String} (hw : isWord w = true) :
    (Reference.mk absolute [w]).Worded ∧ (Reference.mk absolute [w]).words ≠ [] :=
  ⟨by simpa [Reference.Worded] using hw, by simp⟩

theorem Reference.resolve_isPath {r : Reference} (h : r.Worded) (hne : r.words ≠ []) {ns : String}
    (hns : ns = "" ∨ IsPath ns) (bare : String → Bool) : IsPath (r.resolve ns bare) := by
  have name : IsPath r.name := ⟨r.words, hne, h, rfl⟩
  rw [Reference.resolve]
  split
  · exact name
  · exact qualify_isPath hns name

section Values

variable {values : List (String × Constant)}

theorem mem_insertCase {case : String} {value : Constant} {v : String × Constant}
    (h : v ∈ insertCase values case value) : v.1 = case ∨ v ∈ values := by
  induction values with
  | nil =>
    rw [insertCase, List.mem_singleton] at h
    exact .inl (by rw [h])
  | cons x values ih =>
    rw [insertCase] at h
    split at h
    · next hx =>
      rcases List.mem_cons.mp h with rfl | h
      · exact .inl hx
      · exact .inr (List.mem_cons_of_mem _ h)
    · rcases List.mem_cons.mp h with rfl | h
      · exact .inr List.mem_cons_self
      · exact (ih h).imp_right (List.mem_cons_of_mem _)

theorem nodup_insertCase (case : String) (value : Constant) (h : (values.map Prod.fst).Nodup) :
    ((insertCase values case value).map Prod.fst).Nodup := by
  induction values with
  | nil => simp [insertCase]
  | cons x values ih =>
    obtain ⟨hx, hvalues⟩ := List.nodup_cons.mp h
    rw [insertCase]
    split
    · exact h
    · next hne =>
      refine List.nodup_cons.mpr ⟨?_, ih hvalues⟩
      intro hmem
      obtain ⟨v, hv, hvx⟩ := List.mem_map.mp hmem
      rcases mem_insertCase hv with hcase | hv
      · exact hne (hvx.symm.trans hcase)
      · exact hx (List.mem_map.mpr ⟨v, hv, hvx⟩)

theorem insertCase_wellFormed {case : String} (hc : isWord case = true) (value : Constant)
    (h : (Deriving.enum values).WellFormed) :
    (Deriving.enum (insertCase values case value)).WellFormed := by
  refine ⟨nodup_insertCase case value h.1, ?_⟩
  intro v hv
  rcases mem_insertCase hv with hcase | hv
  · rwa [hcase]
  · exact h.2 v hv

theorem mem_fillEnum {x : Deriving} {derivings : List Deriving}
    (h : x ∈ fillEnum values derivings) : x = .enum values ∨ x ∈ derivings := by
  induction derivings with
  | nil => cases h
  | cons y derivings ih =>
    cases y with
    | enum old =>
      rcases List.mem_cons.mp h with rfl | h
      · exact .inl rfl
      · exact .inr (List.mem_cons_of_mem _ h)
    | named name =>
      rcases List.mem_cons.mp h with rfl | h
      · exact .inr List.mem_cons_self
      · exact (ih h).imp_right (List.mem_cons_of_mem _)

theorem map_name_fillEnum (derivings : List Deriving) :
    (fillEnum values derivings).map (·.name) = derivings.map (·.name) := by
  induction derivings with
  | nil => rfl
  | cons y derivings ih =>
    cases y with
    | enum old => rfl
    | named name => rw [fillEnum, List.map_cons, List.map_cons, ih]

end Values

theorem ofName_wellFormed {w : String} (hw : isWord w = true) :
    (Deriving.ofName w).WellFormed ∧ (Deriving.ofName w).name = w := by
  rw [Deriving.ofName]
  split
  · next h => exact ⟨⟨by simp, by simp⟩, h.symm⟩
  · next h => exact ⟨⟨hw, h⟩, rfl⟩

theorem mem_addDeriving {d : Draft} {w : String} (hw : isWord w = true) :
    w ∈ (d.addDeriving w).derivings.map (·.name) := by
  simp [Draft.addDeriving, (ofName_wellFormed hw).2]

structure Draft.WellFormed (d : Draft) : Prop where
  name : isWord d.name = true
  constructors : ∀ c ∈ d.constructors, c.WellFormed
  derivings : ∀ x ∈ d.derivings, x.WellFormed
  conditions : ∀ c ∈ d.conditions, c.WellFormed
  messageName : d.messageName ≠ none → ∃ name ∈ d.derivings.map (·.name), name ∈ messageDerivings

namespace Draft.WellFormed

variable {d : Draft}

theorem addConstructor (h : d.WellFormed) {c : Constructor} (hc : c.WellFormed) :
    (d.addConstructor c).WellFormed where
  name := h.name
  constructors := by
    intro x hx
    rcases List.mem_append.mp hx with hx | hx
    · exact h.constructors x hx
    · rwa [List.mem_singleton.mp hx]
  derivings := h.derivings
  conditions := h.conditions
  messageName := h.messageName

theorem addDeriving (h : d.WellFormed) {w : String} (hw : isWord w = true) :
    (d.addDeriving w).WellFormed where
  name := h.name
  constructors := h.constructors
  derivings := by
    intro x hx
    rcases List.mem_append.mp hx with hx | hx
    · exact h.derivings x hx
    · rw [List.mem_singleton.mp hx]
      exact (ofName_wellFormed hw).1
  conditions := h.conditions
  messageName := by
    intro hm
    obtain ⟨name, hname, hcarries⟩ := h.messageName hm
    refine ⟨name, ?_, hcarries⟩
    rw [Draft.addDeriving, List.map_append]
    exact List.mem_append_left _ hname

theorem addCondition (h : d.WellFormed) {c : Condition} (hc : c.WellFormed) :
    (d.addCondition c).WellFormed where
  name := h.name
  constructors := h.constructors
  derivings := h.derivings
  conditions := by
    intro x hx
    rcases List.mem_append.mp hx with hx | hx
    · exact h.conditions x hx
    · rwa [List.mem_singleton.mp hx]
  messageName := h.messageName

theorem setMessage (h : d.WellFormed)
    (hd : ∃ name ∈ d.derivings.map (·.name), name ∈ messageDerivings) (message : String) :
    (d.setMessage message).WellFormed where
  name := h.name
  constructors := h.constructors
  derivings := h.derivings
  conditions := h.conditions
  messageName := fun _ => hd

theorem setValues (h : d.WellFormed) {values : List (String × Constant)}
    (hv : (Deriving.enum values).WellFormed) : (d.setValues values).WellFormed where
  name := h.name
  constructors := h.constructors
  derivings := by
    intro x hx
    rcases mem_fillEnum hx with rfl | hx
    · exact hv
    · exact h.derivings x hx
  conditions := h.conditions
  messageName := by
    rw [Draft.setValues, map_name_fillEnum]
    exact h.messageName

theorem ofParts (h : d.WellFormed) {ns : String} (hns : ns = "" ∨ IsPath ns)
    {definition : Definition}
    (hd : Definition.ofParts ns d.name d.constructors d.derivings d.conditions d.messageName =
      .ok definition) : definition.WellFormed := by
  rw [Definition.ofParts.eq_def] at hd
  split at hd
  · cases hd
  · cases hd
  · cases hd
  · cases hd
  · next _ _ c x hcs hxs =>
    cases hd
    refine ⟨hns, h.name, h.constructors c (by simp [hcs]), h.derivings x (by simp [hxs]),
      h.conditions, ?_⟩
    intro hm
    obtain ⟨name, hname, hcarries⟩ := h.messageName hm
    have : name = x.name := by simpa [hxs] using hname
    rwa [← this]

end Draft.WellFormed

def Place.WellFormed (d : Draft) : Place → Prop
  | .constructorWord r | .scopeWord r => r.Worded
  | .constructorTail r | .scopeTail r => r.Worded ∧ r.words ≠ []
  | .constructorBracket name => name ∈ scalarConstructors
  | .constructorBody name => isScalarConstructor name = true ∨ IsPath name
  | .argumentStart c | .nullableType c | .argumentEnd c => c.WellFormed
  | .typeWord c _ r => c.WellFormed ∧ r.Worded
  | .typeTail c _ r | .typeBracket c _ r | .typeGap c _ r =>
    c.WellFormed ∧ r.Worded ∧ r.words ≠ []
  | .argumentName c _ _ type => c.WellFormed ∧ IsPath type
  | .derivingTail name => name ∈ d.derivings.map (·.name)
  | .derivingMessage => ∃ name ∈ d.derivings.map (·.name), name ∈ messageDerivings
  | .mappingCase values => (Deriving.enum values).WellFormed
  | .mappingColon values case _ | .mappingValue values case _ _ _ =>
    (Deriving.enum values).WellFormed ∧ isWord case = true
  | .groupStart scope | .scopeColon scope | .guardOpen scope | .guard scope _ _
  | .guardEnd scope => IsPath scope
  | .guardMessage scope expression => IsPath scope ∧ Text.trim expression = expression
  | _ => True

def Sound : Except Failure Progress → Prop
  | .ok (.reading d p) => d.WellFormed ∧ p.WellFormed d
  | .ok (.declared definition) => definition.WellFormed
  | .error _ => True

theorem addArgument_wellFormed {c : Constructor} (hc : c.WellFormed) {a : Argument}
    (ha : a.WellFormed) :
    Constructor.WellFormed { c with arguments := c.arguments ++ [a] } := by
  refine ⟨hc.name, ?_⟩
  intro x hx
  rcases List.mem_append.mp hx with hx | hx
  · exact hc.arguments x hx
  · rwa [List.mem_singleton.mp hx]

theorem isScalarConstructor_list {name : String} (h : name ∈ scalarConstructors) :
    isScalarConstructor (name ++ "[]") = true := by
  simp only [isScalarConstructor, Bool.or_eq_true, List.contains_iff_mem]
  exact .inr (List.mem_map_of_mem h)

theorem isPath_anyConstructor : IsPath anyConstructor := isPath_of_isWord (by decide)

theorem Outcome.sound {ns : String} {t : Token} {d : Draft} {p : Place}
    {o : Except Failure Progress} (h : Outcome ns t d p o) (hns : ns = "" ∨ IsPath ns)
    (ht : t.Spelled) (hd : d.WellFormed) (hp : p.WellFormed d) : Sound o := by
  have word {w : String} (hk : t.kind = .word w) : isWord w = true := ht w (.inl hk)
  have var {v : String} (hk : t.kind = .var v) : isWord v = true := ht v (.inr hk)
  induction h with
  | unexpected | invalid | invalidCase => trivial
  | declared _ hparts => exact hd.ofParts hns hparts
  -- The token is handed on with what the place knows.
  | constructorNamed _ ih => exact ih hd (.inr (Reference.resolve_isPath hp.1 hp.2 hns _))
  | noArguments _ ih => exact ih (hd.addConstructor ⟨hp, by simp⟩) trivial
  | derivingBare _ ih => exact ih hd trivial
  | scopeNamed _ ih => exact ih hd (Reference.resolve_isPath hp.1 hp.2 hns _)
  -- Places that know nothing, and places that know what the one before them knew.
  | equals | alternative | derivings | derivingOpen | derivingsEnd | derivingNext
  | derivingItemEnd | mapping => exact ⟨hd, trivial⟩
  | space | nullable | typeList | typeBracket | argumentNext | mappingColon | mappingToken
  | groupBar | scopeColon | guardOpen | guardToken | guardNext => exact ⟨hd, hp⟩
  | constructorSeparator | groupSeparator | nextGroupSeparator =>
    exact ⟨hd, Reference.worded_nil⟩
  | constructorFirst hk | groupFirst hk | nextGroupFirst hk =>
    exact ⟨hd, Reference.worded_singleton (word hk)⟩
  | constructorWord hk | scopeWord hk => exact ⟨hd, hp.push (word hk)⟩
  | constructorTail | scopeTail => exact ⟨hd, hp.1⟩
  | constructorList _ hs => exact ⟨hd, hs⟩
  | constructorBracket => exact ⟨hd, .inl (isScalarConstructor_list hp)⟩
  | arguments => exact ⟨hd, hp, by simp⟩
  | argumentsEnd | argumentEnd => exact ⟨hd.addConstructor hp, trivial⟩
  | untyped hk => exact ⟨hd, addArgument_wellFormed hp ⟨var hk, .inl rfl⟩⟩
  | typeSeparator | nullableSeparator => exact ⟨hd, hp, Reference.worded_nil⟩
  | typeFirst hk | nullableFirst hk => exact ⟨hd, hp, Reference.worded_singleton (word hk)⟩
  | typeWord hk => exact ⟨hd, hp.1, hp.2.push (word hk)⟩
  | typeTail => exact ⟨hd, hp.1, hp.2.1⟩
  | typeEnd | typeGap => exact ⟨hd, hp.1, Reference.resolve_isPath hp.2.1 hp.2.2 hns _⟩
  | argumentName hk => exact ⟨hd, addArgument_wellFormed hp.1 ⟨var hk, .inr hp.2⟩⟩
  | derivingName hk => exact ⟨hd.addDeriving (word hk), mem_addDeriving (word hk)⟩
  | derivingColon _ hcarries => exact ⟨hd, _, hp, hcarries⟩
  | derivingMessage => exact ⟨hd.setMessage hp _, trivial⟩
  | mappingOpen => exact ⟨hd, by simp, by simp⟩
  | mappingsEnd => exact ⟨hd.setValues hp, trivial⟩
  | mappingCase hk => exact ⟨hd, hp, word hk⟩
  | mappingNext => exact ⟨hd, insertCase_wellFormed hp.2 _ hp.1⟩
  | mappingLast => exact ⟨hd.setValues (insertCase_wellFormed hp.2 _ hp.1), trivial⟩
  | conditions => exact ⟨hd, isPath_anyConstructor⟩
  | guardArrow => exact ⟨hd, hp, Text.strip_strip _ _⟩
  | guardMessage => exact ⟨hd.addCondition ⟨hp.1, hp.2⟩, hp.1⟩

def State.WellFormed : State → Prop
  | .namespaceWord words => ∀ w ∈ words, isWord w = true
  | .namespaceTail words | .namespaceEnd words => words ≠ [] ∧ ∀ w ∈ words, isWord w = true
  | .body d p => d.WellFormed ∧ p.WellFormed d
  | _ => True

structure Machine.WellFormed (m : Machine) : Prop where
  ns : m.ns = "" ∨ IsPath m.ns
  definitions : ∀ d ∈ m.definitions, d.WellFormed
  state : m.state.WellFormed

namespace Machine

variable {m m' : Machine} {t : Token}

theorem WellFormed.words {words : List String} (hm : m.WellFormed)
    (hs : m.state = .namespaceTail words ∨ m.state = .namespaceEnd words) :
    words ≠ [] ∧ ∀ w ∈ words, isWord w = true := by
  have known := hm.state
  rcases hs with hs | hs
  · rwa [hs] at known
  · rwa [hs] at known

theorem WellFormed.step (hm : m.WellFormed) (ht : t.Spelled) (h : m.step t = .ok m') :
    m'.WellFormed := by
  have known := hm.state
  cases outcome_of_step h with
  | space => exact hm
  | blockEnd => exact ⟨.inl rfl, hm.definitions, trivial⟩
  | nameSpace | data | nameGap => exact ⟨hm.ns, hm.definitions, trivial⟩
  | namespaceGap => exact ⟨hm.ns, hm.definitions, by simp [State.WellFormed]⟩
  | namespaceWord hs hk =>
    rw [hs] at known
    have pushed := Reference.Worded.push (r := ⟨true, _⟩) known (ht _ (.inl hk))
    exact ⟨hm.ns, hm.definitions, pushed.symm⟩
  | namespaceTail hs =>
    rw [hs] at known
    exact ⟨hm.ns, hm.definitions, known.2⟩
  | namespaceSpace hs => exact ⟨hm.ns, hm.definitions, hm.words hs⟩
  | namespaceBlock hs | namespaceEnd hs =>
    have words := hm.words hs
    exact ⟨.inr ⟨_, words.1, words.2, rfl⟩, hm.definitions, trivial⟩
  | name hs hk =>
    refine ⟨hm.ns, hm.definitions, ⟨ht _ (.inl hk), ?_, ?_, ?_, ?_⟩, trivial⟩
    all_goals simp
  | reading hs move =>
    rw [hs] at known
    exact ⟨hm.ns, hm.definitions, move.sound hm.ns ht known.1 known.2⟩
  | declared hs move =>
    rw [hs] at known
    refine ⟨hm.ns, ?_, trivial⟩
    intro d hd
    rcases List.mem_append.mp hd with hd | hd
    · exact hm.definitions d hd
    · rw [List.mem_singleton.mp hd]
      exact move.sound hm.ns ht known.1 known.2

theorem finish_eq_ok {line : Nat} {ds : List Definition} (h : m.finish line = .ok ds) :
    m.state = .topLevel ∧ m.inBlock = false ∧ ds = m.definitions := by
  rw [finish] at h
  split at h
  · next hs =>
    split at h
    · cases h
    · next hb =>
      cases h
      exact ⟨hs, by simpa using hb, rfl⟩
  · cases h

theorem wellFormed_of_steps {ts : List Token} (hts : ∀ t ∈ ts, t.Spelled)
    (h : steps {} (significant ts) = .ok m) : m.WellFormed := by
  have start : WellFormed {} := ⟨.inl rfl, by simp, trivial⟩
  exact steps_invariant (fun _ _ _ hm ht hs => hm.step ht hs) start
    (fun t ht => hts t (List.mem_of_mem_filter ht)) h

end Machine

theorem steps_of_parseStream {file : String} {ts : List Token} {c : Collection}
    (h : parseStream (.ofTokens file ts) = .ok c) :
    ∃ m, Machine.steps {} (significant ts) = .ok m ∧ m.state = .topLevel ∧ m.inBlock = false ∧
      c = ⟨file, m.definitions⟩ := by
  rw [parseStream_eq] at h
  split at h
  · cases h
  · next m hm =>
    split at h
    · cases h
    · next ds hds =>
      cases h
      obtain ⟨top, outside, rfl⟩ := Machine.finish_eq_ok hds
      exact ⟨m, hm, top, outside, rfl⟩

theorem steps_of_parse {file source : String} {c : Collection} (h : parse file source = .ok c) :
    ∃ ts m, Token.Lexes 0 source.toList ts ∧ Machine.steps {} (significant ts) = .ok m ∧
      m.state = .topLevel ∧ m.inBlock = false ∧ c = ⟨file, m.definitions⟩ := by
  rw [parse, TokenStream.ofSource, TokenStream.tokens] at h
  cases hl : Token.lex source with
  | error e => simp [hl, Except.mapError, Except.map] at h
  | ok ts =>
    simp only [hl, Except.mapError, Except.map] at h
    obtain ⟨m, rest⟩ := steps_of_parseStream h
    exact ⟨ts, m, Token.lexFrom_eq_ok_iff.mp hl, rest⟩

theorem wellFormed_of_parse {file source : String} {c : Collection}
    (h : parse file source = .ok c) : ∀ d ∈ c.definitions, d.WellFormed := by
  obtain ⟨ts, m, hl, hm, -, -, rfl⟩ := steps_of_parse h
  exact (Machine.wellFormed_of_steps hl.spelled hm).definitions

/-- Whatever is read is well formed, and no guard starts or ends with white space. -/
theorem parse_wellFormed {file source : String} {c : Collection} (h : parse file source = .ok c) :
    ∀ d ∈ c.definitions, d.WellFormed ∧ ∀ x ∈ d.conditions, Text.Trimmed x.expression := by
  intro d hd
  have shape := wellFormed_of_parse h d hd
  exact ⟨shape, fun x hx => Text.trimmed_of_trim_eq_self (shape.conditions x hx).expression⟩

def orderSource : String :=
  "namespace Shop\\Order;\n" ++
  "data Place = Place \x7b ?\\Shop\\Item[] $items, string $note, $raw \x7d\n" ++
  "  deriving (Command: \"place-order\") where Place: | count($items) > 0  => \"no items\";\n" ++
  "data State = Int deriving (Enum) with (Open: 1 + 2, Shut: \"x\", Open: 5);"

def orderCollection : Collection :=
  ⟨"order.datatypes",
    [⟨"Shop\\Order", "Place",
        ⟨"Shop\\Order\\Place",
          [⟨"items", "Shop\\Item", true, true⟩, ⟨"note", "string", false, false⟩, .untyped "raw"]⟩,
        .named "Command", [⟨"Shop\\Order\\Place", "count($items) > 0", "no items"⟩],
        some "place-order"⟩,
      ⟨"Shop\\Order", "State", ⟨"Int", []⟩, .enum [("Open", .int 5), ("Shut", .text "x")], [],
        none⟩]⟩

theorem parse_wellFormed_order :
    parse "order.datatypes" orderSource = .ok orderCollection ∧
      ∀ d ∈ orderCollection.definitions,
        d.WellFormed ∧ ∀ x ∈ d.conditions, Text.Trimmed x.expression := by
  have parsed : parse "order.datatypes" orderSource = .ok orderCollection := by decide +kernel
  exact ⟨parsed, parse_wellFormed parsed⟩

end Declaration

end Datatypes
