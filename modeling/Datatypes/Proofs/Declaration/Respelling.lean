import Datatypes.Proofs.Declaration.Attachment

/-!
Relative and absolute spellings. A relative name stands for the same class as the absolute name that
puts the active namespace in front of it, unless it is one of the names that no namespace qualifies.
So either can be written for the other: the text between the tokens stays as it was cut, and the
reader gets from both to places that differ in the spelling only.
-/

namespace Datatypes

open Text Token

namespace Token

variable {kind : TokenKind} {text front rest rest' : List Char} {c : Char} {line : Nat}
  {ts us us' : List Token} {t : Token}

theorem startsFraction_separator (x : Char) (rest : List Char) :
    startsFraction (x :: '\\' :: rest) = false := by
  by_cases hx : x = '.'
  · subst hx
    rfl
  · exact startsFraction_of_ne hx _

theorem Lexeme.before_separator (h : Lexeme kind text (c :: rest)) (hc : isWordStart c = true) :
    Lexeme kind text ('\\' :: rest') := by
  have sameLine : ¬ Halts (· != '\n') (c :: rest) := by
    intro halts
    obtain rfl : c = '\n' := by simpa using halts_cons.mp halts
    exact absurd hc (by decide)
  cases h with
  | whitespace h _ => exact .whitespace h (halts_cons.mpr (by decide))
  | hashComment _ hr => exact absurd hr sameLine
  | lineComment _ hr => exact absurd hr sameLine
  | blockComment h => exact .blockComment h
  | quoted hq h => exact .quoted hq h
  | integer h _ _ => exact .integer h (halts_cons.mpr (by decide)) rfl
  | decimal h he _ => exact .decimal h he (halts_cons.mpr (by decide))
  | word hs h _ => exact .word hs h (halts_cons.mpr (by decide))
  | var hs h _ => exact .var hs h (halts_cons.mpr (by decide))
  | separator => exact .separator
  | arrow => exact .arrow
  | symbol hp _ =>
    have plain : isWordStart '\\' = false := by decide
    exact .symbol hp (by simp [joins, plain])

theorem Lexeme.before_path (h : Lexeme kind text (front ++ c :: rest))
    (hc : isWordStart c = true) : Lexeme kind text (front ++ '\\' :: rest') := by
  match front with
  | [] => exact h.before_separator hc
  -- A point in front of the word could start a fraction, but not with a separator behind it.
  | [x] => exact h.of_head (startsFraction_separator x rest')
  | x :: y :: front => exact h.lookahead (by simp)

theorem Lexes.isWordStart_of_word {w : String} {cs : List Char} (h : Lexes line cs (t :: ts))
    (ht : t.kind = .word w) : ∃ c rest, cs = c :: rest ∧ isWordStart c = true := by
  cases h with
  | @cons _ kind text rest _ hl _ =>
    obtain rfl : kind = .word w := ht
    generalize hk : TokenKind.word w = kind at hl
    cases hl with
    | word hs _ _ => exact ⟨_, _, rfl, hs⟩
    | integer => exact absurd hk.symm (ofDigits_ne_name _ w).1
    | _ => cases hk

theorem Lexes.exists_before_path {w : String} {cs : List Char}
    (h : Lexes line cs (ts ++ t :: us)) (ht : t.kind = .word w) :
    ∃ front rest, cs = front ++ rest ∧ String.join (ts.map (·.text)) = String.ofList front ∧
      Lexes (line + front.count '\n') rest (t :: us) ∧
      ∀ rest' us', Lexes (line + front.count '\n') ('\\' :: rest') us' →
        Lexes line (front ++ '\\' :: rest') (ts ++ us') := by
  induction ts generalizing line cs with
  | nil => exact ⟨[], cs, rfl, rfl, by simpa using h, by simp⟩
  | cons u ts ih =>
    cases h with
    | @cons _ kind text tail _ hl htail =>
      obtain ⟨front, rest, rfl, joined, hrest, replaced⟩ := ih htail
      obtain ⟨c, rest, rfl, hc⟩ := hrest.isWordStart_of_word ht
      refine ⟨text ++ front, c :: rest, by simp, ?_, ?_, ?_⟩
      · rw [List.map_cons, String.join_cons, joined, String.ofList_append]
      · rwa [List.count_append, ← Nat.add_assoc]
      · intro rest' us' h'
        rw [List.count_append, ← Nat.add_assoc] at h'
        rw [List.append_assoc]
        exact .cons (hl.before_path hc) (replaced rest' us' h')

theorem count_newline_of_isWord {w : String} (hw : isWord w = true) : w.toList.count '\n' = 0 := by
  obtain ⟨c, cs, rfl, hc, hcs⟩ := exists_of_isWord hw
  refine List.count_eq_zero.mpr fun hmem => ?_
  rw [String.toList_ofList] at hmem
  rcases List.mem_cons.mp hmem with rfl | hmem
  · exact absurd hc (by decide)
  · exact absurd (hcs _ hmem) (by decide)

theorem exists_lexes_words {words : List String} (hall : ∀ w ∈ words, isWord w = true)
    (h : Lexes line rest us) :
    ∃ ts, Lexes line (words.flatMap (fun w => w.toList ++ ['\\']) ++ rest) (ts ++ us) ∧
      ts.map (·.kind) = words.flatMap fun w => [.word w, .separator] := by
  induction words with
  | nil => exact ⟨[], h, rfl⟩
  | cons w words ih =>
    have hw := hall w (by simp)
    obtain ⟨ts, hts, kinds⟩ := ih fun v hv => hall v (by simp [hv])
    have separated : Lexes (line + w.toList.count '\n') (['\\'] ++ _) _ :=
      .cons .separator (by rwa [count_newline_of_isWord hw])
    have word := Lexes.cons (lexeme_word hw (halts_cons.mpr (by decide))) separated
    refine ⟨⟨.word w, w, line⟩ :: ⟨.separator, "\\", line⟩ :: ts, ?_, by simp [kinds]⟩
    simpa [count_newline_of_isWord hw] using word

end Token

namespace Declaration

def absoluteSpelling (ns spelling : String) : String :=
  if ns = "" then "\\" ++ spelling else "\\" ++ ns ++ "\\" ++ spelling

theorem toList_spelling {words : List String} (hne : words ≠ []) :
    (Reference.spelling words ++ "\\").toList = words.flatMap fun w => w.toList ++ ['\\'] := by
  induction words with
  | nil => exact absurd rfl hne
  | cons w words ih =>
    cases words with
    | nil => simp [Reference.spelling]
    | cons v words =>
      have rest := ih (by simp)
      rw [String.toList_append] at rest
      simpa [Reference.spelling, String.intercalate_cons_cons] using rest

theorem pathKinds_append {front words : List String} (hne : words ≠ []) :
    pathKinds (front ++ words) =
      front.flatMap (fun w => [.word w, .separator]) ++ pathKinds words := by
  induction front with
  | nil => rfl
  | cons w front ih =>
    obtain ⟨v, rest, hv⟩ := List.exists_cons_of_ne_nil (l := front ++ words) (by simp [hne])
    rw [List.cons_append, List.flatMap_cons, List.append_assoc, ← ih, hv]
    rfl

theorem exists_words_of_isPath {ns : String} (h : ns = "" ∨ IsPath ns) :
    ∃ words, (∀ w ∈ words, isWord w = true) ∧
      (∀ spelling : String, (absoluteSpelling ns spelling).toList =
        '\\' :: (words.flatMap (fun w => w.toList ++ ['\\']) ++ spelling.toList)) ∧
      ∀ more, more ≠ [] →
        Reference.spelling (words ++ more) = qualify ns (Reference.spelling more) := by
  rcases h with rfl | h
  · refine ⟨[], by simp, fun spelling => ?_, fun more _ => ?_⟩
    · simp [absoluteSpelling]
    · simp [qualify]
  · have ne := h.ne_empty
    obtain ⟨words, hne, hall, rfl⟩ := h
    refine ⟨words, hall, fun spelling => ?_, fun more hmore => ?_⟩
    · rw [← toList_spelling hne, absoluteSpelling, if_neg ne]
      simp
    · rw [qualify, if_neg ne]
      simp only [Reference.spelling]
      rw [String.intercalate_append_of_ne_nil hne hmore]

structure SameName (ns : String) (bare : String → Bool) (r r' : Reference) : Prop where
  resolved : r.resolve ns bare = r'.resolve ns bare
  left : r.absolute = true ∨ bare r.name = false
  right : r'.absolute = true ∨ bare r'.name = false

theorem sameName_absolute {ns : String} {bare : String → Bool} {front words : List String}
    (hs : Reference.spelling (front ++ words) = qualify ns (Reference.spelling words))
    (hb : bare (Reference.spelling words) = false) :
    SameName ns bare ⟨true, front ++ words⟩ ⟨false, words⟩ := by
  refine ⟨?_, .inl rfl, .inr hb⟩
  simp [Reference.resolve, Reference.name, hs, hb]

variable {ns : String} {d d' : Draft} {p p' q q' : Place} {t : Token} {ts : List Token}
  {r r' : Reference}

/-- In front of the tokens the first place is as good as the second: a run from there that gets out
of the declaration ends in the same way. -/
def Place.StandsFor (ns : String) (d : Draft) (p p' : Place) (ts : List Token) : Prop :=
  ∀ m m' : Machine, m.ns = ns → (m.reading d p').steps ts = .ok m' → m'.state = .topLevel →
    (m.reading d p).steps ts = .ok m'

theorem standsFor_nil : p.StandsFor ns d p' [] := by
  intro m m' _ h top
  cases h
  cases top

theorem standsFor_of_rule_eq (h : p.rule ns d t = p'.rule ns d t) :
    p.StandsFor ns d p' (t :: ts) := by
  rintro m m' rfl hs _
  have step : (m.reading d p).step t = (m.reading d p').step t := by
    simp only [Machine.step, Machine.reading, h]
  rwa [Machine.steps_cons, step, ← Machine.steps_cons]

theorem Place.StandsFor.cons (h : q.StandsFor ns d q' ts)
    (hr : p.rule ns d t = .ok (.reading d q)) (hr' : p'.rule ns d t = .ok (.reading d q')) :
    p.StandsFor ns d p' (t :: ts) := by
  rintro m m' rfl hs top
  rw [Machine.steps_cons, Machine.step_reading hr'] at hs
  rw [Machine.steps_cons, Machine.step_reading hr]
  exact h m m' rfl hs top

section

variable (same : SameName ns isScalarType r r') (c : Constructor) (nullable : Bool)

include same

theorem standsFor_typeGap :
    (Place.typeGap c nullable r).StandsFor ns d (.typeGap c nullable r') ts := by
  cases ts with
  | nil => exact standsFor_nil
  | cons t ts =>
    refine standsFor_of_rule_eq ?_
    simp only [Place.rule, typeGapRule, same.resolved]

theorem standsFor_typeBracket :
    (Place.typeBracket c nullable r).StandsFor ns d (.typeBracket c nullable r') ts := by
  cases ts with
  | nil => exact standsFor_nil
  | cons t ts =>
    by_cases ht : t.isSymbol ']' = true
    · exact (standsFor_typeGap same c nullable).cons (if_pos ht) (if_pos ht)
    · exact standsFor_of_rule_eq ((if_neg ht).trans (if_neg ht).symm)

theorem standsFor_typeTail (hs : ∀ t ∈ ts.head?, t.kind ≠ .separator) :
    (Place.typeTail c nullable r).StandsFor ns d (.typeTail c nullable r') ts := by
  cases ts with
  | nil => exact standsFor_nil
  | cons t ts =>
    by_cases ht : t.kind = .symbol '['
    · refine (standsFor_typeBracket same c nullable).cons ?_ ?_ <;>
        simp [Place.rule, typeTailRule, ht]
    · refine standsFor_of_rule_eq ?_
      have := hs t rfl
      simp only [Place.rule, typeTailRule, same.resolved]
      split <;> simp_all

end

theorem standsFor_constructorTail (same : SameName ns isScalarConstructor r r')
    (hs : ∀ t ∈ ts.head?, t.kind ≠ .separator) :
    (Place.constructorTail r).StandsFor ns d (.constructorTail r') ts := by
  have noList {r : Reference} (hr : r.absolute = true ∨ isScalarConstructor r.name = false)
      (t : Token) :
      (t.isSymbol '[' && !r.absolute && scalarConstructors.contains r.name) = false := by
    rcases hr with hr | hr
    · simp [hr]
    · have := (Bool.or_eq_false_iff.mp hr).1
      rw [this, Bool.and_false]
  cases ts with
  | nil => exact standsFor_nil
  | cons t ts =>
    refine standsFor_of_rule_eq ?_
    have := hs t rfl
    simp only [Place.rule, constructorTailRule, noList same.left, noList same.right, same.resolved,
      Bool.false_eq_true, if_false]

theorem standsFor_scopeTail (same : SameName ns (· = anyConstructor) r r')
    (hs : ∀ t ∈ ts.head?, t.kind ≠ .separator) :
    (Place.scopeTail r).StandsFor ns d (.scopeTail r') ts := by
  cases ts with
  | nil => exact standsFor_nil
  | cons t ts =>
    refine standsFor_of_rule_eq ?_
    have := hs t rfl
    simp only [Place.rule, scopeTailRule, same.resolved]

inductive Role where
  | constructorName
  | argumentType
  | guardHead
deriving DecidableEq, Repr

def Role.bare : Role → String → Bool
  | .constructorName => isScalarConstructor
  | .argumentType => isScalarType
  | .guardHead => fun name => name = anyConstructor

def Place.role? : Place → Option Role
  | .constructorStart => some .constructorName
  | .argumentStart _ | .nullableType _ => some .argumentType
  | .groupStart _ | .guardEnd _ => some .guardHead
  | _ => none

theorem heads_type {start : Place} {c : Constructor} {nullable : Bool}
    (hstart : nullable = false ∧ start = .argumentStart c ∨
      nullable = true ∧ start = .nullableType c) :
    Heads ns d start (.typeWord c nullable) (.typeTail c nullable) := by
  constructor
  · rcases hstart with ⟨rfl, rfl⟩ | ⟨rfl, rfl⟩ <;> intro t ht <;>
      simp [Place.rule, argumentStartRule, nullableTypeRule, spaced, isWhitespace, ht]
  · rcases hstart with ⟨rfl, rfl⟩ | ⟨rfl, rfl⟩ <;> intro w t ht <;>
      simp [Place.rule, argumentStartRule, nullableTypeRule, spaced, isWhitespace, ht]
  · intro r w t ht
    simp [Place.rule, wordRule, ht]
  · intro r t ht
    simp [Place.rule, typeTailRule, ht]

theorem Place.exists_heads {role : Role} (hp : p.role? = some role) (ns : String) (d : Draft) :
    ∃ word tail : Reference → Place, Heads ns d p word tail ∧
      ∀ r r' ts, SameName ns role.bare r r' → (∀ t ∈ ts.head?, t.kind ≠ .separator) →
        (tail r).StandsFor ns d (tail r') ts := by
  cases p with
  | constructorStart =>
    cases hp
    exact ⟨_, _, heads_constructor, fun _ _ _ => standsFor_constructorTail⟩
  | argumentStart c =>
    cases hp
    exact ⟨_, _, heads_type (.inl ⟨rfl, rfl⟩), fun _ _ _ same => standsFor_typeTail same c false⟩
  | nullableType c =>
    cases hp
    exact ⟨_, _, heads_type (.inr ⟨rfl, rfl⟩), fun _ _ _ same => standsFor_typeTail same c true⟩
  | groupStart scope =>
    cases hp
    exact ⟨_, _, heads_scope ⟨scope, .inl rfl⟩, fun _ _ _ => standsFor_scopeTail⟩
  | guardEnd scope =>
    cases hp
    exact ⟨_, _, heads_scope ⟨scope, .inr rfl⟩, fun _ _ _ => standsFor_scopeTail⟩
  | _ => cases hp

theorem Reads.steps {p' : Place} (h : Reads ns d p ts d' p') {m : Machine} (hns : m.ns = ns) :
    (m.reading d p).steps ts = .ok (m.reading d' p') := by
  subst hns
  induction h with
  | nil => rfl
  | cons hr _ ih =>
    rw [Machine.steps_cons, Machine.step_reading hr]
    exact ih

/-- Behind the tokens `before` a relative name with these words begins. Its tokens, and comments
between them, are `path`, and no separator goes on with it behind them. -/
structure RefersAt (before path after : List Token) (ns : String) (role : Role)
    (words : List String) : Prop where
  place : ∃ m d p, Machine.steps {} (significant before) = .ok m ∧ m.ns = ns ∧
    m.state = .body d p ∧ p.role? = some role
  first : ∃ t rest w, path = t :: rest ∧ t.kind = .word w
  spelled : (significant path).map (·.kind) = pathKinds words
  whole : ∀ t ∈ (significant after).head?, t.kind ≠ .separator

section

variable {before path after : List Token} {role : Role} {words : List String}

theorem RefersAt.words_ne_nil (h : RefersAt before path after ns role words) : words ≠ [] := by
  rintro rfl
  obtain ⟨t, rest, w, rfl, ht⟩ := h.first
  have spelled := h.spelled
  rw [significant_cons ht] at spelled
  cases spelled

theorem RefersAt.steps (h : RefersAt before path after ns role words) {front : List String}
    {root : List Token} (hroot : root.map (·.kind) =
      .separator :: front.flatMap fun w => [.word w, .separator])
    (hs : Reference.spelling (front ++ words) = qualify ns (Reference.spelling words))
    (hb : role.bare (Reference.spelling words) = false) {m : Machine}
    (hm : Machine.steps {} (significant (before ++ path ++ after)) = .ok m)
    (top : m.state = .topLevel) :
    Machine.steps {} (significant (before ++ root ++ path ++ after)) = .ok m := by
  obtain ⟨m₀, d, p, hbefore, hns, hstate, hrole⟩ := h.place
  obtain ⟨word, tail, heads, stands⟩ := p.exists_heads hrole ns d
  have start : m₀ = m₀.reading d p := by rw [Machine.reading, ← hstate]
  have relative : Reads ns d p (significant path) d (tail ⟨false, words⟩) :=
    heads.reads h.words_ne_nil h.spelled
  have absolute : Reads ns d p (root ++ significant path) d (tail ⟨true, front ++ words⟩) := by
    refine heads.reads (by simp [h.words_ne_nil]) ?_
    rw [List.map_append, hroot, h.spelled, Reference.kinds, pathKinds_append h.words_ne_nil]
    rfl
  have noComment : significant root = root := by
    refine significant_of_kinds hroot ?_
    simp
  rw [significant_append, significant_append, List.append_assoc, Machine.steps_append, hbefore]
    at hm
  rw [significant_append, significant_append, significant_append, noComment, List.append_assoc,
    List.append_assoc, Machine.steps_append, hbefore]
  simp only [Except.bind] at hm ⊢
  rw [start, Machine.steps_append, relative.steps hns] at hm
  rw [start, ← List.append_assoc, Machine.steps_append, absolute.steps hns]
  exact stands _ _ _ (sameName_absolute hs hb) h.whole m₀ m hns hm top

theorem exists_lexes_rooted {line : Nat} {cs : List Char}
    (h : Lexes line cs (before ++ path ++ after))
    (hpath : ∃ t rest w, path = t :: rest ∧ t.kind = .word w) {front : List String}
    (hall : ∀ w ∈ front, isWord w = true) :
    ∃ root, Lexes line ((String.join (before.map (·.text))).toList ++
        '\\' :: (front.flatMap (fun w => w.toList ++ ['\\']) ++
          (String.join ((path ++ after).map (·.text))).toList)) (before ++ root ++ path ++ after) ∧
      root.map (·.kind) = .separator :: front.flatMap fun w => [.word w, .separator] := by
  obtain ⟨t, rest, w, rfl, ht⟩ := hpath
  rw [List.append_assoc, List.cons_append] at h
  obtain ⟨text, tail, -, joined, htail, replaced⟩ := h.exists_before_path ht
  obtain ⟨words, hwords, kinds⟩ := exists_lexes_words hall htail
  have separated : Lexes (line + text.count '\n') (['\\'] ++ _) _ := .cons .separator hwords
  refine ⟨⟨.separator, "\\", line + text.count '\n'⟩ :: words, ?_, by simp [kinds]⟩
  rw [joined, List.cons_append, htail.join_text]
  simpa using replaced _ _ separated

/-- A name that the namespace qualifies can be written out with the namespace in front of it. -/
theorem parse_respelled {file source : String} {c : Collection} (h : parse file source = .ok c)
    (hl : lex source = .ok (before ++ path ++ after))
    (hr : RefersAt before path after ns role words)
    (hb : role.bare (Reference.spelling words) = false) :
    parse file (String.join (before.map (·.text)) ++
      absoluteSpelling ns (String.join (path.map (·.text))) ++
      String.join (after.map (·.text))) = .ok c := by
  obtain ⟨ts, m, lexes, hm, top, outside, rfl⟩ := steps_of_parse h
  obtain rfl : ts = before ++ path ++ after :=
    Except.ok.inj ((lexFrom_eq_ok_iff.mpr lexes).symm.trans hl)
  obtain ⟨m₀, _, _, hbefore, hns, -, -⟩ := hr.place
  have known : m₀.WellFormed :=
    Machine.wellFormed_of_steps (fun t ht => lexes.spelled t (by simp [ht])) hbefore
  obtain ⟨front, hall, rooted, qualified⟩ := exists_words_of_isPath (hns ▸ known.ns)
  obtain ⟨root, lexes', kinds⟩ := exists_lexes_rooted lexes hr.first hall
  have steps := hr.steps kinds (qualified words hr.words_ne_nil) hb hm top
  refine parse_of_steps ?_ steps top outside file
  simpa [rooted, String.join_append] using lexes'

end

def separatorToken : Token := ⟨.separator, "\\", 0⟩

def cartSource (type : String) : String :=
  "namespace Shop\\Cart; data Line = Line \x7b ?" ++ type ++ "[] $p \x7d deriving (V);"

def cartBefore : List Token :=
  [wordToken "namespace", blank, wordToken "Shop", separatorToken, wordToken "Cart",
    symbolToken ';', blank, wordToken "data", blank, wordToken "Line", blank, symbolToken '=',
    blank, wordToken "Line", blank, symbolToken '\x7b', blank, symbolToken '?']

def cartPath : List Token :=
  [wordToken "Item", ⟨.comment, "/**/", 0⟩, separatorToken, wordToken "Price"]

def cartAfter : List Token :=
  [symbolToken '[', symbolToken ']', blank, ⟨.var "p", "$p", 0⟩, blank, symbolToken '\x7d', blank,
    wordToken "deriving", blank, symbolToken '(', wordToken "V", symbolToken ')', symbolToken ';']

def cart : Machine where
  ns := "Shop\\Cart"
  definitions := [⟨"Shop\\Cart", "Line",
    ⟨"Shop\\Cart\\Line", [⟨"p", "Shop\\Cart\\Item\\Price", true, true⟩]⟩, .named "V", [], none⟩]

theorem parse_respelled_cart :
    parse "" (cartSource "Item/**/\\Price") = .ok ⟨"", cart.definitions⟩ ∧
      parse "" (cartSource "\\Shop\\Cart\\Item/**/\\Price") = .ok ⟨"", cart.definitions⟩ := by
  have lexed : lex (cartSource "Item/**/\\Price") =
      .ok (cartBefore ++ cartPath ++ cartAfter) := by decide +kernel
  have steps : Machine.steps {} (significant (cartBefore ++ cartPath ++ cartAfter)) =
      .ok cart := by decide +kernel
  have accepted := parse_of_steps (lexFrom_eq_ok_iff.mp lexed) steps rfl rfl ""
  let opened := Machine.reading { ns := "Shop\\Cart" } { line := 0, name := "Line" }
    (.nullableType ⟨"Shop\\Cart\\Line", []⟩)
  have reached : Machine.steps {} (significant cartBefore) = .ok opened := by decide +kernel
  have refers : RefersAt cartBefore cartPath cartAfter "Shop\\Cart" .argumentType
      ["Item", "Price"] :=
    ⟨⟨opened, _, _, reached, rfl, rfl, rfl⟩, ⟨_, _, "Item", rfl, rfl⟩, rfl, by decide⟩
  have respelled := parse_respelled accepted lexed refers rfl
  have text : String.join (cartBefore.map (·.text)) ++
      absoluteSpelling "Shop\\Cart" (String.join (cartPath.map (·.text))) ++
      String.join (cartAfter.map (·.text)) =
      cartSource "\\Shop\\Cart\\Item/**/\\Price" := by decide +kernel
  exact ⟨accepted, text ▸ respelled⟩

end Declaration

end Datatypes
