import Datatypes.Declaration.Parser
import Datatypes.Proofs.Declaration.Printer
import Datatypes.Proofs.Token.Spelling

/-!
How the reader goes over a text. `m.Accepts cs ds` says that the machine, from its state, reads
the text to its end and to these definitions; the lemmas take one token off the text and give
the state in which what is left has to be accepted.
-/

namespace Datatypes.Declaration

open Text Token

namespace Machine

variable {m m' : Machine} {ds : List Definition} {rest : List Char}

theorem run_nil (m : Machine) (file : String) (line : Nat) :
    m.run ⟨file, line, []⟩ = m.finish line := by
  rw [run]
  rfl

theorem run_cons (m : Machine) {t : Token} (ht : t.kind ≠ .comment) (ts : List Token)
    (file : String) (line : Nat) :
    m.run ⟨file, line, t :: ts⟩ = (m.step t).bind fun m' => m'.run ⟨file, t.line, ts⟩ := by
  have next : (⟨file, line, t :: ts⟩ : TokenStream).next? = some (t, ⟨file, t.line, ts⟩) := by
    simp [TokenStream.next?, TokenStream.pull, isComment, ht]
  rw [run]
  split
  · next h => rw [next] at h; cases h
  · next h =>
    rw [next] at h
    cases h
    cases m.step t <;> rfl

def Accepts (m : Machine) (cs : List Char) (ds : List Definition) : Prop :=
  ∀ line, ∃ tokens, Lexes line cs tokens ∧ ∀ file last, m.run ⟨file, last, tokens⟩ = .ok ds

theorem accepts_nil (hs : m.state = .topLevel) (hb : m.inBlock = false) :
    m.Accepts [] m.definitions := by
  refine fun line => ⟨[], .nil, fun file last => ?_⟩
  rw [run_nil, finish, hs]
  simp [hb]

theorem Accepts.token {kind : TokenKind} {text : List Char} (hl : Lexeme kind text rest)
    (hc : kind ≠ .comment)
    (h : ∀ t : Token, t.kind = kind → t.text = String.ofList text →
      ∃ m', m.step t = .ok m' ∧ m'.Accepts rest ds) :
    m.Accepts (text ++ rest) ds := by
  intro line
  obtain ⟨m', hstep, hm'⟩ := h ⟨kind, String.ofList text, line⟩ rfl rfl
  obtain ⟨tokens, hlex, hrun⟩ := hm' (line + text.count '\n')
  refine ⟨_, .cons hl hlex, fun file last => ?_⟩
  rw [run_cons m hc, hstep]
  exact hrun file line

theorem Accepts.step {kind : TokenKind} {text : List Char} (hl : Lexeme kind text rest)
    (hc : kind ≠ .comment) (hstep : ∀ t : Token, t.kind = kind → m.step t = .ok m')
    (h : m'.Accepts rest ds) : m.Accepts (text ++ rest) ds :=
  .token hl hc fun t ht _ => ⟨m', hstep t ht, h⟩

theorem Accepts.space (hstep : ∀ t : Token, t.kind = .whitespace → m.step t = .ok m')
    (hstay : ∀ t : Token, t.kind = .whitespace → m'.step t = .ok m')
    (h : m'.Accepts rest ds) : m.Accepts (' ' :: rest) ds := by
  by_cases hr : Halts isBlank rest
  · exact .step (lexeme_space hr) (by simp) hstep h
  -- Otherwise the space and the white space after it make one token.
  intro line
  obtain ⟨tokens, hlex, hrun⟩ := h line
  cases hlex with
  | nil => exact absurd (halts_nil _) hr
  | @cons _ kind text rest ts hl hts =>
    obtain ⟨b, text, rfl⟩ := List.exists_cons_of_ne_nil hl.ne_nil
    have hb : isBlank b = true := by simpa [halts_cons] using hr
    obtain ⟨rfl, blank, halts⟩ := lexeme_of_blank hb hl
    have merged : Lexeme .whitespace (' ' :: b :: text) rest :=
      .whitespace (by simpa [hb, isBlank_space] using blank) halts
    have lines : (' ' :: b :: text).count '\n' = (b :: text).count '\n' := by simp
    refine ⟨_, .cons merged (lines ▸ hts), fun file last => ?_⟩
    have kept := hrun file last
    rw [run_cons _ (by simp), hstay _ rfl] at kept
    rw [run_cons _ (by simp), hstep _ rfl]
    exact kept

theorem parse_of_accepts {source : String} (h : Accepts {} source.toList ds) (file : String) :
    parse file source = .ok ⟨file, ds⟩ := by
  obtain ⟨tokens, hlex, hrun⟩ := h 0
  have lexed : lex source = .ok tokens := lexFrom_eq_ok_iff.mpr hlex
  simp only [parse, TokenStream.ofSource, TokenStream.tokens, lexed, Except.mapError, Except.map,
    TokenStream.ofTokens, parseStream, hrun]

def reading (m : Machine) (d : Draft) (p : Place) : Machine := { m with state := .body d p }

theorem step_reading {d d' : Draft} {p p' : Place} {t : Token}
    (h : p.rule m.ns d t = .ok (.reading d' p')) :
    (m.reading d p).step t = .ok (m.reading d' p') := by
  simp only [step, reading, h]

end Machine

def Place.Moves (ns : String) (d : Draft) (p : Place) (kind : TokenKind) (d' : Draft)
    (p' : Place) : Prop :=
  ∀ t : Token, t.kind = kind → p.rule ns d t = .ok (.reading d' p')

def Place.isSpaced : Place → Bool
  | .constructorWord _ | .constructorTail _ | .constructorBracket _ | .typeWord _ _ _
  | .typeTail _ _ _ | .typeBracket _ _ _ | .typeGap _ _ _ | .scopeWord _ | .scopeTail _
  | .guard _ _ _ => false
  | _ => true

theorem Place.moves_of_isSpaced {p : Place} (h : p.isSpaced = true) (ns : String) (d : Draft) :
    p.Moves ns d .whitespace d p := by
  intro t ht
  have hw : t.isWhitespace = true := by simpa [isWhitespace] using ht
  cases p with
  | constructorWord | constructorTail | constructorBracket | typeWord | typeTail | typeBracket
  | typeGap | scopeWord | scopeTail | guard => cases h
  | _ =>
    -- Each of these rules is a `spaced` one, which looks at nothing else.
    exact if_pos hw

theorem moves_constructorTail_whitespace (r : Reference) (ns : String) (d : Draft) :
    (Place.constructorTail r).Moves ns d .whitespace d
      (.constructorBody (r.resolve ns isScalarConstructor)) := by
  intro t ht
  simp [Place.rule, constructorTailRule, constructorBodyRule, spaced, isSymbol, isWhitespace, ht]

theorem moves_typeTail_whitespace (c : Constructor) (nullable : Bool) (r : Reference) (ns : String)
    (d : Draft) : (Place.typeTail c nullable r).Moves ns d .whitespace d
      (.argumentName c nullable false (r.resolve ns isScalarType)) := by
  intro t ht
  simp [Place.rule, typeTailRule, ht]

theorem moves_scopeTail_whitespace (r : Reference) (ns : String) (d : Draft) :
    (Place.scopeTail r).Moves ns d .whitespace d
      (.scopeColon (r.resolve ns (· = anyConstructor))) := by
  intro t ht
  simp [Place.rule, scopeTailRule, symbolRule, spaced, isWhitespace, ht]

namespace Machine

variable {m : Machine} {ds : List Definition} {rest : List Char} {d d' : Draft} {p p' : Place}

theorem Accepts.move {kind : TokenKind} {text : List Char} (hl : Lexeme kind text rest)
    (hc : kind ≠ .comment) (hm : p.Moves m.ns d kind d' p')
    (h : (m.reading d' p').Accepts rest ds) : (m.reading d p).Accepts (text ++ rest) ds :=
  .step hl hc (fun t ht => step_reading (hm t ht)) h

theorem Accepts.gap (hm : p.Moves m.ns d .whitespace d' p') (hp : p'.isSpaced = true)
    (h : (m.reading d' p').Accepts rest ds) : (m.reading d p).Accepts (' ' :: rest) ds :=
  .space (fun t ht => step_reading (hm t ht))
    (fun t ht => step_reading (Place.moves_of_isSpaced hp m.ns d' t ht)) h

theorem Accepts.skip (hp : p.isSpaced = true) (h : (m.reading d p).Accepts rest ds) :
    (m.reading d p).Accepts (' ' :: rest) ds :=
  h.gap (Place.moves_of_isSpaced hp m.ns d) hp

theorem Accepts.word {w : String} (hw : isWord w = true) (hr : Halts isWordChar rest)
    (hm : p.Moves m.ns d (.word w) d' p') (h : (m.reading d' p').Accepts rest ds) :
    (m.reading d p).Accepts (w.toList ++ rest) ds :=
  .move (lexeme_word hw hr) (by simp) hm h

theorem Accepts.symbol {c : Char} (hc : standsAlone c = true)
    (hm : p.Moves m.ns d (.symbol c) d' p') (h : (m.reading d' p').Accepts rest ds) :
    (m.reading d p).Accepts (c :: rest) ds :=
  .move (lexeme_symbol hc rest) (by simp) hm h

theorem Accepts.separator (hm : p.Moves m.ns d .separator d' p')
    (h : (m.reading d' p').Accepts rest ds) : (m.reading d p).Accepts ('\\' :: rest) ds :=
  .move .separator (by simp) hm h

theorem Accepts.quoted {content : String} (hq : Quotable '"' content.toList)
    (hm : p.Moves m.ns d (.quoted content) d' p') (h : (m.reading d' p').Accepts rest ds) :
    (m.reading d p).Accepts ('"' :: (content.toList ++ '"' :: rest)) ds := by
  simpa using Accepts.move (lexeme_quoted hq rest) (by simp) hm h

theorem Accepts.path (word tail : List String → State)
    (hword : ∀ ws w (t : Token), t.kind = .word w →
      { m with state := word ws }.step t = .ok { m with state := tail (ws ++ [w]) })
    (hsep : ∀ ws (t : Token), t.kind = .separator →
      { m with state := tail ws }.step t = .ok { m with state := word ws })
    {words : List String} (hne : words ≠ []) (hall : ∀ w ∈ words, isWord w = true)
    (hr : Halts isWordChar rest) (start : List String)
    (h : { m with state := tail (start ++ words) }.Accepts rest ds) :
    { m with state := word start }.Accepts ((Reference.spelling words).toList ++ rest) ds := by
  induction words generalizing start with
  | nil => exact absurd rfl hne
  | cons w words ih =>
    have hw := hall w (by simp)
    cases words with
    | nil =>
      rw [Reference.spelling, String.intercalate_singleton]
      exact .step (lexeme_word hw hr) (by simp) (hword start w) h
    | cons v words =>
      have spelled : (Reference.spelling (w :: v :: words)).toList ++ rest =
          w.toList ++ '\\' :: ((Reference.spelling (v :: words)).toList ++ rest) := by
        simp [Reference.spelling]
      have further := ih (by simp) (fun x hx => hall x (by simp [hx])) (start ++ [w])
        (by simpa using h)
      rw [spelled]
      refine .step (lexeme_word hw (halts_cons.mpr (by decide))) (by simp) (hword start w) ?_
      exact .step .separator (by simp) (hsep (start ++ [w])) further

theorem Accepts.printName (word tail : Reference → Place) {start : Place} {bare : String → Bool}
    {name : String} (hsep : start.Moves m.ns d .separator d (word ⟨true, []⟩))
    (hstart : ∀ w, start.Moves m.ns d (.word w) d (tail ⟨false, [w]⟩))
    (hword : ∀ r w, (word r).Moves m.ns d (.word w) d (tail (r.push w)))
    (htail : ∀ r, (tail r).Moves m.ns d .separator d (word r))
    (hpath : IsPath name) (hbare : bare name = true → isWord name = true)
    (hr : Halts isWordChar rest)
    (h : ∀ r : Reference, r.resolve m.ns bare = name → (m.reading d (tail r)).Accepts rest ds) :
    (m.reading d start).Accepts ((printName bare name).toList ++ rest) ds := by
  by_cases hb : bare name = true
  · rw [Declaration.printName, if_pos hb]
    refine .word (hbare hb) hr (hstart name) (h _ ?_)
    simp [Reference.resolve, Reference.name, Reference.spelling, hb]
  · obtain ⟨words, hne, hall, rfl⟩ := hpath
    have text : ("\\" ++ Reference.spelling words).toList ++ rest =
        '\\' :: ((Reference.spelling words).toList ++ rest) := by simp
    rw [Declaration.printName, if_neg hb, text]
    refine .separator hsep (Accepts.path (fun ws => .body d (word ⟨true, ws⟩))
      (fun ws => .body d (tail ⟨true, ws⟩)) ?_ ?_ hne hall hr [] (h ⟨true, words⟩ ?_))
    · exact fun ws w t ht => step_reading (hword ⟨true, ws⟩ w t ht)
    · exact fun ws t ht => step_reading (htail ⟨true, ws⟩ t ht)
    · simp [Reference.resolve, Reference.name]

end Machine

end Datatypes.Declaration
