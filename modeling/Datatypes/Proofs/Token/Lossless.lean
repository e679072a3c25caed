import Datatypes.Proofs.Token.Lexeme

/-!
Reading a text into tokens loses nothing: the texts of the tokens make up the source, their
lines count the line ends before them, and each token can be read from its own text.
-/

namespace Datatypes

namespace Text

variable {p : Char → Bool} {rest rest' : List Char}

theorem head?_of_lookahead (h : rest'.take 2 <+: rest) {c : Char} (hc : rest'.head? = some c) :
    rest.head? = some c := by
  obtain ⟨cs, rfl⟩ := List.head?_eq_some_iff.mp hc
  obtain ⟨r, rfl⟩ := h
  simp

theorem Halts.lookahead (hr : Halts p rest) (h : rest'.take 2 <+: rest) : Halts p rest' :=
  fun c hc => hr c (head?_of_lookahead h hc)

end Text

namespace Token

open Text

theorem startsFraction_lookahead {rest rest' : List Char} (hf : startsFraction rest = false)
    (h : rest'.take 2 <+: rest) : startsFraction rest' = false := by
  unfold startsFraction
  split
  · next d r =>
    obtain ⟨s, rfl⟩ := h
    simpa [startsFraction] using hf
  · rfl

theorem joins_lookahead {c : Char} {rest rest' : List Char} (hj : joins c rest = false)
    (h : rest'.take 2 <+: rest) : joins c rest' = false := by
  cases rest' with
  | nil => rfl
  | cons d r =>
    obtain ⟨s, rfl⟩ := List.head?_eq_some_iff.mp (head?_of_lookahead h rfl)
    simpa [joins] using hj

theorem Lexeme.lookahead {kind : TokenKind} {text rest rest' : List Char}
    (h : Lexeme kind text rest) (hp : rest'.take 2 <+: rest) : Lexeme kind text rest' := by
  cases h with
  | whitespace h hr => exact .whitespace h (hr.lookahead hp)
  | hashComment h hr => exact .hashComment h (hr.lookahead hp)
  | lineComment h hr => exact .lineComment h (hr.lookahead hp)
  | blockComment h => exact .blockComment h
  | quoted hq h => exact .quoted hq h
  | integer h hr hf => exact .integer h (hr.lookahead hp) (startsFraction_lookahead hf hp)
  | decimal h he hr => exact .decimal h he (hr.lookahead hp)
  | word hc h hr => exact .word hc h (hr.lookahead hp)
  | var hc h hr => exact .var hc h (hr.lookahead hp)
  | separator => exact .separator
  | arrow => exact .arrow
  | symbol hc hj => exact .symbol hc (joins_lookahead hj hp)

theorem Lexeme.truncate {kind : TokenKind} {text rest rest' : List Char}
    (h : Lexeme kind text rest) (hp : rest' <+: rest) : Lexeme kind text rest' :=
  h.lookahead ((List.take_prefix 2 rest').trans hp)

theorem Lexeme.ne_nil {kind : TokenKind} {text rest : List Char} (h : Lexeme kind text rest) :
    text ≠ [] := by
  cases h <;> simp

inductive Lexes : Nat → List Char → List Token → Prop
  | nil {line : Nat} : Lexes line [] []
  | cons {line : Nat} {kind : TokenKind} {text rest : List Char} {tokens : List Token} :
      Lexeme kind text rest → Lexes (line + text.count '\n') rest tokens →
      Lexes line (text ++ rest) (⟨kind, String.ofList text, line⟩ :: tokens)

theorem lexFrom_append {kind : TokenKind} {text rest : List Char} (h : Lexeme kind text rest)
    (line : Nat) :
    lexFrom line (text ++ rest) =
      (lexFrom (line + text.count '\n') rest).map (⟨kind, String.ofList text, line⟩ :: ·) := by
  obtain ⟨c, tail, rfl⟩ := List.exists_cons_of_ne_nil h.ne_nil
  have lexed := lexeme_eq_ok_of_lexeme line h
  rw [List.cons_append, lexFrom]
  split
  · next what he => rw [lexed] at he; cases he
  · next he =>
    rw [lexed] at he
    cases he
    cases lexFrom (line + (c :: tail).count '\n') rest <;> rfl

theorem lexFrom_eq_ok_iff {line : Nat} {cs : List Char} {tokens : List Token} :
    lexFrom line cs = .ok tokens ↔ Lexes line cs tokens := by
  constructor
  · intro h
    fun_induction lexFrom line cs generalizing tokens with
    | case1 line => cases h; exact .nil
    | case2 => cases h
    | case3 => cases h
    | case4 line c cs kind s hl ts hts ih =>
      cases h
      obtain ⟨rfl, hlex, hline⟩ := lexeme_eq_ok_iff.mp hl
      rw [hline] at ih hts
      exact .cons hlex (ih hts)
  · intro h
    induction h with
    | nil => rw [lexFrom]
    | cons h _ ih => rw [lexFrom_append h, ih]; rfl

namespace Lexes

variable {line : Nat} {cs : List Char} {tokens : List Token}

theorem text_ne (h : Lexes line cs tokens) : ∀ t ∈ tokens, t.text ≠ "" := by
  induction h with
  | nil => simp
  | cons h _ ih =>
    intro t ht
    rcases List.mem_cons.mp ht with rfl | ht
    · simpa using h.ne_nil
    · exact ih t ht

theorem join_text (h : Lexes line cs tokens) :
    String.join (tokens.map (·.text)) = String.ofList cs := by
  induction h with
  | nil => rfl
  | cons h _ ih => rw [List.map_cons, String.join_cons, ih, String.ofList_append]

theorem line_eq (h : Lexes line cs tokens) {before after : List Token} {t : Token}
    (ht : tokens = before ++ t :: after) :
    t.line = line + (String.join (before.map (·.text))).toList.count '\n' := by
  induction h generalizing before with
  | nil => simp at ht
  | @cons line kind text rest ts _ _ ih =>
    cases before with
    | nil =>
      obtain ⟨rfl, -⟩ := List.cons.inj ht
      simp [String.join]
    | cons u before =>
      obtain ⟨rfl, hts⟩ := List.cons.inj ht
      rw [ih hts, List.map_cons, String.join_cons, String.toList_append, List.count_append,
        String.toList_ofList, Nat.add_assoc]

theorem lex_text (h : Lexes line cs tokens) :
    ∀ t ∈ tokens, lex t.text = .ok [{ t with line := 0 }] := by
  induction h with
  | nil => simp
  | @cons line kind text rest ts h _ ih =>
    intro t ht
    rcases List.mem_cons.mp ht with rfl | ht
    · have alone : Lexes 0 (text ++ []) [⟨kind, String.ofList text, 0⟩] :=
        .cons (h.truncate (List.nil_prefix)) .nil
      rw [List.append_nil] at alone
      rw [lex, String.toList_ofList]
      exact lexFrom_eq_ok_iff.mpr alone
    · exact ih t ht

theorem line_le (h : Lexes line cs tokens) : ∀ t ∈ tokens, line ≤ t.line := by
  intro t ht
  obtain ⟨before, after, hs⟩ := List.append_of_mem ht
  rw [h.line_eq hs]
  exact Nat.le_add_right ..

theorem lines_sorted (h : Lexes line cs tokens) : tokens.Pairwise (·.line ≤ ·.line) := by
  induction h with
  | nil => exact .nil
  | cons _ rest ih =>
    refine .cons (fun t ht => ?_) ih
    exact Nat.le_trans (Nat.le_add_right ..) (rest.line_le t ht)

end Lexes

theorem opens_of_lexFrom_eq_error {line : Nat} {cs : List Char} {e : LexError}
    (h : lexFrom line cs = .error e) :
    ∃ p r tokens, cs = p ++ r ∧ Lexes line p tokens ∧ Opens e.unclosed r ∧
      e.line = line + p.count '\n' := by
  fun_induction lexFrom line cs with
  | case1 => cases h
  | case2 line c cs what hl =>
    cases h
    exact ⟨[], c :: cs, [], rfl, .nil, opens_of_lexeme_eq_error hl, rfl⟩
  | case3 line c cs kind s hl e' he ih =>
    cases h
    obtain ⟨rfl, hlex, hs⟩ := lexeme_eq_ok_iff.mp hl
    obtain ⟨p, r, tokens, hrest, hp, hopens, hline⟩ := ih he
    rw [hrest] at hlex ⊢
    rw [hs] at hp hline
    -- The token before `p` stays one when the text is cut off after `p`.
    have first : Lexeme kind (c :: s.taken) p := hlex.truncate (List.prefix_append p r)
    refine ⟨c :: s.taken ++ p, r, _, by simp, .cons first hp, hopens, ?_⟩
    rw [hline, List.count_append, Nat.add_assoc]
  | case4 => cases h

/-- What is read is the whole source, each token at its line and complete in itself; a source
that cannot be read is readable up to a mark that opens something and is never closed. -/
theorem lex_lossless (source : String) :
    match lex source with
    | .ok tokens =>
      (∀ t ∈ tokens, t.text ≠ "") ∧
      String.join (tokens.map (·.text)) = source ∧
      (∀ before t after, tokens = before ++ t :: after →
        t.line = (String.join (before.map (·.text))).toList.count '\n') ∧
      (∀ t ∈ tokens, lex t.text = .ok [{ t with line := 0 }])
    | .error e =>
      ∃ p r : String, source = p ++ r ∧ (∃ tokens, lex p = .ok tokens) ∧
        Opens e.unclosed r.toList ∧ e.line = p.toList.count '\n' := by
  split
  · next tokens h =>
    have hl := lexFrom_eq_ok_iff.mp h
    refine ⟨hl.text_ne, ?_, ?_, hl.lex_text⟩
    · rw [hl.join_text, String.ofList_toList]
    · intro before t after ht
      rw [hl.line_eq ht, Nat.zero_add]
  · next e h =>
    obtain ⟨p, r, tokens, hsource, hp, hopens, hline⟩ := opens_of_lexFrom_eq_error h
    refine ⟨String.ofList p, String.ofList r, ?_, ⟨tokens, ?_⟩, ?_, ?_⟩
    · rw [← String.ofList_append, ← hsource, String.ofList_toList]
    · rw [lex, String.toList_ofList]
      exact lexFrom_eq_ok_iff.mpr hp
    · rwa [String.toList_ofList]
    · rw [String.toList_ofList, hline, Nat.zero_add]

def letter : String := "a\n/* b\nc */ 'd\\\n e\n'\n\n# f\r\ng"

def letterTokens : List Token :=
  [⟨.word "a", "a", 0⟩, ⟨.whitespace, "\n", 0⟩, ⟨.comment, "/* b\nc */", 1⟩,
    ⟨.whitespace, " ", 2⟩, ⟨.quoted "d\\\n e\n", "'d\\\n e\n'", 2⟩, ⟨.whitespace, "\n\n", 4⟩,
    ⟨.comment, "# f\r", 6⟩, ⟨.whitespace, "\n", 6⟩, ⟨.word "g", "g", 7⟩]

theorem lex_lossless_letter :
    lex letter = .ok letterTokens ∧ String.join (letterTokens.map (·.text)) = letter ∧
      (∀ before t after, letterTokens = before ++ t :: after →
        t.line = (String.join (before.map (·.text))).toList.count '\n') ∧
      lex (letter ++ "\n'") = .error ⟨8, .quotation⟩ ∧
      ∃ p r : String, letter ++ "\n'" = p ++ r ∧ (∃ tokens, lex p = .ok tokens) ∧
        Opens .quotation r.toList ∧ p.toList.count '\n' = 8 := by
  have read : lex letter = .ok letterTokens := by decide +kernel
  have refused : lex (letter ++ "\n'") = .error ⟨8, .quotation⟩ := by decide +kernel
  have whole := lex_lossless letter
  have cut := lex_lossless (letter ++ "\n'")
  rw [read] at whole
  rw [refused] at cut
  obtain ⟨-, joined, lines, -⟩ := whole
  obtain ⟨p, r, split, front, opens, line⟩ := cut
  exact ⟨read, joined, lines, refused, p, r, split, front, opens, line.symm⟩

end Token

end Datatypes
