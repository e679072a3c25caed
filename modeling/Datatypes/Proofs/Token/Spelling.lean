import Datatypes.Text.Blank
import Datatypes.Proofs.Token.Lossless

/-!
The tokens that given names, texts and numbers spell, whatever stands behind them, and what a
blank at the end of a text does to its tokens.
-/

namespace Datatypes

namespace Text

variable {p : Char → Bool}

theorem dropWhile_of_halts {cs : List Char} (h : Halts p cs) : cs.dropWhile p = cs := by
  cases cs with
  | nil => rfl
  | cons c cs => simp [halts_cons.mp h]

theorem Halts.append_cons {cs : List Char} (h : Halts p cs) {b : Char} (hp : p b = false)
    (more : List Char) : Halts p (cs ++ b :: more) := by
  cases cs with
  | nil => exact halts_cons.mpr hp
  | cons c cs => exact halts_cons.mpr (halts_cons.mp h)

theorem Halts.of_append {cs more : List Char} (h : Halts p (cs ++ more)) : Halts p cs := by
  cases cs with
  | nil => exact halts_nil p
  | cons c cs => exact halts_cons.mpr (halts_cons.mp h)

theorem halts_of_strip_eq_self {s : String} (h : strip p s = s) :
    Halts p s.toList ∧ Halts p s.toList.reverse := by
  have kept : ((s.toList.dropWhile p).reverse.dropWhile p).reverse = s.toList := by
    simpa [strip] using congrArg String.toList h
  have front : s.toList.dropWhile p = s.toList := by
    refine (List.dropWhile_suffix p).eq_of_length_le ?_
    have shorter (cs : List Char) : (cs.dropWhile p).length ≤ cs.length :=
      (List.dropWhile_suffix p).length_le
    have lengths := congrArg List.length kept
    have back := shorter (s.toList.dropWhile p).reverse
    rw [List.length_reverse] at lengths back
    omega
  constructor
  · rw [← front]
    exact halts_dropWhile _ _
  · rw [← kept, List.reverse_reverse]
    exact halts_dropWhile _ _

theorem strip_of_halts {s : String} (front : Halts p s.toList) (back : Halts p s.toList.reverse) :
    strip p s = s := by
  rw [strip, dropWhile_of_halts front, dropWhile_of_halts back, List.reverse_reverse,
    String.ofList_toList]

theorem halts_reverse_dropWhile {cs : List Char} (h : Halts p cs) :
    Halts p (cs.reverse.dropWhile p).reverse := by
  obtain ⟨dropped, hd⟩ := List.dropWhile_suffix (l := cs.reverse) p
  have split : cs = (cs.reverse.dropWhile p).reverse ++ dropped.reverse := by
    rw [← List.reverse_append, hd, List.reverse_reverse]
  rw [split] at h
  exact h.of_append

theorem strip_strip (p : Char → Bool) (s : String) : strip p (strip p s) = strip p s := by
  refine strip_of_halts ?_ ?_
  · rw [strip, String.toList_ofList]
    exact halts_reverse_dropWhile (halts_dropWhile p s.toList)
  · rw [strip, String.toList_ofList, List.reverse_reverse]
    exact halts_dropWhile _ _

theorem isBlank_space : isBlank ' ' = true := by decide

theorem ne_of_isBlank {b c : Char} (hb : isBlank b = true) (hc : isBlank c = false) : b ≠ c := by
  rintro rfl
  rw [hb] at hc
  cases hc

theorem isWordStart_of_isBlank {b : Char} (hb : isBlank b = true) : isWordStart b = false := by
  by_contra hw
  exact ne_of_isBlank hb (isBlank_of_isWordStart (by simpa using hw)) rfl

theorem trim_surrounded {s : String} (h : trim s = s) : trim (" " ++ s ++ " ") = s := by
  obtain ⟨front, back⟩ := halts_of_strip_eq_self h
  have spaced : (" " ++ s ++ " ").toList = ' ' :: (s.toList ++ [' ']) := by simp
  rw [trim, strip, spaced, List.dropWhile_cons_of_pos isBlank_space]
  by_cases hs : s.toList = []
  · have empty : s = "" := by simpa using hs
    simp [empty, isBlank_space]
  · have started : Halts isBlank (s.toList ++ [' ']) := by
      obtain ⟨c, cs, hc⟩ := List.exists_cons_of_ne_nil hs
      rw [hc] at front ⊢
      exact halts_cons.mpr (halts_cons.mp front)
    rw [dropWhile_of_halts started, List.reverse_append, List.reverse_singleton,
      List.singleton_append, List.dropWhile_cons_of_pos isBlank_space, dropWhile_of_halts back,
      List.reverse_reverse, String.ofList_toList]

end Text

namespace Token

open Text

variable {rest : List Char}

theorem exists_of_isWord {w : String} (h : isWord w = true) :
    ∃ c cs, w = String.ofList (c :: cs) ∧ isWordStart c = true ∧ ∀ x ∈ cs, isWordChar x = true := by
  rw [isWord] at h
  split at h
  · cases h
  · next c cs heq =>
    simp only [Bool.and_eq_true, List.all_eq_true] at h
    exact ⟨c, cs, by rw [← heq, String.ofList_toList], h⟩

theorem lexeme_word {w : String} {rest : List Char} (hw : isWord w = true)
    (hr : Halts isWordChar rest) : Lexeme (.word w) w.toList rest := by
  obtain ⟨c, cs, rfl, hc, hcs⟩ := exists_of_isWord hw
  rw [String.toList_ofList]
  exact .word hc hcs hr

theorem lexeme_var {w : String} {rest : List Char} (hw : isWord w = true)
    (hr : Halts isWordChar rest) : Lexeme (.var w) ('$' :: w.toList) rest := by
  obtain ⟨c, cs, rfl, hc, hcs⟩ := exists_of_isWord hw
  rw [String.toList_ofList]
  exact .var hc hcs hr

theorem halts_word {w : String} (h : isWord w = true) (rest : List Char) :
    Halts isBlank (w.toList ++ rest) := by
  obtain ⟨c, cs, rfl, hc, -⟩ := exists_of_isWord h
  simpa [halts_cons] using isBlank_of_isWordStart hc

theorem lexeme_quoted {content : String} (h : Quotable '"' content.toList) (rest : List Char) :
    Lexeme (.quoted content) ('"' :: (content.toList ++ ['"'])) rest := by
  have quoted : Lexeme (.quoted (String.ofList content.toList))
      ('"' :: (content.toList ++ ['"'])) rest := .quoted (by decide) h
  rwa [String.ofList_toList] at quoted

def standsAlone (c : Char) : Bool := isPlain c && c != '/' && c != '=' && c != '$'

theorem lexeme_symbol {c : Char} (h : standsAlone c = true) (rest : List Char) :
    Lexeme (.symbol c) [c] rest := by
  simp only [standsAlone, Bool.and_eq_true, bne_iff_ne] at h
  obtain ⟨⟨⟨plain, slash⟩, equals⟩, dollar⟩ := h
  refine .symbol plain ?_
  cases rest <;> simp [joins, slash, equals, dollar]

theorem quotable_of_plain {quote : Char} {cs : List Char}
    (h : ∀ c ∈ cs, c ≠ '\\' ∧ c ≠ quote) : Quotable quote cs := by
  induction cs with
  | nil => exact .nil
  | cons c cs ih =>
    obtain ⟨hs, hq⟩ := h c (by simp)
    exact .plain hs hq (ih fun x hx => h x (by simp [hx]))

theorem lexeme_repr {n : Nat} (hn : (n : Int) ≤ maxInt) (hr : Halts Char.isDigit rest)
    (hf : startsFraction rest = false) : Lexeme (.int n) n.repr.toList rest := by
  have digits : ∀ x ∈ Nat.toDigits 10 n, x.isDigit = true := fun x hx =>
    Nat.isDigit_of_mem_toDigits (by decide) (by decide) hx
  have value : ofDigits (Nat.toDigits 10 n) = .int n := by
    have same : digitsValue (Nat.toDigits 10 n) = n := Nat.ofDigitChars_ten_toDigits
    simp [ofDigits, same, hn]
  rw [Nat.toList_repr, ← value]
  obtain ⟨c, cs, hcs⟩ := List.exists_cons_of_ne_nil (Nat.toDigits_ne_nil : Nat.toDigits 10 n ≠ [])
  rw [hcs] at digits ⊢
  exact .integer digits hr hf

theorem lexeme_space (hr : Halts isBlank rest) : Lexeme .whitespace [' '] rest :=
  .whitespace (by simpa using isBlank_space) hr

theorem lexeme_of_blank {kind : TokenKind} {b : Char} {text : List Char}
    (hb : isBlank b = true) (h : Lexeme kind (b :: text) rest) :
    kind = .whitespace ∧ (∀ x ∈ text, isBlank x = true) ∧ Halts isBlank rest := by
  have word := isWordStart_of_isBlank hb
  have digit := isDigit_of_isBlank hb
  cases h with
  | whitespace h hr => exact ⟨rfl, fun x hx => h x (by simp [hx]), hr⟩
  | quoted hq _ =>
    simp only [isQuote, Bool.or_eq_true, decide_eq_true_eq] at hq
    rcases hq with rfl | rfl <;> simp [isBlank] at hb
  | integer hd _ _ => simp [digit] at hd
  | decimal hd _ _ => simp [digit] at hd
  | word hw _ _ => simp [word] at hw
  | symbol hp _ => simp [isPlain, hb] at hp
  | _ => exact absurd hb (by decide)

section Blank

variable {b : Char} (hb : isBlank b = true)

include hb

theorem startsFraction_append_blank {cs : List Char} (h : startsFraction cs = false)
    (more : List Char) : startsFraction (cs ++ b :: more) = false := by
  match cs with
  | [] => simp [startsFraction, ne_of_isBlank hb (show isBlank '.' = false by decide)]
  | [c] =>
    by_cases hc : c = '.'
    · simp [hc, startsFraction, isDigit_of_isBlank hb]
    · simp [startsFraction, hc]
  | c :: d :: cs =>
    by_cases hc : c = '.'
    · simpa [hc, startsFraction] using h
    · simp [startsFraction, hc]

theorem joins_append_blank {c : Char} {cs : List Char} (h : joins c cs = false)
    (more : List Char) : joins c (cs ++ b :: more) = false := by
  cases cs with
  | nil =>
    have slash := ne_of_isBlank hb (show isBlank '/' = false by decide)
    have star := ne_of_isBlank hb (show isBlank '*' = false by decide)
    have angle := ne_of_isBlank hb (show isBlank '>' = false by decide)
    simp [joins, slash, star, angle, isWordStart_of_isBlank hb]
  | cons d cs => simpa [joins] using h

theorem Lexeme.append_blank {kind : TokenKind} {text rest : List Char}
    (h : Lexeme kind text rest) (hc : kind = .comment → b = '\n')
    (hw : rest = [] → kind ≠ .whitespace) (more : List Char) :
    Lexeme kind text (rest ++ b :: more) := by
  have word : isWordChar b = false := isWordChar_of_isBlank hb
  have digit : b.isDigit = false := isDigit_of_isBlank hb
  cases h with
  | whitespace h hr =>
    refine .whitespace h ?_
    cases rest with
    | nil => exact absurd rfl (hw rfl)
    | cons c rest => exact halts_cons.mpr (halts_cons.mp hr)
  | hashComment h hr => exact .hashComment h (hr.append_cons (by simp [hc rfl]) more)
  | lineComment h hr => exact .lineComment h (hr.append_cons (by simp [hc rfl]) more)
  | blockComment h => exact .blockComment h
  | quoted hq h => exact .quoted hq h
  | integer h hr hf =>
    exact .integer h (hr.append_cons digit more) (startsFraction_append_blank hb hf more)
  | decimal h he hr => exact .decimal h he (hr.append_cons digit more)
  | word hs h hr => exact .word hs h (hr.append_cons word more)
  | var hs h hr => exact .var hs h (hr.append_cons word more)
  | separator => exact .separator
  | arrow => exact .arrow
  | symbol hp hj => exact .symbol hp (joins_append_blank hb hj more)

end Blank

theorem ofDigits_ne_whitespace (digits : List Char) : ofDigits digits ≠ .whitespace := by
  rw [ofDigits]
  split <;> simp

theorem Lexeme.isBlank_of_whitespace {kind : TokenKind} {text rest : List Char}
    (h : Lexeme kind text rest) (hk : kind = .whitespace) : ∀ x ∈ text, isBlank x = true := by
  cases h with
  | whitespace h _ => exact h
  | integer => exact absurd hk (ofDigits_ne_whitespace _)
  | _ => cases hk

theorem Lexeme.ne_whitespace_of_end {kind : TokenKind} {text rest : List Char}
    (h : Lexeme kind text rest) (hend : Halts isBlank text.reverse) : kind ≠ .whitespace := by
  intro hk
  have blank := h.isBlank_of_whitespace hk
  cases hr : text.reverse with
  | nil => exact h.ne_nil (by simpa using hr)
  | cons c cs =>
    rw [hr, halts_cons] at hend
    have last : c ∈ text := by
      rw [← List.mem_reverse, hr]
      simp
    rw [blank c last] at hend
    cases hend

end Token

end Datatypes
