import Mathlib.Data.List.Infix
import Mathlib.Data.List.TakeWhile
import Datatypes.Token.Lexer

/-!
The lexical grammar, stated apart from the reader: `Lexeme kind text rest` says that the first
token of `text ++ rest` is `text`. The reader finds exactly these tokens, and it fails exactly
where a quotation or a comment is opened and never closed.
-/

namespace Datatypes

namespace Text

def blankCodes : List Nat :=
  [9, 10, 11, 12, 13, 32, 0x85, 0xA0, 0x1680, 0x2000, 0x2001, 0x2002, 0x2003, 0x2004, 0x2005,
    0x2006, 0x2007, 0x2008, 0x2009, 0x200A, 0x2028, 0x2029, 0x202F, 0x205F, 0x3000]

theorem toNat_mem_blankCodes {c : Char} (h : isBlank c = true) : c.toNat ∈ blankCodes := by
  simp only [isBlank, inRanges, Bool.or_eq_true, Bool.and_eq_true, decide_eq_true_eq,
    List.any_cons, List.any_nil, Bool.or_false] at h
  have val_eq : c.val.toNat = c.toNat := rfl
  simp only [Char.le_def, UInt32.le_iff_toNat_le, val_eq] at h
  simp only [blankCodes, List.mem_cons, List.not_mem_nil, or_false]
  rcases h with (rfl | h) | h
  · decide
  · have low : '\t'.val.toNat = 9 := rfl
    have high : '\r'.val.toNat = 13 := rfl
    omega
  · omega

theorem isWordChar_of_isBlank {c : Char} (h : isBlank c = true) : isWordChar c = false := by
  have table : ∀ n ∈ blankCodes, isWordChar (Char.ofNat n) = false := by decide +kernel
  simpa using table c.toNat (toNat_mem_blankCodes h)

theorem isDigit_of_isBlank {c : Char} (h : isBlank c = true) : c.isDigit = false := by
  have table : ∀ n ∈ blankCodes, (Char.ofNat n).isDigit = false := by decide +kernel
  simpa using table c.toNat (toNat_mem_blankCodes h)

theorem isWordStart_of_isDigit {c : Char} (h : c.isDigit = true) : isWordStart c = false := by
  have table : ∀ n ∈ List.range 58, isWordStart (Char.ofNat n) = false := by decide +kernel
  have bound : c.toNat ∈ List.range 58 := by
    simp only [Char.isDigit, Bool.and_eq_true, decide_eq_true_eq, UInt32.le_iff_toNat_le] at h
    have val_eq : c.val.toNat = c.toNat := rfl
    have nine : '9'.val.toNat = 57 := rfl
    rw [List.mem_range]
    omega
  simpa using table c.toNat bound

theorem isBlank_of_isWordStart {c : Char} (h : isWordStart c = true) : isBlank c = false := by
  by_contra hb
  have := isWordChar_of_isBlank (by simpa using hb)
  rw [isWordChar_of_isWordStart h] at this
  contradiction

theorem isDigit_of_isWordStart {c : Char} (h : isWordStart c = true) : c.isDigit = false := by
  by_contra hd
  rw [isWordStart_of_isDigit (by simpa using hd)] at h
  contradiction

def Halts (p : Char → Bool) (cs : List Char) : Prop := ∀ c ∈ cs.head?, p c = false

theorem halts_nil (p : Char → Bool) : Halts p [] := by simp [Halts]

theorem halts_cons {p : Char → Bool} {c : Char} {cs : List Char} :
    Halts p (c :: cs) ↔ p c = false := by simp [Halts]

theorem takeWhile_append_of_halts {p : Char → Bool} {cs rest : List Char}
    (h : ∀ c ∈ cs, p c = true) (hr : Halts p rest) : (cs ++ rest).takeWhile p = cs := by
  rw [List.takeWhile_append_of_pos h]
  cases rest with
  | nil => simp
  | cons c rest => simp [halts_cons.mp hr]

theorem dropWhile_append_of_halts {p : Char → Bool} {cs rest : List Char}
    (h : ∀ c ∈ cs, p c = true) (hr : Halts p rest) : (cs ++ rest).dropWhile p = rest := by
  rw [List.dropWhile_append_of_pos h]
  cases rest with
  | nil => simp
  | cons c rest => simp [halts_cons.mp hr]

theorem append_inj_of_halts {p : Char → Bool} {xs ys rest rest' : List Char}
    (hx : ∀ c ∈ xs, p c = true) (hy : ∀ c ∈ ys, p c = true) (hr : Halts p rest)
    (hr' : Halts p rest') (h : xs ++ rest = ys ++ rest') : xs = ys ∧ rest = rest' := by
  have front := congrArg (List.takeWhile p) h
  have back := congrArg (List.dropWhile p) h
  rw [takeWhile_append_of_halts hx hr, takeWhile_append_of_halts hy hr'] at front
  rw [dropWhile_append_of_halts hx hr, dropWhile_append_of_halts hy hr'] at back
  exact ⟨front, back⟩

theorem halts_dropWhile (p : Char → Bool) (cs : List Char) : Halts p (cs.dropWhile p) := by
  intro c hc
  have := List.head?_dropWhile_not p cs
  rw [hc] at this
  simpa using this

end Text

namespace Token

open Text

/-- What a quotation can hold: a backslash takes the character after it along, and the quote
itself stands only after a backslash. -/
inductive Quotable (quote : Char) : List Char → Prop
  | nil : Quotable quote []
  | plain {c : Char} {cs : List Char} :
      c ≠ '\\' → c ≠ quote → Quotable quote cs → Quotable quote (c :: cs)
  | escaped {c : Char} {cs : List Char} : Quotable quote cs → Quotable quote ('\\' :: c :: cs)

def isQuote (c : Char) : Bool := c = '"' || c = '\''

def startsFraction : List Char → Bool
  | '.' :: d :: _ => d.isDigit
  | _ => false

def isPlain (c : Char) : Bool :=
  !isBlank c && c != '#' && !isQuote c && !c.isDigit && !isWordStart c && c != '\\'

def joins (c : Char) : List Char → Bool
  | [] => false
  | d :: _ => c = '/' && (d = '/' || d = '*') || c = '=' && d = '>' || c = '$' && isWordStart d

inductive Lexeme : TokenKind → List Char → List Char → Prop
  | whitespace {c : Char} {cs rest : List Char} :
      (∀ x ∈ c :: cs, isBlank x = true) → Halts isBlank rest → Lexeme .whitespace (c :: cs) rest
  | hashComment {cs rest : List Char} :
      '\n' ∉ cs → Halts (· != '\n') rest → Lexeme .comment ('#' :: cs) rest
  | lineComment {cs rest : List Char} :
      '\n' ∉ cs → Halts (· != '\n') rest → Lexeme .comment ('/' :: '/' :: cs) rest
  | blockComment {body rest : List Char} :
      ¬ ['*', '/'] <:+: body → Lexeme .comment ('/' :: '*' :: (body ++ ['*', '/'])) rest
  | quoted {quote : Char} {body rest : List Char} :
      isQuote quote = true → Quotable quote body →
      Lexeme (.quoted (String.ofList body)) (quote :: (body ++ [quote])) rest
  | integer {d : Char} {ds rest : List Char} :
      (∀ x ∈ d :: ds, x.isDigit = true) → Halts Char.isDigit rest → startsFraction rest = false →
      Lexeme (ofDigits (d :: ds)) (d :: ds) rest
  | decimal {d e : Char} {ds es rest : List Char} :
      (∀ x ∈ d :: ds, x.isDigit = true) → (∀ x ∈ e :: es, x.isDigit = true) →
      Halts Char.isDigit rest →
      Lexeme (.decimal (String.ofList (d :: (ds ++ '.' :: e :: es)))) (d :: (ds ++ '.' :: e :: es))
        rest
  | word {c : Char} {cs rest : List Char} :
      isWordStart c = true → (∀ x ∈ cs, isWordChar x = true) → Halts isWordChar rest →
      Lexeme (.word (String.ofList (c :: cs))) (c :: cs) rest
  | var {c : Char} {cs rest : List Char} :
      isWordStart c = true → (∀ x ∈ cs, isWordChar x = true) → Halts isWordChar rest →
      Lexeme (.var (String.ofList (c :: cs))) ('$' :: c :: cs) rest
  | separator {rest : List Char} : Lexeme .separator ['\\'] rest
  | arrow {rest : List Char} : Lexeme .arrow ['=', '>'] rest
  | symbol {c : Char} {rest : List Char} :
      isPlain c = true → joins c rest = false → Lexeme (.symbol c) [c] rest

theorem endMark_prefix_iff {c : Char} {cs : List Char} :
    ['*', '/'] <+: c :: cs ↔ c = '*' ∧ ∃ rest, cs = '/' :: rest := by
  rw [List.cons_prefix_cons, List.prefix_iff_eq_append]
  cases cs with
  | nil => simp
  | cons d cs => simp [eq_comm]

theorem lineAfter_add (line : Nat) (c : Char) (cs : List Char) :
    lineAfter line c + cs.count '\n' = line + (c :: cs).count '\n' := by
  rw [lineAfter, List.count_cons]
  by_cases hc : c = '\n'
  · simp only [hc, if_true, beq_self_eq_true]
    omega
  · simp [hc]

theorem splitBlank_eq (line : Nat) (cs : List Char) :
    splitBlank line cs = ⟨cs.takeWhile isBlank, cs.dropWhile isBlank,
      line + (cs.takeWhile isBlank).count '\n'⟩ := by
  induction cs generalizing line with
  | nil => rfl
  | cons c cs ih =>
    cases hc : isBlank c with
    | true => simp [splitBlank, Span.push, hc, ih, lineAfter_add]
    | false => simp [splitBlank, hc]

theorem splitComment_eq_none_iff {line : Nat} {cs : List Char} :
    splitComment line cs = none ↔ ¬ ['*', '/'] <:+: cs := by
  fun_induction splitComment line cs with
  | case1 => simp
  | case2 line r => simp [List.infix_cons_iff]
  | case3 line c r hc ih =>
    have start : ¬ ['*', '/'] <+: c :: r := by
      rw [endMark_prefix_iff]
      rintro ⟨rfl, rest, rfl⟩
      exact hc rest rfl rfl
    simp [ih, List.infix_cons_iff, start]

theorem splitComment_eq_some_iff {line : Nat} {cs : List Char} {s : Span} :
    splitComment line cs = some s ↔
      ∃ body rest, ¬ ['*', '/'] <:+: body ∧ cs = body ++ '*' :: '/' :: rest ∧
        s = ⟨body ++ ['*', '/'], rest, line + body.count '\n'⟩ := by
  constructor
  · intro h
    fun_induction splitComment line cs generalizing s with
    | case1 => cases h
    | case2 line r =>
      cases h
      exact ⟨[], r, by simp, rfl, rfl⟩
    | case3 line c r hc ih =>
      obtain ⟨inner, hr, rfl⟩ := Option.map_eq_some_iff.mp h
      obtain ⟨body, rest, hbody, rfl, rfl⟩ := ih hr
      refine ⟨c :: body, rest, ?_, rfl, ?_⟩
      · rw [List.infix_cons_iff, not_or, endMark_prefix_iff]
        refine ⟨?_, hbody⟩
        rintro ⟨rfl, b, rfl⟩
        exact hc (b ++ '*' :: '/' :: rest) rfl rfl
      · simp [Span.push, lineAfter_add]
  · rintro ⟨body, rest, h, rfl, rfl⟩
    induction body generalizing line with
    | nil => simp [splitComment]
    | cons c body ih =>
      rw [List.infix_cons_iff, not_or, endMark_prefix_iff] at h
      rw [List.cons_append, splitComment, ih h.2]
      · simp [Span.push, lineAfter_add]
      · rintro r rfl hr
        cases body with
        | nil => simp at hr
        | cons d body =>
          rw [List.cons_append, List.cons.injEq] at hr
          exact h.1 ⟨rfl, body, by rw [hr.1]⟩

theorem splitQuotation_eq_some_iff {quote : Char} (hq : quote ≠ '\\') {line : Nat}
    {cs : List Char} {s : Span} :
    splitQuotation quote line cs = some s ↔
      ∃ body rest, Quotable quote body ∧ cs = body ++ quote :: rest ∧
        s = ⟨body, rest, line + body.count '\n'⟩ := by
  constructor
  · intro h
    fun_induction splitQuotation quote line cs generalizing s with
    | case1 => cases h
    | case2 line c r ih =>
      obtain ⟨inner, hr, rfl⟩ := Option.map_eq_some_iff.mp h
      obtain ⟨body, rest, hbody, rfl, rfl⟩ := ih hr
      exact ⟨'\\' :: c :: body, rest, .escaped hbody, rfl, by simp [Span.push, lineAfter_add]⟩
    | case3 line r _ =>
      cases h
      exact ⟨[], r, .nil, rfl, rfl⟩
    | case4 line c r hc hne ih =>
      obtain ⟨inner, hr, rfl⟩ := Option.map_eq_some_iff.mp h
      obtain ⟨body, rest, hbody, rfl, rfl⟩ := ih hr
      refine ⟨c :: body, rest, .plain ?_ hne hbody, rfl, by simp [Span.push, lineAfter_add]⟩
      rintro rfl
      -- A backslash is followed by a character, since the quotation closes behind it.
      cases body with
      | nil => exact hc quote rest rfl rfl
      | cons d body => exact hc d (body ++ quote :: rest) rfl rfl
  · rintro ⟨body, rest, h, rfl, rfl⟩
    induction h generalizing line with
    | nil => cases rest <;> simp [splitQuotation, hq]
    | @plain c cs hc hne h ih =>
      rw [List.cons_append, splitQuotation, if_neg hne, ih]
      · simp [Span.push, lineAfter_add]
      · rintro d r rfl
        exact absurd rfl hc
    | escaped h ih => simp [splitQuotation, ih, Span.push, lineAfter_add]

theorem lexeme_splitNumber {d : Char} (hd : d.isDigit = true) (cs : List Char) :
    Lexeme (splitNumber d cs).1 (d :: (splitNumber d cs).2.1) (splitNumber d cs).2.2 := by
  have whole : ∀ x ∈ d :: cs.takeWhile Char.isDigit, x.isDigit = true := by
    intro x hx
    rcases List.mem_cons.mp hx with rfl | hx
    · exact hd
    · exact List.mem_takeWhile_imp hx
  have halts := halts_dropWhile Char.isDigit cs
  unfold splitNumber
  split
  · next e r heq =>
    rw [heq] at halts
    split
    · next he =>
      refine .decimal whole ?_ (halts_dropWhile _ r)
      intro x hx
      rcases List.mem_cons.mp hx with rfl | hx
      · exact he
      · exact List.mem_takeWhile_imp hx
    · next he => exact .integer whole halts (by simpa [startsFraction] using he)
  · next hne =>
    refine .integer whole halts ?_
    unfold startsFraction
    split
    · next e r heq => exact absurd heq (hne e r)
    · rfl

theorem splitNumber_integer {d : Char} {ds rest : List Char} (h : ∀ x ∈ ds, x.isDigit = true)
    (hr : Halts Char.isDigit rest) (hf : startsFraction rest = false) :
    splitNumber d (ds ++ rest) = (ofDigits (d :: ds), ds, rest) := by
  simp only [splitNumber, takeWhile_append_of_halts h hr, dropWhile_append_of_halts h hr]
  split
  · next e r => rw [if_neg (by simpa [startsFraction] using hf)]
  · rfl

theorem splitNumber_decimal {d e : Char} {ds es rest : List Char}
    (h : ∀ x ∈ ds, x.isDigit = true) (he : e.isDigit = true) (hes : ∀ x ∈ es, x.isDigit = true)
    (hr : Halts Char.isDigit rest) :
    splitNumber d (ds ++ '.' :: e :: es ++ rest) =
      (.decimal (String.ofList (d :: (ds ++ '.' :: e :: es))), ds ++ '.' :: e :: es, rest) := by
  have halts : Halts Char.isDigit ('.' :: e :: (es ++ rest)) := halts_cons.mpr (by decide)
  simp only [splitNumber, List.append_assoc, List.cons_append, takeWhile_append_of_halts h halts,
    dropWhile_append_of_halts h halts, he, if_true, takeWhile_append_of_halts hes hr,
    dropWhile_append_of_halts hes hr]

theorem isPlain_eq_true_iff {c : Char} :
    isPlain c = true ↔ isBlank c = false ∧ c ≠ '#' ∧ isQuote c = false ∧ c.isDigit = false ∧
      isWordStart c = false ∧ c ≠ '\\' := by
  simp [isPlain, and_assoc]

theorem newline_not_mem {cs : List Char} : '\n' ∉ cs.takeWhile (· != '\n') := by
  intro h
  simpa using List.mem_takeWhile_imp h

theorem all_ne_newline {cs : List Char} (h : '\n' ∉ cs) : ∀ x ∈ cs, (x != '\n') = true := by
  intro x hx
  rw [bne_iff_ne]
  rintro rfl
  exact h hx

section Grammar

variable {line : Nat} {c : Char} {cs : List Char} {kind : TokenKind} {s : Span}

theorem lexeme_of_lexeme_eq_ok (h : lexeme line c cs = .ok (kind, s)) :
    Lexeme kind (c :: s.taken) s.rest := by
  unfold lexeme at h
  split at h
  · next hc =>
    cases h
    rw [splitBlank_eq]
    refine .whitespace ?_ (halts_dropWhile _ _)
    intro x hx
    rcases List.mem_cons.mp hx with rfl | hx
    · exact hc
    · exact List.mem_takeWhile_imp hx
  next hblank =>
  split at h
  · next hc =>
    cases h
    simp only [Bool.or_eq_true, decide_eq_true_eq, Bool.and_eq_true, List.head?_eq_some_iff] at hc
    rcases hc with rfl | ⟨rfl, r, rfl⟩
    · exact .hashComment newline_not_mem (halts_dropWhile _ _)
    · exact .lineComment newline_not_mem (halts_dropWhile _ _)
  next hline =>
  split at h
  · next hc =>
    simp only [Bool.and_eq_true, decide_eq_true_eq, List.head?_eq_some_iff] at hc
    obtain ⟨rfl, r, rfl⟩ := hc
    split at h
    · next hs =>
      cases h
      obtain ⟨body, rest, hbody, -, rfl⟩ := splitComment_eq_some_iff.mp hs
      exact .blockComment hbody
    · cases h
  next hblock =>
  split at h
  · next hc =>
    have hquote : isQuote c = true := hc
    split at h
    · next hs =>
      cases h
      have hne : c ≠ '\\' := by
        rintro rfl
        simp [isQuote] at hquote
      obtain ⟨body, rest, hbody, -, rfl⟩ := (splitQuotation_eq_some_iff hne).mp hs
      exact .quoted hquote hbody
    · cases h
  next hquote =>
  split at h
  · next hd =>
    cases h
    exact lexeme_splitNumber hd cs
  next hdigit =>
  split at h
  · next hw =>
    cases h
    exact .word hw (fun x hx => List.mem_takeWhile_imp hx) (halts_dropWhile _ _)
  next hword =>
  split at h
  · next hc =>
    simp only [Bool.and_eq_true, decide_eq_true_eq, Option.any_eq_true] at hc
    obtain ⟨rfl, x, hx, hw⟩ := hc
    obtain ⟨r, rfl⟩ := List.head?_eq_some_iff.mp hx
    cases h
    rw [List.takeWhile_cons_of_pos (isWordChar_of_isWordStart hw),
      List.dropWhile_cons_of_pos (isWordChar_of_isWordStart hw)]
    exact .var hw (fun x hx => List.mem_takeWhile_imp hx) (halts_dropWhile _ _)
  next hvar =>
  split at h
  · next hc =>
    cases h
    rw [hc]
    exact .separator
  next hsep =>
  split at h
  · next hc =>
    simp only [Bool.and_eq_true, decide_eq_true_eq, List.head?_eq_some_iff] at hc
    obtain ⟨rfl, r, rfl⟩ := hc
    cases h
    exact .arrow
  next harrow =>
  cases h
  refine .symbol ?_ ?_
  · simp_all [isPlain, isQuote]
  · cases cs with
    | nil => rfl
    | cons d cs =>
      simp only [List.head?_cons, Option.some.injEq, Option.any_some] at hline hblock hvar harrow
      simp_all [joins]

theorem lexeme_digit {d : Char} (hd : d.isDigit = true) (line : Nat) (cs : List Char) :
    lexeme line d cs =
      .ok ((splitNumber d cs).1, ⟨(splitNumber d cs).2.1, (splitNumber d cs).2.2, line⟩) := by
  have hb : isBlank d = false := by
    by_contra hb
    rw [isDigit_of_isBlank (by simpa using hb)] at hd
    contradiction
  have ne (x : Char) (hx : x.isDigit = false) : d ≠ x := by
    rintro rfl
    simp [hd] at hx
  simp [lexeme, hb, hd, ne '#' (by decide), ne '/' (by decide), ne '"' (by decide),
    ne '\'' (by decide)]

theorem count_newline_of_class {p : Char → Bool} (hp : p '\n' = false)
    (h : ∀ x ∈ cs, p x = true) : cs.count '\n' = 0 := by
  rw [List.count_eq_zero]
  intro hmem
  simp [h '\n' hmem] at hp

theorem lexeme_eq_ok_of_lexeme {tail rest : List Char} (line : Nat)
    (h : Lexeme kind (c :: tail) rest) :
    lexeme line c (tail ++ rest) = .ok (kind, ⟨tail, rest, line + (c :: tail).count '\n'⟩) := by
  cases h with
  | whitespace h hr =>
    have tail_blank : ∀ x ∈ tail, isBlank x = true := fun x hx => h x (by simp [hx])
    simp [lexeme, h c, splitBlank_eq, takeWhile_append_of_halts tail_blank hr,
      dropWhile_append_of_halts tail_blank hr, lineAfter_add]
  | hashComment h hr =>
    have letters := all_ne_newline h
    simp [lexeme, takeWhile_append_of_halts letters hr, dropWhile_append_of_halts letters hr,
      show isBlank '#' = false by decide, List.count_eq_zero.mpr h]
  | @lineComment cs _ h hr =>
    have slash : '\n' ∉ '/' :: cs := List.not_mem_cons_of_ne_of_not_mem (by decide) h
    have letters := all_ne_newline slash
    simp only [lexeme, takeWhile_append_of_halts letters hr, dropWhile_append_of_halts letters hr]
    simp [show isBlank '/' = false by decide, List.count_eq_zero.mpr h]
  | @blockComment body _ h =>
    have split : splitComment line (body ++ '*' :: '/' :: rest) =
        some ⟨body ++ ['*', '/'], rest, line + body.count '\n'⟩ :=
      splitComment_eq_some_iff.mpr ⟨body, rest, h, rfl, rfl⟩
    simp [lexeme, show isBlank '/' = false by decide, split, Span.push]
  | @quoted _ body _ hq h =>
    have hne : c ≠ '\\' := by
      rintro rfl
      simp [isQuote] at hq
    have split : splitQuotation c line (body ++ c :: rest) =
        some ⟨body, rest, line + body.count '\n'⟩ :=
      (splitQuotation_eq_some_iff hne).mpr ⟨body, rest, h, rfl, rfl⟩
    simp only [isQuote, Bool.or_eq_true, decide_eq_true_eq] at hq
    rcases hq with rfl | rfl
    · simp [lexeme, show isBlank '"' = false by decide, split]
    · simp [lexeme, show isBlank '\'' = false by decide, split]
  | integer h hr hf =>
    have tail_digits : ∀ x ∈ tail, x.isDigit = true := fun x hx => h x (by simp [hx])
    rw [lexeme_digit (h c (by simp)), splitNumber_integer tail_digits hr hf,
      count_newline_of_class (by decide) h]
    rfl
  | @decimal _ e ds es _ h he hr =>
    have whole : ∀ x ∈ ds, x.isDigit = true := fun x hx => h x (by simp [hx])
    have fraction : ∀ x ∈ es, x.isDigit = true := fun x hx => he x (by simp [hx])
    have digits := count_newline_of_class (by decide) h
    have more := count_newline_of_class (by decide) he
    rw [lexeme_digit (h c (by simp)), splitNumber_decimal whole (he e (by simp)) fraction hr]
    simp_all [List.count_cons]
  | word hc h hr =>
    have ne (d : Char) (hd : isWordStart d = false) : c ≠ d := by
      rintro rfl
      simp [hc] at hd
    simp [lexeme, hc, isBlank_of_isWordStart hc, isDigit_of_isWordStart hc,
      takeWhile_append_of_halts h hr, dropWhile_append_of_halts h hr, ne '#' (by decide),
      ne '/' (by decide), ne '"' (by decide), ne '\'' (by decide), ne '\n' (by decide),
      count_newline_of_class (by decide) h]
  | @var c cs _ hc h hr =>
    have name : ∀ x ∈ c :: cs, isWordChar x = true := by
      intro x hx
      rcases List.mem_cons.mp hx with rfl | hx
      · exact isWordChar_of_isWordStart hc
      · exact h x hx
    have dollar : ('$' :: c :: cs).count '\n' = 0 := by
      rw [List.count_cons_of_ne (by decide), count_newline_of_class (by decide) name]
    simp only [lexeme, takeWhile_append_of_halts name hr, dropWhile_append_of_halts name hr,
      dollar]
    simp [show isBlank '$' = false by decide, show isWordStart '$' = false by decide, hc]
  | separator =>
    simp [lexeme, show isBlank '\\' = false by decide, show isWordStart '\\' = false by decide]
  | arrow =>
    simp [lexeme, show isBlank '=' = false by decide, show isWordStart '=' = false by decide]
  | symbol hc hj =>
    obtain ⟨hb, hh, hq, hd, hw, hs⟩ := isPlain_eq_true_iff.mp hc
    simp only [isQuote, Bool.or_eq_false_iff, decide_eq_false_iff_not] at hq
    have newline : c ≠ '\n' := by
      rintro rfl
      simp [show isBlank '\n' = true by decide] at hb
    cases rest with
    | nil => simp [lexeme, hb, hh, hq, hd, hw, hs, newline]
    | cons d rest =>
      simp only [joins, Bool.or_eq_false_iff, Bool.and_eq_false_imp, decide_eq_true_eq,
        decide_eq_false_iff_not] at hj
      obtain ⟨⟨slash, equals⟩, dollar⟩ := hj
      have line : ¬ (c = '/' ∧ d = '/') := fun h => (slash h.1).1 h.2
      have block : ¬ (c = '/' ∧ d = '*') := fun h => (slash h.1).2 h.2
      have name : ¬ (c = '$' ∧ isWordStart d = true) := fun h => by simp [dollar h.1] at h
      have arrow : ¬ (c = '=' ∧ d = '>') := fun h => equals h.1 h.2
      simp [lexeme, hb, hh, hq, hd, hw, hs, line, block, name, arrow, newline]

theorem lexeme_eq_ok_iff :
    lexeme line c cs = .ok (kind, s) ↔
      s.taken ++ s.rest = cs ∧ Lexeme kind (c :: s.taken) s.rest ∧
        s.line = line + (c :: s.taken).count '\n' := by
  constructor
  · intro h
    have lexeme := lexeme_of_lexeme_eq_ok h
    refine ⟨lexeme_append h, lexeme, ?_⟩
    have again := lexeme_eq_ok_of_lexeme line lexeme
    rw [lexeme_append h, h] at again
    exact congrArg (·.2.line) (Except.ok.inj again)
  · rintro ⟨rfl, h, hline⟩
    rw [lexeme_eq_ok_of_lexeme line h, ← hline]

end Grammar

/-- The text starts with a mark that opens what nothing in the text closes. -/
inductive Opens : Unclosed → List Char → Prop
  | comment {cs : List Char} : ¬ ['*', '/'] <:+: cs → Opens .comment ('/' :: '*' :: cs)
  | quotation {quote : Char} {cs : List Char} :
      isQuote quote = true → (∀ body rest, Quotable quote body → cs ≠ body ++ quote :: rest) →
      Opens .quotation (quote :: cs)

theorem opens_of_lexeme_eq_error {line : Nat} {c : Char} {cs : List Char} {what : Unclosed}
    (h : lexeme line c cs = .error what) : Opens what (c :: cs) := by
  unfold lexeme at h
  split at h
  · cases h
  split at h
  · cases h
  split at h
  · next hc =>
    simp only [Bool.and_eq_true, decide_eq_true_eq, List.head?_eq_some_iff] at hc
    obtain ⟨rfl, r, rfl⟩ := hc
    split at h
    · cases h
    · next hs =>
      cases h
      exact .comment (splitComment_eq_none_iff.mp hs)
  split at h
  · next hc =>
    have hquote : isQuote c = true := hc
    split at h
    · cases h
    · next hs =>
      cases h
      refine .quotation hquote ?_
      rintro body rest hbody rfl
      have hne : c ≠ '\\' := by
        rintro rfl
        simp [isQuote] at hquote
      rw [(splitQuotation_eq_some_iff hne).mpr ⟨body, rest, hbody, rfl, rfl⟩] at hs
      cases hs
  -- None of the remaining classes is delimited at its end.
  repeat' split at h
  all_goals cases h

end Token

end Datatypes
