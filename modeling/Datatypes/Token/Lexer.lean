import Datatypes.Text.Class
import Datatypes.Text.Digits
import Datatypes.Token

/-!
Reading tokens. `lexeme` takes the first token off a text and gives back what follows it;
`lex` repeats that to the end. Nothing of the text is lost: a lexeme and its rest are the text
they were taken from, which is also why the repetition ends.
-/

namespace Datatypes

inductive Unclosed where
  | comment
  | quotation
deriving DecidableEq, Repr

structure LexError where
  line : Nat
  unclosed : Unclosed
deriving DecidableEq, Repr

namespace Token

def maxInt : Int := 9223372036854775807

def ofDigits (digits : List Char) : TokenKind :=
  let n := Text.digitsValue digits
  if (n : Int) ≤ maxInt then .int n else .decimal (String.ofList digits)

structure Span where
  taken : List Char
  rest : List Char
  line : Nat
deriving DecidableEq, Repr

def Span.push (c : Char) (s : Span) : Span := { s with taken := c :: s.taken }

def lineAfter (line : Nat) (c : Char) : Nat := if c = '\n' then line + 1 else line

def splitBlank (line : Nat) : List Char → Span
  | [] => ⟨[], [], line⟩
  | c :: rest =>
    if Text.isBlank c then (splitBlank (lineAfter line c) rest).push c else ⟨[], c :: rest, line⟩

def splitComment (line : Nat) : List Char → Option Span
  | [] => none
  | '*' :: '/' :: rest => some ⟨['*', '/'], rest, line⟩
  | c :: rest => (splitComment (lineAfter line c) rest).map (.push c)

/-- Splits a quotation, opened already, at its closing quote, which is dropped. A backslash
takes the character after it along. -/
def splitQuotation (quote : Char) (line : Nat) : List Char → Option Span
  | [] => none
  | '\\' :: c :: rest =>
    (splitQuotation quote (lineAfter line c) rest).map fun s => (s.push c).push '\\'
  | c :: rest =>
    if c = quote then some ⟨[], rest, line⟩
    else (splitQuotation quote (lineAfter line c) rest).map (.push c)

def splitNumber (c : Char) (cs : List Char) : TokenKind × List Char × List Char :=
  let whole := cs.takeWhile Char.isDigit
  match cs.dropWhile Char.isDigit with
  | '.' :: d :: rest =>
    if d.isDigit then
      let tail := whole ++ '.' :: d :: rest.takeWhile Char.isDigit
      (.decimal (String.ofList (c :: tail)), tail, rest.dropWhile Char.isDigit)
    else (ofDigits (c :: whole), whole, '.' :: d :: rest)
  | rest => (ofDigits (c :: whole), whole, rest)

/-- The first token of the text `c :: cs`, which starts on the given line: its kind, and what it
takes from `cs`. Only white space, block comments and quotations go on to further lines. -/
def lexeme (line : Nat) (c : Char) (cs : List Char) : Except Unclosed (TokenKind × Span) :=
  if Text.isBlank c then .ok (.whitespace, splitBlank (lineAfter line c) cs)
  else if c = '#' || (c = '/' && cs.head? = some '/') then
    .ok (.comment, ⟨cs.takeWhile (· != '\n'), cs.dropWhile (· != '\n'), line⟩)
  else if c = '/' && cs.head? = some '*' then
    match splitComment line cs.tail with
    | some s => .ok (.comment, s.push '*')
    | none => .error .comment
  else if c = '"' || c = '\'' then
    match splitQuotation c line cs with
    | some s => .ok (.quoted (String.ofList s.taken), ⟨s.taken ++ [c], s.rest, s.line⟩)
    | none => .error .quotation
  else if c.isDigit then
    let (kind, taken, rest) := splitNumber c cs
    .ok (kind, ⟨taken, rest, line⟩)
  else if Text.isWordStart c then
    .ok (.word (String.ofList (c :: cs.takeWhile Text.isWordChar)),
      ⟨cs.takeWhile Text.isWordChar, cs.dropWhile Text.isWordChar, line⟩)
  else if c = '$' && cs.head?.any Text.isWordStart then
    .ok (.var (String.ofList (cs.takeWhile Text.isWordChar)),
      ⟨cs.takeWhile Text.isWordChar, cs.dropWhile Text.isWordChar, line⟩)
  else if c = '\\' then .ok (.separator, ⟨[], cs, line⟩)
  else if c = '=' && cs.head? = some '>' then .ok (.arrow, ⟨['>'], cs.tail, line⟩)
  else .ok (.symbol c, ⟨[], cs, line⟩)

section Append

variable {line : Nat} {c : Char} {cs : List Char} {s : Span}

theorem splitBlank_append (line : Nat) (cs : List Char) :
    (splitBlank line cs).taken ++ (splitBlank line cs).rest = cs := by
  induction cs generalizing line with
  | nil => rfl
  | cons c cs ih =>
    rw [splitBlank]
    split
    · exact congrArg (c :: ·) (ih _)
    · rfl

theorem splitComment_append (h : splitComment line cs = some s) : s.taken ++ s.rest = cs := by
  fun_induction splitComment line cs generalizing s with
  | case1 => cases h
  | case2 line r =>
    cases h
    rfl
  | case3 line c r _ ih =>
    obtain ⟨inner, hr, rfl⟩ := Option.map_eq_some_iff.mp h
    exact congrArg (c :: ·) (ih hr)

theorem splitQuotation_append {quote : Char} (h : splitQuotation quote line cs = some s) :
    s.taken ++ quote :: s.rest = cs := by
  fun_induction splitQuotation quote line cs generalizing s with
  | case1 => cases h
  | case2 line c r ih =>
    obtain ⟨inner, hr, rfl⟩ := Option.map_eq_some_iff.mp h
    exact congrArg ('\\' :: c :: ·) (ih hr)
  | case3 line r _ =>
    cases h
    rfl
  | case4 line c r _ _ ih =>
    obtain ⟨inner, hr, rfl⟩ := Option.map_eq_some_iff.mp h
    exact congrArg (c :: ·) (ih hr)

theorem splitNumber_append (c : Char) (cs : List Char) :
    (splitNumber c cs).2.1 ++ (splitNumber c cs).2.2 = cs := by
  have whole := List.takeWhile_append_dropWhile (p := Char.isDigit) (l := cs)
  unfold splitNumber
  split
  · next d r heq =>
    split
    · have fraction := List.takeWhile_append_dropWhile (p := Char.isDigit) (l := r)
      simp only [List.append_assoc, List.cons_append, fraction]
      rw [← heq, whole]
    · simp only
      rw [← heq, whole]
  · simp only [whole]

theorem lexeme_append {kind : TokenKind} (h : lexeme line c cs = .ok (kind, s)) :
    s.taken ++ s.rest = cs := by
  unfold lexeme at h
  split at h
  · cases h; exact splitBlank_append _ cs
  split at h
  · cases h; exact List.takeWhile_append_dropWhile
  split at h
  · next hc =>
    simp only [Bool.and_eq_true, decide_eq_true_eq, List.head?_eq_some_iff] at hc
    obtain ⟨_, r, rfl⟩ := hc
    split at h
    · next hs =>
      cases h
      exact congrArg ('*' :: ·) (splitComment_append hs)
    · cases h
  split at h
  · split at h
    · next hs =>
      cases h
      simpa using splitQuotation_append hs
    · cases h
  split at h
  · cases h; exact splitNumber_append c cs
  split at h
  · cases h; exact List.takeWhile_append_dropWhile
  split at h
  · cases h; exact List.takeWhile_append_dropWhile
  split at h
  · cases h; rfl
  split at h
  · next hc =>
    simp only [Bool.and_eq_true, decide_eq_true_eq, List.head?_eq_some_iff] at hc
    obtain ⟨_, r, rfl⟩ := hc
    cases h
    rfl
  · cases h; rfl

theorem lexeme_rest_length {kind : TokenKind} (h : lexeme line c cs = .ok (kind, s)) :
    s.rest.length ≤ cs.length := by
  rw [← lexeme_append h, List.length_append]
  omega

end Append

def lexFrom (line : Nat) (cs : List Char) : Except LexError (List Token) :=
  match cs with
  | [] => .ok []
  | c :: cs =>
    match _h : lexeme line c cs with
    | .error unclosed => .error ⟨line, unclosed⟩
    | .ok (kind, s) =>
      match lexFrom s.line s.rest with
      | .error e => .error e
      | .ok tokens => .ok (⟨kind, String.ofList (c :: s.taken), line⟩ :: tokens)
termination_by cs.length
decreasing_by
  have := lexeme_rest_length _h
  simp only [List.length_cons]
  omega

def lex (source : String) : Except LexError (List Token) :=
  lexFrom 0 source.toList

end Token

end Datatypes
