import Datatypes.ParseError

/-!
Token streams: the tokens of a file that are still to be read. Comments are passed over, white
space is not, and the line of the token read last is remembered for messages about the end.
-/

namespace Datatypes

structure TokenStream where
  file : String
  /-- Without a bound, as the lines of the tokens: 2 ^ 32 line ends are outside the program. -/
  line : Nat
  rest : List Token
deriving DecidableEq, Repr

namespace TokenStream

def ofTokens (file : String) (tokens : List Token) : TokenStream := ⟨file, 0, tokens⟩

def tokens (file source : String) : Except ParseError (List Token) :=
  (Token.lex source).mapError fun e => ⟨⟨e.line, .unclosed e.unclosed⟩, file⟩

def ofSource (file source : String) : Except ParseError TokenStream :=
  (tokens file source).map (ofTokens file)

def pull : List Token → Option (Token × List Token)
  | [] => none
  | t :: ts => if t.isComment then pull ts else some (t, ts)

theorem pull_length {ts rest : List Token} {t : Token} (h : pull ts = some (t, rest)) :
    rest.length < ts.length := by
  induction ts with
  | nil => simp [pull] at h
  | cons u us ih =>
    rw [pull] at h
    split at h
    · have := ih h
      simp only [List.length_cons]
      omega
    · cases h
      simp

def next? (s : TokenStream) : Option (Token × TokenStream) :=
  (pull s.rest).map fun (t, rest) => (t, { s with line := t.line, rest := rest })

theorem next?_length {s s' : TokenStream} {t : Token} (h : s.next? = some (t, s')) :
    s'.rest.length < s.rest.length := by
  simp only [next?, Option.map_eq_some_iff, Prod.exists, Prod.mk.injEq] at h
  obtain ⟨u, rest, hp, _, rfl⟩ := h
  exact pull_length hp

def endError (s : TokenStream) : ParseError := ⟨⟨s.line, .unexpectedEnd⟩, s.file⟩

def next (s : TokenStream) : Except ParseError Token × TokenStream :=
  match s.next? with
  | some (t, s') => (.ok t, s')
  | none => (.error s.endError, s)

def skipWhitespace (s : TokenStream) (t : Token) : Except ParseError Token × TokenStream :=
  if t.isWhitespace then
    match _h : s.next? with
    | some (t', s') => s'.skipWhitespace t'
    | none => (.error s.endError, s)
  else (.ok t, s)
termination_by s.rest.length
decreasing_by exact next?_length _h

def nextSignificant (s : TokenStream) : Except ParseError Token × TokenStream :=
  match s.next with
  | (.ok t, s') => s'.skipWhitespace t
  | (.error e, s') => (.error e, s')

def isExhausted (s : TokenStream) : Bool := s.rest.all (·.isComment)

end TokenStream

end Datatypes
