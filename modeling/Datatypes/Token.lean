/-!
Tokens of the declaration language. A token keeps the text it was read from and the line on
which that text starts, so a token list is a full account of its source.
-/

namespace Datatypes

inductive TokenKind where
  | whitespace
  | comment
  | word (name : String)
  | var (name : String)
  | separator
  | quoted (content : String)
  | int (value : Int)
  /-- A number with a fraction, or one beyond the range of integers, as written. -/
  | decimal (digits : String)
  | arrow
  | symbol (c : Char)
deriving DecidableEq, Repr

structure Token where
  kind : TokenKind
  text : String
  /-- Counted without a bound; a text with 2 ^ 32 line ends or more is outside the program. -/
  line : Nat
deriving DecidableEq, Repr

namespace Token

def isWhitespace (t : Token) : Bool := t.kind = .whitespace

def isComment (t : Token) : Bool := t.kind = .comment

def isSymbol (t : Token) (c : Char) : Bool := t.kind = .symbol c

def describe (t : Token) : String :=
  match t.kind with
  | .whitespace => "whitespace"
  | .comment => "comment"
  | .quoted _ => "string literal " ++ t.text
  | .var _ => "variable '" ++ t.text ++ "'"
  | _ => "'" ++ t.text ++ "'"

end Token

end Datatypes
