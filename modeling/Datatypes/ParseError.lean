import Datatypes.Definition
import Datatypes.FileError
import Datatypes.Token.Lexer

/-! Why a source is rejected, and on which line (counted from zero). -/

namespace Datatypes

inductive Expected where
  | whitespace
  | identifier
  | symbol (c : Char)
  | variableName
  | quotation
  | topLevel
  | namespaceEnd
  | constructorEnd
  | derivingEnd
  | mappingEnd
  | typeName
  | typeNameOrVariable
  | typeEnd
  | argumentEnd
  | itemEnd
deriving DecidableEq, Repr

def Expected.text : Expected → String
  | .whitespace => "whitespace"
  | .identifier => "identifier"
  | .symbol c => "'" ++ c.toString ++ "'"
  | .variableName => "variable"
  | .quotation => "string literal"
  | .topLevel => "'data' or 'namespace'"
  | .namespaceEnd => "';' or '\x7b'"
  | .constructorEnd => "'|', 'deriving', 'with', 'where' or ';'"
  | .derivingEnd => "'with', 'where' or ';'"
  | .mappingEnd => "'where' or ';'"
  | .typeName => "type name"
  | .typeNameOrVariable => "type name or variable"
  | .typeEnd => "whitespace or '\\'"
  | .argumentEnd => "',' or '\x7d'"
  | .itemEnd => "',' or ')'"

inductive ParseFault where
  | unclosed (what : Unclosed)
  | unexpectedEnd
  | neverClosed (ns : String)
  | nestedNamespaces
  | unknownDefinition (text : String)
  | unexpected (expected : Expected) (found : Token)
  | invalidDefinition (name : String) (line : Nat) (cause : DefinitionError)
  | invalidCase (name : String) (cause : ConstantError)
  | unreadable (cause : FileError)
deriving DecidableEq, Repr

def ParseFault.message : ParseFault → String
  | .unclosed .comment => "unterminated block comment"
  | .unclosed .quotation => "unterminated string literal"
  | .unexpectedEnd => "unexpected end of input"
  | .neverClosed ns => "namespace '" ++ ns ++ "' is never closed"
  | .nestedNamespaces => "nested namespaces are not supported"
  | .unknownDefinition text => "unknown definition '" ++ text ++ "', expected 'data'"
  | .unexpected expected found => "expected " ++ expected.text ++ ", found " ++ found.describe
  | .invalidDefinition name line cause =>
    "invalid definition '" ++ name ++ "' (declared on line " ++ toString line ++ "): " ++
      cause.message
  | .invalidCase name cause =>
    "invalid value for enum case '" ++ name ++ "': " ++ cause.message
  | .unreadable cause => "cannot read file: " ++ cause.message

structure Failure where
  line : Nat
  fault : ParseFault
deriving DecidableEq, Repr

structure ParseError extends Failure where
  file : String
deriving DecidableEq, Repr

namespace ParseError

def message (e : ParseError) : String := e.fault.message

def display (e : ParseError) : String :=
  e.file ++ ":" ++ toString e.line ++ ": " ++ e.message

end ParseError

end Datatypes
