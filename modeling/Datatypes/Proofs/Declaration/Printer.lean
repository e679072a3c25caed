import Datatypes.Constant.Arithmetic
import Datatypes.Definition.Json
import Datatypes.Proofs.Definition.WellFormed
import Datatypes.Proofs.Token.Lossless

/-!
The canonical text of definitions. Class names are spelled with a leading separator, so that no
namespace qualifies them, and scalars without one. `Definition.Printable` is what this text can
say: constants without fractions, quotations whose content does not close them, and guards that
no arrow of their own ends.
-/

namespace Datatypes

namespace Declaration

def printName (bare : String → Bool) (name : String) : String :=
  if bare name then name else "\\" ++ name

def quote (content : String) : String := "\"" ++ content ++ "\""

def printArgument (a : Argument) : String :=
  if a.type = "" then "$" ++ a.name
  else
    (if a.nullable then "?" else "") ++ printName isScalarType a.type ++
      (if a.isList then "[]" else "") ++ " $" ++ a.name

def printConstructor (c : Constructor) : String :=
  printName isScalarConstructor c.name ++ " \x7b " ++
    ", ".intercalate (c.arguments.map printArgument) ++ " \x7d"

/-- The least integer is written as a difference, since its digits alone are out of range. -/
def printConstant : Constant → String
  | .text content => quote content
  | .int n => if n = -9223372036854775808 then "-9223372036854775807 - 1" else toString n
  | .float x => (Constant.float x).display

def printCase (case : String × Constant) : String := case.1 ++ ": " ++ printConstant case.2

def printMessage : Option String → String
  | none => ""
  | some message => ": " ++ quote message

def printValues : Deriving → String
  | .named _ => ""
  | .enum values => " with (" ++ ", ".intercalate (values.map printCase) ++ ")"

def printDeriving (d : Deriving) (message : Option String) : String :=
  " deriving (" ++ d.name ++ printMessage message ++ ")" ++ printValues d

def printCondition (c : Condition) : String :=
  printName (· = anyConstructor) c.scope ++ ": | " ++ c.expression ++ " => " ++ quote c.message

def printConditions : List Condition → String
  | [] => ""
  | c :: cs => " where " ++ " ".intercalate ((c :: cs).map printCondition)

def printBody (d : Definition) : String :=
  "data " ++ d.name ++ " = " ++ printConstructor d.constructor ++
    printDeriving d.deriv d.messageName ++ printConditions d.conditions ++ ";"

def printDefinition (d : Definition) : String :=
  if d.ns = "" then printBody d else "namespace " ++ d.ns ++ " \x7b " ++ printBody d ++ " \x7d"

def print (ds : List Definition) : String :=
  String.join (ds.map fun d => printDefinition d ++ "\n")

end Declaration

open Token (Quotable)

def Token.balance (tokens : List Token) : Int :=
  tokens.countP (fun t => t.isSymbol '(' || t.isSymbol '[') -
    tokens.countP (fun t => t.isSymbol ')' || t.isSymbol ']')

/-- Between a bar and an arrow the text is taken as a whole: its brackets match, and every arrow
in it stands inside brackets. -/
structure GuardText (s : String) (tokens : List Token) : Prop where
  lex : Token.lex s = .ok tokens
  noComment : ∀ t ∈ tokens, t.kind ≠ .comment
  balanced : Token.balance tokens = 0
  arrows : ∀ before t after, tokens = before ++ t :: after → t.kind = .arrow →
    Token.balance before ≠ 0

def Constant.Printable : Constant → Prop
  | .int n => InRange n
  | .float _ => False
  | .text content => Quotable '"' content.toList

structure Condition.Printable (c : Condition) : Prop where
  guard : ∃ tokens, GuardText c.expression tokens
  message : Quotable '"' c.message.toList

structure Definition.Printable (d : Definition) : Prop extends d.WellFormed where
  values : ∀ values, d.deriv = .enum values → ∀ v ∈ values, v.2.Printable
  guards : ∀ c ∈ d.conditions, c.Printable
  message : ∀ m ∈ d.messageName, Quotable '"' m.toList

end Datatypes
