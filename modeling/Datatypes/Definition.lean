import Datatypes.Constant

/-!
Definitions: what a declaration says about a type. A definition has exactly one constructor and
one deriving, which `Definition.ofParts` checks.
-/

namespace Datatypes

def qualify (ns name : String) : String :=
  if ns = "" then name else ns ++ "\\" ++ name

def scalarTypes : List String := ["string", "int", "bool", "float"]

def scalarConstructors : List String := ["Bool", "Float", "Int", "String"]

def isScalarType (name : String) : Bool := scalarTypes.contains name

def isScalarConstructor (name : String) : Bool :=
  scalarConstructors.contains name || (scalarConstructors.map (· ++ "[]")).contains name

structure Argument where
  name : String
  /-- The empty type is that of an argument without one. -/
  type : String
  nullable : Bool
  isList : Bool
deriving DecidableEq, Repr

namespace Argument

def untyped (name : String) : Argument := ⟨name, "", false, false⟩

def isScalar (a : Argument) : Bool := isScalarType a.type

end Argument

structure Constructor where
  name : String
  arguments : List Argument
deriving DecidableEq, Repr

def Constructor.argument? (c : Constructor) (name : String) : Option Argument :=
  c.arguments.find? (·.name = name)

def enumName : String := "Enum"

def messageDerivings : List String := ["AggregateChanged", "Command", "DomainEvent", "Query"]

inductive Deriving where
  | named (name : String)
  /-- Each case with its value, in the order of first mention. -/
  | enum (values : List (String × Constant))
deriving DecidableEq, Repr

namespace Deriving

def ofName (name : String) : Deriving :=
  if name = enumName then .enum [] else .named name

def name : Deriving → String
  | .named name => name
  | .enum _ => enumName

def isEnum : Deriving → Bool
  | .named _ => false
  | .enum _ => true

end Deriving

/-- The scope of a condition that holds for every constructor. -/
def anyConstructor : String := "_"

structure Condition where
  scope : String
  expression : String
  message : String
deriving DecidableEq, Repr

inductive DefinitionError where
  | missingConstructor
  | multipleConstructors
  | missingDeriving
  | multipleDerivings
deriving DecidableEq, Repr

def DefinitionError.message : DefinitionError → String
  | .missingConstructor => "no constructor given"
  | .multipleConstructors => "multiple constructors not supported"
  | .missingDeriving => "no deriving given"
  | .multipleDerivings => "multiple derivings not supported"

structure Definition where
  ns : String
  name : String
  constructor : Constructor
  deriv : Deriving
  conditions : List Condition
  messageName : Option String
deriving DecidableEq, Repr

namespace Definition

/-- A surplus is reported before a lack, and constructors before derivings. -/
def ofParts (ns name : String) (constructors : List Constructor) (derivings : List Deriving)
    (conditions : List Condition) (messageName : Option String) :
    Except DefinitionError Definition :=
  match constructors, derivings with
  | _ :: _ :: _, _ => .error .multipleConstructors
  | _, _ :: _ :: _ => .error .multipleDerivings
  | [], _ => .error .missingConstructor
  | _, [] => .error .missingDeriving
  | [c], [d] => .ok ⟨ns, name, c, d, conditions, messageName⟩

def qualifiedName (d : Definition) : String := qualify d.ns d.name

end Definition

structure Collection where
  file : String
  definitions : List Definition
deriving DecidableEq, Repr

end Datatypes
