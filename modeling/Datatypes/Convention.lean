import Datatypes.Definition

namespace Datatypes

inductive ClassKind where
  | final
  | abstract
  | plain
deriving DecidableEq, Repr

def ClassKind.keyword : ClassKind → String
  | .final => "final class"
  | .abstract => "abstract class"
  | .plain => "class"

structure ClassConstant where
  key : String
  value : String
deriving DecidableEq, Repr

structure Attribute where
  name : String
  type : String
  nullable : Bool := false
  isList : Bool := false
  default : Option String := none
deriving DecidableEq, Repr

def Attribute.ofArgument (a : Argument) : Attribute :=
  ⟨a.name, a.type, a.nullable, a.isList, none⟩

inductive Requirement where
  | arguments (names : List String)
  | argument (name reason : String)
deriving DecidableEq, Repr

inductive Violation where
  | missingArguments (constructor : String) (names : List String)
  | stated (reason : String)
deriving DecidableEq, Repr

def Violation.reason : Violation → String
  | .missingArguments constructor names =>
    "constructor '" ++ constructor ++ "' is missing required argument(s): " ++
      ", ".intercalate (names.map ("$" ++ ·))
  | .stated reason => reason

namespace Requirement

def missing (names : List String) (c : Constructor) : List String :=
  names.filter fun name => (c.argument? name).isNone

def violation? (r : Requirement) (c : Constructor) : Option Violation :=
  match r with
  | .arguments names =>
    if missing names c = [] then none else some (.missingArguments c.name (missing names c))
  | .argument name reason => if missing [name] c = [] then none else some (.stated reason)

end Requirement

structure Convention where
  kind : ClassKind := .final
  uses : List String := []
  parents : List String := []
  interfaces : List String := []
  traits : List String := []
  publicConstants : List ClassConstant := []
  privateConstants : List ClassConstant := []
  protectedAttributes : List Attribute := []
  privateAttributes : List Attribute := []
  requirement : Requirement := .arguments []
deriving DecidableEq, Repr

namespace Convention

def violation? (v : Convention) (c : Constructor) : Option Violation := v.requirement.violation? c

def valueObject : Convention := {}

def complexClassType : Convention where
  kind := .final
  uses := ["Some\\YetAnother\\CustomNamespace\\UsedClass"]
  parents := ["Some\\Other\\CustomNamespace\\ExtensibleClass"]
  interfaces := ["Some\\CustomNamespace\\InterfaceClass",
    "Some\\CustomNamespace\\AnotherInterfaceClass"]
  traits := ["Traits\\SomeTrait", "Traits\\AnotherTrait"]
  publicConstants := [⟨"someKey1", "\"someValue1\""⟩, ⟨"someKey2", "\"someValue2\""⟩]
  privateConstants := [⟨"someKey3", "5"⟩, ⟨"someKey4", "10"⟩]
  protectedAttributes := [
    ⟨"protectedAttr1", "string", false, false, some "\"hello\""⟩,
    ⟨"protectedAttr2", "string", false, false, none⟩]
  privateAttributes := [
    ⟨"privateAttr1", "string", false, false, some "\"hello\""⟩,
    ⟨"privateAttr2", "int", false, false, some "5"⟩,
    ⟨"privateAttr3", "int", false, false, none⟩,
    ⟨"nullablePrivateAttr4", "int", true, false, none⟩,
    ⟨"listPrivateAttr5", "string", false, true, none⟩]
  requirement :=
    .argument "id" "'string $id' should be provided for ComplexClassType as convention"

end Convention

end Datatypes
