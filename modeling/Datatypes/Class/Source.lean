import Datatypes.Class.Method
import Datatypes.GenerationError

/-!
The source of a class, line by line. The order is fixed: name space, imports, header, traits,
constants, properties, constructor, accessors, mutators. The convention judges the constructor
before anything is written.
-/

namespace Datatypes

structure SourceUnit where
  className : String
  source : String
deriving DecidableEq, Repr

namespace Class

def importLines (v : Convention) : List String :=
  (v.uses ++ v.interfaces ++ v.parents ++ v.traits).map fun name =>
    "use \\" ++ Text.dropLeading '\\' name ++ ";"

def shortNames (names : List String) : List String := names.map (Text.afterLast '\\')

def header (name : String) (v : Convention) : String :=
  v.kind.keyword ++ " " ++ name ++
    (if v.parents = [] then "" else " extends " ++ ", ".intercalate (shortNames v.parents)) ++
    (if v.interfaces = [] then "" else
      " implements " ++ ", ".intercalate (shortNames v.interfaces))

def traitLines (v : Convention) : List String :=
  (shortNames v.traits).map fun name => indentation ++ "use " ++ name ++ ";"

def constantLine (visibility : String) (c : ClassConstant) : String :=
  indentation ++ visibility ++ " const " ++ c.key ++ " = " ++ c.value ++ ";"

def constantLines (v : Convention) : List String :=
  v.publicConstants.map (constantLine "public") ++ v.privateConstants.map (constantLine "private")

def propertyLines (visibility : String) (a : Attribute) : List String :=
  [indentation ++ "/**", indentation ++ " * @var " ++ a.documentedType, indentation ++ " */",
    indentation ++ visibility ++ " $" ++ a.name ++
      (match a.default with
        | some value => " = " ++ value
        | none => "") ++ ";"]

def arguments (c : Constructor) : List Attribute := c.arguments.map .ofArgument

def fields (c : Constructor) (v : Convention) : List Attribute :=
  arguments c ++ v.privateAttributes

def properties (c : Constructor) (v : Convention) : List (List String) :=
  v.protectedAttributes.map (propertyLines "protected") ++
    v.privateAttributes.map (propertyLines "private") ++
    (arguments c).map (propertyLines "private")

def methods (c : Constructor) (v : Convention) : List Method :=
  .constructor (arguments c) :: (fields c v).map .accessor ++ (fields c v).map .mutator

def blocks (c : Constructor) (v : Convention) : List (List String) :=
  [traitLines v, constantLines v].filter (· ≠ []) ++ properties c v ++
    (methods c v).map (·.lines)

def lines (d : Definition) (v : Convention) : List String :=
  ["<?php", "", "declare(strict_types=1);", ""] ++
    (if d.ns = "" then [] else ["namespace " ++ d.ns ++ ";", ""]) ++
    (if importLines v = [] then [] else importLines v ++ [""]) ++
    [header d.name v, "\x7b"] ++ [""].intercalate (blocks d.constructor v) ++ ["\x7d"]

def text (lines : List String) : String := String.join (lines.map (· ++ "\n"))

def assemble (d : Definition) (v : Convention) : Except GenerationError SourceUnit :=
  match v.violation? d.constructor with
  | some cause => .error (.violation d.qualifiedName cause)
  | none => .ok ⟨d.qualifiedName, text (lines d v)⟩

end Class

end Datatypes
