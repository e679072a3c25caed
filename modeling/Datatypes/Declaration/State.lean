import Datatypes.Definition
import Datatypes.Token

/-!
The states in which a source can be while it is read. Declarations do not nest, so a finite
control with the pieces read so far is enough: the reader never goes back and never looks
beyond the token at hand.
-/

namespace Datatypes.Declaration

structure Reference where
  absolute : Bool
  words : List String
deriving DecidableEq, Repr

namespace Reference

def spelling (words : List String) : String := "\\".intercalate words

def name (r : Reference) : String := spelling r.words

def push (r : Reference) (word : String) : Reference := { r with words := r.words ++ [word] }

end Reference

structure Draft where
  line : Nat
  name : String
  constructors : List Constructor := []
  derivings : List Deriving := []
  conditions : List Condition := []
  messageName : Option String := none
deriving DecidableEq, Repr

/-- Sets the value of a case; a case keeps the place of its first mention. -/
def insertCase (values : List (String × Constant)) (case : String) (value : Constant) :
    List (String × Constant) :=
  match values with
  | [] => [(case, value)]
  | (key, old) :: rest =>
    if key = case then (key, value) :: rest else (key, old) :: insertCase rest case value

def fillEnum (values : List (String × Constant)) : List Deriving → List Deriving
  | [] => []
  | .enum _ :: rest => .enum values :: rest
  | .named name :: rest => .named name :: fillEnum values rest

namespace Draft

def addConstructor (d : Draft) (c : Constructor) : Draft :=
  { d with constructors := d.constructors ++ [c] }

def addDeriving (d : Draft) (name : String) : Draft :=
  { d with derivings := d.derivings ++ [.ofName name] }

def addCondition (d : Draft) (c : Condition) : Draft :=
  { d with conditions := d.conditions ++ [c] }

def setMessage (d : Draft) (message : String) : Draft := { d with messageName := some message }

def setValues (d : Draft) (values : List (String × Constant)) : Draft :=
  { d with derivings := fillEnum values d.derivings }

end Draft

inductive Place where
  | equals
  | constructorStart
  | constructorWord (r : Reference)
  | constructorTail (r : Reference)
  | constructorBracket (name : String)
  | constructorBody (name : String)
  | argumentStart (c : Constructor)
  | nullableType (c : Constructor)
  | typeWord (c : Constructor) (nullable : Bool) (r : Reference)
  | typeTail (c : Constructor) (nullable : Bool) (r : Reference)
  | typeBracket (c : Constructor) (nullable : Bool) (r : Reference)
  | typeGap (c : Constructor) (nullable : Bool) (r : Reference)
  | argumentName (c : Constructor) (nullable isList : Bool) (type : String)
  | argumentEnd (c : Constructor)
  | constructorEnd
  | derivingOpen
  | derivingItem
  | derivingTail (name : String)
  | derivingMessage
  | derivingItemEnd
  | derivingEnd
  | mappingOpen
  | mappingCase (values : List (String × Constant))
  | mappingColon (values : List (String × Constant)) (case : String) (line : Nat)
  | mappingValue (values : List (String × Constant)) (case : String) (line : Nat)
      (span : List Token) (depth : Nat)
  | mappingEnd
  | groupStart (scope : String)
  | scopeWord (r : Reference)
  | scopeTail (r : Reference)
  | scopeColon (scope : String)
  | guardOpen (scope : String)
  | guard (scope : String) (captured : List Token) (depth : Int)
  | guardMessage (scope expression : String)
  | guardEnd (scope : String)
deriving DecidableEq, Repr

inductive State where
  | topLevel
  | namespaceGap
  | namespaceWord (words : List String)
  | namespaceTail (words : List String)
  | namespaceEnd (words : List String)
  | nameGap (line : Nat)
  | name (line : Nat)
  | body (draft : Draft) (place : Place)
deriving DecidableEq, Repr

/-- A source that has been read up to some token: the namespace that is active, whether a block
opened it, and the definitions so far. -/
structure Machine where
  ns : String := ""
  inBlock : Bool := false
  definitions : List Definition := []
  state : State := .topLevel
deriving DecidableEq, Repr

end Datatypes.Declaration
