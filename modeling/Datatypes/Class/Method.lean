import Datatypes.Class.Type
import Datatypes.Text.Uppercase

/-!
The methods of a class. Their bodies are made of the few kinds of statement below, which are
written one to a line.
-/

namespace Datatypes

inductive Statement where
  | setField (object field value : String)
  | cloneThis (target : String)
  | blank
  | returnField (object field : String)
  | returnVariable (name : String)
deriving DecidableEq, Repr

def indentation : String := "    "

def Statement.line : Statement → String
  | .setField object field value =>
    indentation ++ indentation ++ "$" ++ object ++ "->" ++ field ++ " = $" ++ value ++ ";"
  | .cloneThis target => indentation ++ indentation ++ "$" ++ target ++ " = clone $this;"
  | .blank => ""
  | .returnField object field =>
    indentation ++ indentation ++ "return $" ++ object ++ "->" ++ field ++ ";"
  | .returnVariable name => indentation ++ indentation ++ "return $" ++ name ++ ";"

def Attribute.parameter (a : Attribute) : String :=
  match a.typeHint with
  | some hint => hint ++ " $" ++ a.name
  | none => "$" ++ a.name

structure Method where
  name : String
  parameters : List Attribute
  result : Option String
  body : List Statement
deriving DecidableEq, Repr

namespace Method

def header (m : Method) : String :=
  indentation ++ "public function " ++ m.name ++ "(" ++
    ", ".intercalate (m.parameters.map (·.parameter)) ++ ")" ++
    (match m.result with
      | some type => ": " ++ type
      | none => "")

def lines (m : Method) : List String :=
  m.header :: (indentation ++ "\x7b") :: m.body.map (·.line) ++ [indentation ++ "\x7d"]

def constructor (arguments : List Attribute) : Method where
  name := "__construct"
  parameters := arguments
  result := none
  body := arguments.map fun a => .setField "this" a.name a.name

def accessor (a : Attribute) : Method where
  name := a.name
  parameters := []
  result := a.typeHint
  body := [.returnField "this" a.name]

def mutatorName (field : String) : String := "with" ++ Text.capitalize field

def mutator (a : Attribute) : Method where
  name := mutatorName a.name
  parameters := [a]
  result := some "self"
  body := [.cloneThis "new", .setField "new" a.name a.name, .blank, .returnVariable "new"]

end Method

end Datatypes
