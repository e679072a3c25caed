import Datatypes.Class.Source
import Datatypes.Convention.Registry

namespace Datatypes.Class

def generate (r : Registry) (d : Definition) : Except GenerationError SourceUnit :=
  match r.resolve? d.deriv.name with
  | none => .error (.unknownDeriving d.qualifiedName d.deriv.name r.ns)
  | some v => assemble d v

def generateList (r : Registry) : List Definition → Except GenerationError (List SourceUnit)
  | [] => .ok []
  | d :: ds =>
    match generate r d with
    | .error e => .error e
    | .ok unit =>
      match generateList r ds with
      | .error e => .error e
      | .ok units => .ok (unit :: units)

structure Duplicate where
  className : String
  file : String
deriving DecidableEq, Repr

def Duplicate.message : String := "class generated more than once; the last one written wins"

def duplicates (seen : List String) : List (String × String) → List Duplicate
  | [] => []
  | (className, file) :: rest =>
    if seen.contains className then ⟨className, file⟩ :: duplicates seen rest
    else duplicates (className :: seen) rest

def generateAll (r : Registry) (collections : List Collection) :
    Except GenerationError (List SourceUnit × List Duplicate) :=
  match generateList r (collections.flatMap (·.definitions)) with
  | .error e => .error e
  | .ok units =>
    let origins := collections.flatMap fun c => c.definitions.map fun d => (d.qualifiedName, c.file)
    .ok (units, duplicates [] origins)

end Datatypes.Class
