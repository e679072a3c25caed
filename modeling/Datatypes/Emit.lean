import Datatypes.Autoload
import Datatypes.Class.Source
import Datatypes.FileTree

/-! Writing classes to their files. All paths are known before anything is written. -/

namespace Datatypes

def Autoload.ofFile (t : FileTree) (path : String) : Except GenerationError Autoload :=
  match t.readText path with
  | .error cause => .error (.invalidManifest path (.unreadable cause))
  | .ok source =>
    match Autoload.ofText ((Path.parent? path).getD "") source with
    | .error cause => .error (.invalidManifest path cause)
    | .ok map => .ok map

namespace Emit

def makeParent (t : FileTree) (path : String) : FileTree × Except GenerationError Unit :=
  match Path.parent? path with
  | none => (t, .ok ())
  | some directory =>
    match t.makeDirectories directory.length directory with
    | (t, .ok ()) => (t, .ok ())
    | (t, .error cause) => (t, .error (.notWritten directory cause))

def writeUnit (t : FileTree) (path : String) (unit : SourceUnit) :
    FileTree × Except GenerationError Unit :=
  match makeParent t path with
  | (t, .error e) => (t, .error e)
  | (t, .ok ()) =>
    match t.write path unit.source.toUTF8 with
    | .error cause => (t, .error (.notWritten path cause))
    | .ok t => (t, .ok ())

def writeAll (t : FileTree) : List (String × SourceUnit) → FileTree × Except GenerationError Unit
  | [] => (t, .ok ())
  | (path, unit) :: rest =>
    match writeUnit t path unit with
    | (t, .error e) => (t, .error e)
    | (t, .ok ()) => writeAll t rest

section Resolve

variable (resolve : String → Except GenerationError String)

def pathsBy : List SourceUnit → Except GenerationError (List String)
  | [] => .ok []
  | unit :: units =>
    match resolve unit.className with
    | .error e => .error e
    | .ok path =>
      match pathsBy units with
      | .error e => .error e
      | .ok rest => .ok (path :: rest)

def emitBy (units : List SourceUnit) (t : FileTree) :
    FileTree × Except GenerationError (List String) :=
  match pathsBy resolve units with
  | .error e => (t, .error e)
  | .ok targets =>
    match writeAll t (targets.zip units) with
    | (t, .error e) => (t, .error e)
    | (t, .ok ()) => (t, .ok targets)

end Resolve

def paths (r : Resolver) (units : List SourceUnit) : Except GenerationError (List String) :=
  pathsBy r.resolve units

def emit (r : Resolver) (units : List SourceUnit) (t : FileTree) :
    FileTree × Except GenerationError (List String) :=
  emitBy r.resolve units t

theorem emit_eq (r : Resolver) (units : List SourceUnit) (t : FileTree) :
    emit r units t =
      match paths r units with
      | .error e => (t, .error e)
      | .ok targets =>
        match writeAll t (targets.zip units) with
        | (t, .error e) => (t, .error e)
        | (t, .ok ()) => (t, .ok targets) := rfl

end Emit

end Datatypes
