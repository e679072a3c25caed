import Datatypes.Class.Generate
import Datatypes.Command
import Datatypes.Convention.Document
import Datatypes.Emit
import Datatypes.Input

/-!
The generation of classes from files to files. Everything that can fail before a file is written
is done before the first one is; a dry run stops there.
-/

namespace Datatypes

def Catalog.addFile (c : Catalog) (t : FileTree) (path : String) :
    Except GenerationError Catalog :=
  match t.readText path with
  | .error cause => .error (.invalidConventions path (.unreadable cause))
  | .ok source =>
    match c.addDocument path source with
    | (_, .error e) => .error e
    | (c, .ok ()) => .ok c

def Catalog.load (t : FileTree) (conventions : Option String) : Except GenerationError Catalog :=
  match conventions with
  | none => .ok .builtin
  | some path => Catalog.builtin.addFile t path

inductive CommandError where
  | noInput (cause : Input.ScanError)
  | badSource (cause : ParseError)
  | failed (cause : GenerationError)
  | notGenerated (cause : GenerationError)
deriving DecidableEq, Repr

namespace Generation

def parseFiles (t : FileTree) : List String → Except ParseError (List Collection)
  | [] => .ok []
  | file :: files =>
    match Input.parseFile t.readText file with
    | .error e => .error e
    | .ok c =>
      match parseFiles t files with
      | .error e => .error e
      | .ok cs => .ok (c :: cs)

def resolver (o : GenerateOptions) (t : FileTree) : Except GenerationError Resolver :=
  match o.outDir with
  | some directory => .ok (.below directory)
  | none =>
    match Autoload.ofFile t o.manifest with
    | .error e => .error e
    | .ok map => .ok (.autoload map)

def prepare (o : GenerateOptions) (t : FileTree) :
    Except CommandError (List SourceUnit × Resolver) :=
  match Input.scan t o.input with
  | .error e => .error (.noInput e)
  | .ok files =>
    match parseFiles t files with
    | .error e => .error (.badSource e)
    | .ok collections =>
      match Catalog.load t o.conventions with
      | .error e => .error (.failed e)
      | .ok catalog =>
        match catalog.registry o.ns with
        | .error e => .error (.failed e)
        | .ok registry =>
          match Class.generateAll registry collections with
          | .error e => .error (.notGenerated e)
          | .ok (units, _) =>
            match resolver o t with
            | .error e => .error (.failed e)
            | .ok r => .ok (units, r)

def place (o : GenerateOptions) (units : List SourceUnit) (r : Resolver) (t : FileTree) :
    FileTree × Except GenerationError (List String) :=
  if o.dryRun then (t, Emit.paths r units) else Emit.emit r units t

def run (o : GenerateOptions) (t : FileTree) :
    FileTree × Except CommandError (List (String × String)) :=
  match prepare o t with
  | .error e => (t, .error e)
  | .ok (units, r) =>
    match place o units r t with
    | (t, .error e) => (t, .error (.failed e))
    | (t, .ok paths) => (t, .ok ((units.map (·.className)).zip paths))

end Generation

end Datatypes
