import Datatypes.Declaration.Parser
import Datatypes.FileTree
import Datatypes.Text.Sort

namespace Datatypes.Input

def extension : String := ".datatypes"

inductive ScanError where
  | notReadable (path : String)
  | noInputFiles (path : String)
  | notListed (path : String) (cause : FileError)
deriving DecidableEq, Repr

def ScanError.message : ScanError → String
  | .notReadable path => "'" ++ path ++ "' is not readable"
  | .noInputFiles path => "no .datatypes files found in '" ++ path ++ "'"
  | .notListed path cause =>
    "cannot read directory entry: attempting to read `" ++ path ++ "` resulted in an error: " ++
      cause.message

def isInputName (name : String) : Bool := extension.toList.isSuffixOf name.toList

def placeLe : List String → List String → Bool
  | [], _ => true
  | _ :: _, [] => false
  | a :: as, b :: bs => if a = b then placeLe as bs else decide (a < b)

def dropDots : List String → List String
  | [] => []
  | s :: rest => if s = "." then dropDots rest else s :: rest

/-- A directory as it stands before the names found in it: without slashes that are repeated or
at its end, and without dots at its front. Dots before a repeated slash lead nowhere. -/
def base? (p : String) : Option String :=
  let segments := Text.split '/' (Text.dropTrailing '/' p)
  if Path.isAbsolute p then some ("/" ++ "/".intercalate (segments.filter (· ≠ "")))
  else match dropDots segments with
    | "" :: _ => none
    | rest => some ("/".intercalate (rest.filter (· ≠ "")))

def pathsFrom (base : String) (places : List (List String)) : List String :=
  (sortBy placeLe places).map fun names => Path.join base ("/".intercalate names)

def unlisted? (base : String) (n : Node) : Option String :=
  (pathsFrom base (n.directories.filter (· ≠ []))).find? FileTree.isLongPath

def filesBelow (base : String) (n : Node) : List String :=
  (pathsFrom base (n.files.filter fun names => names.getLast?.any isInputName)).filter
    fun p => !FileTree.isLongPath p

def scan (t : FileTree) (p : String) : Except ScanError (List String) :=
  match t.node p with
  | .error _ => .error (.notReadable p)
  | .ok (.file _) => .ok [p]
  | .ok n =>
    match base? p with
    | none => .error (.noInputFiles p)
    | some base =>
      match unlisted? base n with
      | some directory => .error (.notListed directory .nameTooLong)
      | none =>
        match filesBelow base n with
        | [] => .error (.noInputFiles p)
        | files => .ok files

/-- The definitions of a file, whose text `read` supplies. A file that cannot be read is reported
on its first line. -/
def parseFile (read : String → Except FileError String) (path : String) :
    Except ParseError Collection :=
  match read path with
  | .error cause => .error ⟨⟨0, .unreadable cause⟩, path⟩
  | .ok source => Declaration.parse path source

def readSupplied (texts : List (String × String)) (path : String) : Except FileError String :=
  match texts.reverse.find? fun (p, _) => Path.components p = Path.components path with
  | some (_, text) => .ok text
  | none => .error (.notSupplied path)

end Datatypes.Input
