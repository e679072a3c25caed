import Datatypes.FileError
import Datatypes.Path

/-!
File trees: directories with named entries, and files with their bytes. Paths are followed
segment by segment from the root, which is its own parent.
-/

namespace Datatypes

inductive Node where
  | file (content : ByteArray)
  | directory (entries : List (String × Node))

namespace Node

def get? : Node → List String → Option Node
  | n, [] => some n
  | .file _, _ :: _ => none
  | .directory entries, name :: names =>
    match entries.lookup name with
    | none => none
    | some n => n.get? names

mutual

def files : Node → List (List String)
  | .file _ => [[]]
  | .directory entries => filesOfEntries entries

def filesOfEntries : List (String × Node) → List (List String)
  | [] => []
  | (name, n) :: rest => n.files.map (name :: ·) ++ filesOfEntries rest

end

mutual

def directories : Node → List (List String)
  | .file _ => []
  | .directory entries => [] :: directoriesOfEntries entries

def directoriesOfEntries : List (String × Node) → List (List String)
  | [] => []
  | (name, n) :: rest => n.directories.map (name :: ·) ++ directoriesOfEntries rest

end

end Node

structure FileTree where
  entries : List (String × Node)

namespace FileTree

def empty : FileTree := ⟨[]⟩

def root (t : FileTree) : Node := .directory t.entries

def setEntry (entries : List (String × Node)) (name : String) (n : Node) : List (String × Node) :=
  match entries with
  | [] => [(name, n)]
  | (key, old) :: rest =>
    if key = name then (key, n) :: rest else (key, old) :: setEntry rest name n

def setIn (entries : List (String × Node)) (names : List String) (name : String) (n : Node) :
    List (String × Node) :=
  match names with
  | [] => setEntry entries name n
  | step :: names =>
    match entries.lookup step with
    | some (.directory inner) => setEntry entries step (.directory (setIn inner names name n))
    | _ => entries

def set (t : FileTree) (names : List String) (name : String) (n : Node) : FileTree :=
  ⟨setIn t.entries names name n⟩

def maxName : Nat := 255

def maxPath : Nat := 4095

def isLongPath (p : String) : Bool := decide (maxPath < p.utf8ByteSize)

/-- What is wrong with a path, whatever the tree holds. The empty path leads nowhere. -/
def pathError? (p : String) : Option FileError :=
  if p.toList.contains (Char.ofNat 0) then some .zeroInPath
  else if p = "" then some .notFound
  else if isLongPath p then some .nameTooLong
  else none

/-- The way from the root to a place: the names on it with what they lead to, the last one
first. -/
abbrev Trail := List (String × Node)

def Trail.names (trail : Trail) : List String := (trail.map (·.1)).reverse

def nodeAt (t : FileTree) : Trail → Node
  | [] => t.root
  | (_, n) :: _ => n

/-- Follows segments from the end of a way. Every segment, also one that names nothing, has to
start at a directory. -/
def walk (t : FileTree) (trail : Trail) : List String → Except FileError Trail
  | [] => .ok trail
  | s :: rest =>
    match t.nodeAt trail with
    | .file _ => .error .notDirectory
    | .directory entries =>
      if s = "" || s = "." then t.walk trail rest
      else if s = ".." then t.walk trail.tail rest
      else if maxName < s.utf8ByteSize then .error .nameTooLong
      else match entries.lookup s with
        | none => .error .notFound
        | some n => t.walk ((s, n) :: trail) rest

def node (t : FileTree) (p : String) : Except FileError Node :=
  match pathError? p with
  | some e => .error e
  | none =>
    match t.walk [] (Text.split '/' p) with
    | .error e => .error e
    | .ok trail => .ok (t.nodeAt trail)

def isDirectory (t : FileTree) (p : String) : Bool :=
  match t.node p with
  | .ok (.directory _) => true
  | _ => false

def readText (t : FileTree) (p : String) : Except FileError String :=
  match t.node p with
  | .error e => .error e
  | .ok (.directory _) => .error .isDirectory
  | .ok (.file content) =>
    match String.fromUTF8? content with
    | none => .error .notText
    | some s => .ok s

def directoryOf (t : FileTree) (p : String) :
    Except FileError (List String × List (String × Node) × String) :=
  match pathError? p with
  | some e => .error e
  | none =>
    let segments := Text.split '/' p
    let name := segments.getLast?.getD ""
    match t.walk [] segments.dropLast with
    | .error e => .error e
    | .ok trail =>
      match t.nodeAt trail with
      | .file _ => .error .notDirectory
      | .directory entries =>
        if maxName < name.utf8ByteSize then .error .nameTooLong
        else .ok (trail.names, entries, name)

def isStep (segment : String) : Bool := segment = "" || segment = "." || segment = ".."

def makeDirectory (t : FileTree) (p : String) : Except FileError FileTree :=
  match t.directoryOf p with
  | .error e => .error e
  | .ok (names, entries, name) =>
    if isStep name || (entries.lookup name).isSome then .error .alreadyExists
    else .ok (t.set names name (.directory []))

/-- Makes a directory and, as far as they are missing, those above it; `fuel` bounds their
number. A directory that exists is fine. Those made before a failure stay. -/
def makeDirectories (fuel : Nat) (t : FileTree) (p : String) : FileTree × Except FileError Unit :=
  if p = "" then (t, .ok ())
  else match t.makeDirectory p with
    | .ok t => (t, .ok ())
    | .error e =>
      match e, fuel, Path.parent? p with
      | .notFound, fuel + 1, some above =>
        match makeDirectories fuel t above with
        | (t, .error e) => (t, .error e)
        | (t, .ok ()) =>
          match t.makeDirectory p with
          | .ok t => (t, .ok ())
          | .error e => (t, if t.isDirectory p then .ok () else .error e)
      | _, _, _ => (t, if t.isDirectory p then .ok () else .error e)

def write (t : FileTree) (p : String) (content : ByteArray) : Except FileError FileTree :=
  match t.directoryOf p with
  | .error e => .error e
  | .ok (names, entries, name) =>
    if isStep name then .error .isDirectory
    else match entries.lookup name with
      | some (.directory _) => .error .isDirectory
      | _ => .ok (t.set names name (.file content))

end FileTree

end Datatypes
