import Datatypes.GenerationError
import Datatypes.Json.Reader
import Datatypes.Path
import Datatypes.Text.Dictionary
import Datatypes.Text.Sort

/-!
Autoload maps: which directory holds the classes whose names start with a key. They are read from
a composer manifest, where a section for development adds to the main one.
-/

namespace Datatypes

structure AutoloadSection where
  psr4 : Dictionary Json := []
  psr0 : Dictionary Json := []

structure Manifest where
  main : AutoloadSection := {}
  development : AutoloadSection := {}

namespace Manifest

open Text (Reader)

/-- Values of a map, which nests three levels deep, may nest this many more. -/
def valueDepth : Nat := 124

def mapKeys : List String := [Standard.psr4.name, Standard.psr0.name]

def sectionKeys : List String := ["autoload", "autoload-dev"]

def readMap : Reader Json
  | '\x7b' :: rest => Json.readObject (fun _ => Json.readValue true valueDepth) true rest
  | _ => none

/-- A record: an object in which only some keys are read, or an array of the values of these
keys. -/
def readRecord (keys : List String) (value : Reader Json) : Reader Json
  | '\x7b' :: rest =>
    Json.readObject (fun key => if keys.contains key then value else Json.passOver) true rest
  | '[' :: rest => Json.readArray value rest
  | _ => none

def fields (keys : List String) : Json → Option (List (Option Json))
  | .object entries =>
    keys.mapM fun key =>
      match entries.filter fun (k, _) => k = key with
      | [] => some none
      | [(_, v)] => some (some v)
      | _ => none
  | .array items =>
    if items.length ≤ keys.length then some ((List.range keys.length).map (items[·]?)) else none
  | _ => none

def map : Option Json → Option (Dictionary Json)
  | none => some []
  | some (.object entries) => some (Dictionary.insertAll [] entries)
  | some _ => none

def section? : Option Json → Option AutoloadSection
  | none => some {}
  | some v => do
    match ← fields mapKeys v with
    | [psr4, psr0] => return ⟨← map psr4, ← map psr0⟩
    | _ => none

def ofJson (v : Json) : Option Manifest := do
  match ← fields sectionKeys v with
  | [main, development] => return ⟨← section? main, ← section? development⟩
  | _ => none

def parse (source : String) : Option Manifest := do
  let (v, rest) ← readRecord sectionKeys (readRecord mapKeys readMap) (Json.skipSpace source.toList)
  if Json.skipSpace rest = [] then ofJson v else none

end Manifest

structure AutoloadEntry where
  key : String
  directory : String
deriving DecidableEq, Repr

structure Autoload where
  psr4 : List AutoloadEntry := []
  psr0 : List AutoloadEntry := []
deriving DecidableEq, Repr

namespace Autoload

def firstDirectory? : Json → Option String
  | .string directory => some directory
  | .array (.string directory :: _) => some directory
  | _ => none

def entries (standard : Standard) (base : String) :
    Dictionary Json → Except ManifestFault (List AutoloadEntry)
  | [] => .ok []
  | (key, v) :: rest =>
    match firstDirectory? v with
    | none => .error (.noDirectory standard key)
    | some directory =>
      match entries standard base rest with
      | .error e => .error e
      | .ok rest => .ok (⟨key, Path.join base directory⟩ :: rest)

def sectionEntries (base : String) (s : AutoloadSection) : Except ManifestFault Autoload :=
  match entries .psr4 base s.psr4 with
  | .error e => .error e
  | .ok psr4 =>
    match entries .psr0 base s.psr0 with
    | .error e => .error e
    | .ok psr0 => .ok ⟨psr4, psr0⟩

def longer (a b : AutoloadEntry) : Bool := decide (b.key.utf8ByteSize ≤ a.key.utf8ByteSize)

/-- Directories are taken relative to `base`. The main section stands before that for
development. -/
def ofManifest (base : String) (m : Manifest) : Except ManifestFault Autoload :=
  match sectionEntries base m.main with
  | .error e => .error e
  | .ok main =>
    match sectionEntries base m.development with
    | .error e => .error e
    | .ok development =>
      .ok ⟨sortBy longer (main.psr4 ++ development.psr4),
        sortBy longer (main.psr0 ++ development.psr0)⟩

def ofText (base source : String) : Except ManifestFault Autoload :=
  match Manifest.parse source with
  | none => .error .malformed
  | some m => ofManifest base m

def restAfter? (key s : String) : Option String :=
  if key.toList.isPrefixOf s.toList then some (String.ofList (s.toList.drop key.toList.length))
  else none

def pathBelow (directory : String) (segments : List String) : String :=
  Path.withExtension ((segments.filter (· ≠ "")).foldl Path.join directory) "php"

/-- The segments of a class by the older standard: also underscores of the short name divide. -/
def psr0Segments (class_ : String) : List String :=
  (Text.split '\\' class_).dropLast ++ Text.split '_' (Text.afterLast '\\' class_)

def path? (a : Autoload) (class_ : String) : Option String :=
  match a.psr4.findSome? fun e => (restAfter? e.key class_).map (e.directory, ·) with
  | some (directory, rest) => some (pathBelow directory (Text.split '\\' rest))
  | none =>
    match a.psr0.find? fun e => (restAfter? e.key class_).isSome with
    | some e => some (pathBelow e.directory (psr0Segments class_))
    | none => none

end Autoload

inductive Resolver where
  | below (directory : String)
  | autoload (map : Autoload)
deriving DecidableEq, Repr

namespace Resolver

def path? (r : Resolver) (class_ : String) : Option String :=
  match r with
  | .below directory =>
    if class_ = "" then none else some (Autoload.pathBelow directory (Text.split '\\' class_))
  | .autoload map => map.path? class_

def resolve (r : Resolver) (class_ : String) : Except GenerationError String :=
  let class_ := Text.dropLeading '\\' class_
  match r.path? class_ with
  | some p => .ok p
  | none => .error (.noPath class_)

end Resolver

end Datatypes
