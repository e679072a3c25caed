import Datatypes.Toml.Number
import Datatypes.Toml.Table
import Datatypes.Toml.Text

/-!
Keys and values of TOML documents. Arrays and inline tables nest to a fixed depth, and keys have
a bounded number of parts.
-/

namespace Datatypes.Toml

open Text (Reader)

/-- Fewer than this many arrays and inline tables enclose a value, and fewer than this many
parts make a key. -/
def nesting : Nat := 80

def isBareKeyChar (c : Char) : Bool := c.isAlphanum || c = '-' || c = '_'

def readSimpleKey (cs : List Char) : Option (String × List Char) :=
  match cs.takeWhile isBareKeyChar with
  | [] => readQuoted cs
  | name => some (String.ofList name, cs.dropWhile isBareKeyChar)

def readKeyParts : (room : Nat) → Reader (List String)
  | 0 => fun _ => none
  | room + 1 => fun cs =>
    match readSimpleKey (skipBlanks cs) with
    | none => none
    | some (part, rest) =>
      match skipBlanks rest with
      | '.' :: rest => (readKeyParts room rest).map fun (parts, rest) => (part :: parts, rest)
      | rest => some ([part], rest)

def readKey (cs : List Char) : Option ((List String × String) × List Char) :=
  match readKeyParts (nesting - 1) cs with
  | none => none
  | some (parts, rest) => parts.getLast?.map fun last => ((parts.dropLast, last), rest)

def readItems (item : Reader Toml) : (fuel : Nat) → Reader (List Toml)
  | 0 => fun _ => none
  | fuel + 1 => fun cs =>
    match skipFiller false cs with
    | ']' :: rest => some ([], rest)
    | cs =>
      match item cs with
      | none => none
      | some (v, rest) =>
        match skipFiller false rest with
        | ',' :: rest => (readItems item fuel rest).map fun (vs, rest) => (v :: vs, rest)
        | ']' :: rest => some ([v], rest)
        | _ => none

def readPair (item : Reader Toml) : Reader ((List String × String) × Toml) := fun cs =>
  match readKey cs with
  | some (key, '=' :: rest) => (item (skipBlanks rest)).map fun (v, rest) => ((key, v), rest)
  | _ => none

def readPairs (item : Reader Toml) : (fuel : Nat) → Reader (List ((List String × String) × Toml))
  | 0 => fun _ => none
  | fuel + 1 => fun cs =>
    match readPair item cs with
    | none => none
    | some (pair, rest) =>
      match skipBlanks rest with
      | ',' :: rest => (readPairs item fuel rest).map fun (pairs, rest) => (pair :: pairs, rest)
      | '\x7d' :: rest => some ([pair], rest)
      | _ => none

def tableOfPairs (pairs : List ((List String × String) × Toml)) : Option Toml :=
  (pairs.foldlM (fun t ((path, key), v) => Table.put path key v t) Table.empty).map Table.toToml

def readInlineTable (item : Reader Toml) : Reader Toml := fun cs =>
  match skipBlanks cs with
  | '\x7d' :: rest => some (.table [], rest)
  | _ =>
    match readPairs item cs.length cs with
    | none => none
    | some (pairs, rest) => (tableOfPairs pairs).map (·, rest)

def readLiteralValue (read : List Char → Option (List Char)) : Reader Toml := fun cs =>
  (read cs).map fun rest => (.literal (String.ofList (cs.take (cs.length - rest.length))), rest)

def readValue : (room : Nat) → Reader Toml
  | room, cs =>
    match cs with
    | 't' :: 'r' :: 'u' :: 'e' :: rest => some (.boolean true, rest)
    | 'f' :: 'a' :: 'l' :: 's' :: 'e' :: rest => some (.boolean false, rest)
    | '[' :: rest =>
      match room with
      | 0 => none
      | room + 1 =>
        (readItems (readValue room) rest.length rest).map fun (vs, rest) => (.array vs, rest)
    | '\x7b' :: rest =>
      match room with
      | 0 => none
      | room + 1 => readInlineTable (readValue room) rest
    | c :: _ =>
      if c = '"' || c = '\'' then (readString cs).map fun (s, rest) => (.string s, rest)
      else readLiteralValue readNumber cs
    | [] => none

end Datatypes.Toml
