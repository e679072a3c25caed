import Datatypes.Toml.Value

/-!
TOML documents. Headers open tables one after another; the pairs below a header go to the table
it opened, which is put in its place when the next one is opened.
-/

namespace Datatypes.Toml

structure Draft where
  root : Table := .empty
  /-- The table that is open, and the path of its header; the root has none. -/
  current : Table := .empty
  path : Option (List String × String) := none
  isArray : Bool := false

namespace Draft

def close (d : Draft) : Option Table :=
  match d.path with
  | none => some d.current
  | some (path, key) =>
    d.root.modifyAt false
      (fun parent =>
        if d.isArray then
          match parent.get? key with
          | none => some (parent.set key (.tables [d.current]))
          | some (.tables ts) => some (parent.set key (.tables (ts ++ [d.current])))
          | some _ => none
        else
          match parent.get? key with
          | none => some (parent.set key (.table d.current))
          | some _ => none)
      path

def openTable (d : Draft) (path : List String) (key : String) : Option Draft :=
  match d.close with
  | none => none
  | some root =>
    let place (parent : Table) : Option Table :=
      match parent.get? key with
      | none => some parent
      | some (.table t) => if t.implicit && !t.dotted then some (parent.erase key) else none
      | some _ => none
    match root.modifyAt false place path with
    | none => none
    | some root' => some ⟨root', (found root path).define, some (path, key), false⟩
where
  found (root : Table) : List String → Table
    | [] =>
      match root.get? key with
      | some (.table t) => t
      | _ => .empty
    | step :: path =>
      match root.get? step with
      | some (.table t) => found t path
      | some (.tables ts) =>
        match ts.getLast? with
        | some t => found t path
        | none => .empty
      | _ => .empty

def openArray (d : Draft) (path : List String) (key : String) : Option Draft :=
  match d.close with
  | none => none
  | some root =>
    let place (parent : Table) : Option Table :=
      match parent.get? key with
      | none => some (parent.set key (.tables []))
      | some (.tables _) => some parent
      | some _ => none
    (root.modifyAt false place path).map fun root => ⟨root, .empty, some (path, key), true⟩

def putPair (d : Draft) (path : List String) (key : String) (v : Toml) : Option Draft :=
  (d.current.put path key v).map fun t => { d with current := t }

end Draft

def readHeader (d : Draft) (cs : List Char) : Option (Draft × List Char) :=
  match cs with
  | '[' :: cs =>
    match readKey cs with
    | some ((path, key), ']' :: ']' :: rest) => do
      let rest ← lineEnd? rest
      return (← d.openArray path key, rest)
    | _ => none
  | _ =>
    match readKey cs with
    | some ((path, key), ']' :: rest) => do
      let rest ← lineEnd? rest
      return (← d.openTable path key, rest)
    | _ => none

def readLine (d : Draft) (cs : List Char) : Option (Draft × List Char) :=
  match skipBlanks cs with
  | [] => some (d, [])
  | '\n' :: rest => some (d, rest)
  | '#' :: rest => (lineEnd? ('#' :: rest)).map (d, ·)
  | '[' :: rest => readHeader d rest
  | cs =>
    match readPair (readValue (nesting - 1)) cs with
    | none => none
    | some (((path, key), v), rest) => do
      let rest ← lineEnd? rest
      return (← d.putPair path key v, rest)

def readLines : (fuel : Nat) → Draft → List Char → Option Draft
  | _, d, [] => some d
  | 0, _, _ :: _ => none
  | fuel + 1, d, cs =>
    match readLine d cs with
    | none => none
    | some (d, rest) => readLines fuel d rest

def plainLineEnds : List Char → List Char
  | '\r' :: '\n' :: rest => '\n' :: plainLineEnds rest
  | c :: rest => c :: plainLineEnds rest
  | [] => []

def dropByteOrderMark : List Char → List Char
  | '\uFEFF' :: rest => rest
  | cs => cs

def parse (source : String) : Option Toml :=
  let cs := dropByteOrderMark (plainLineEnds source.toList)
  match readLines (cs.length + 1) {} cs with
  | none => none
  | some d => d.close.map Table.toToml

end Datatypes.Toml
