import Datatypes.Toml

/-!
Tables in the making. A table that only stands on the way to another one is implicit, and can
still be opened by its own header; one that a dotted key made is dotted, and only dotted keys
can add to it. Nothing is defined twice.
-/

namespace Datatypes.Toml

mutual

inductive Item where
  | value (v : Toml)
  | table (t : Table)
  | tables (ts : List Table)

inductive Table where
  | mk (implicit dotted : Bool) (items : List (String × Item))

end

namespace Table

def empty : Table := .mk false false []

def implicit : Table → Bool
  | .mk implicit _ _ => implicit

def dotted : Table → Bool
  | .mk _ dotted _ => dotted

def items : Table → List (String × Item)
  | .mk _ _ items => items

def get? (t : Table) (key : String) : Option Item := t.items.lookup key

def erase (t : Table) (key : String) : Table :=
  .mk t.implicit t.dotted (t.items.filter fun (k, _) => k ≠ key)

def set (t : Table) (key : String) (item : Item) : Table :=
  .mk t.implicit t.dotted ((t.items.filter fun (k, _) => k ≠ key) ++ [(key, item)])

def define (t : Table) : Table := .mk false false t.items

/-- Changes the table at the end of a path. Tables that are missing are made on the way; through
an array of tables the path leads into its last one. -/
def modifyAt (dotted : Bool) (change : Table → Option Table) : List String → Table → Option Table
  | [], t => change t
  | key :: path, t =>
    match t.get? key with
    | none => (modifyAt dotted change path (.mk true dotted [])).map fun u => t.set key (.table u)
    | some (.value _) => none
    | some (.table u) =>
      if dotted && !u.implicit then none
      else (modifyAt dotted change path u).map fun u => t.set key (.table u)
    | some (.tables us) =>
      match us.getLast? with
      | none => none
      | some u =>
        (modifyAt dotted change path u).map fun u => t.set key (.tables (us.dropLast ++ [u]))

/-- Defines a key, which must be new. Keys of a dotted path go only to dotted tables. -/
def put (path : List String) (key : String) (v : Toml) (t : Table) : Option Table :=
  modifyAt true
    (fun u =>
      if u.dotted = path.isEmpty || (u.get? key).isSome then none else some (u.set key (.value v)))
    path t

end Table

mutual

def Item.toToml : Item → Toml
  | .value v => v
  | .table t => t.toToml
  | .tables ts => .array (tablesToToml ts)

def Table.toToml : Table → Toml
  | .mk _ _ items => .table (itemsToToml items)

def tablesToToml : List Table → List Toml
  | [] => []
  | t :: ts => t.toToml :: tablesToToml ts

def itemsToToml : List (String × Item) → List (String × Toml)
  | [] => []
  | (key, item) :: rest => (key, item.toToml) :: itemsToToml rest

end

end Datatypes.Toml
