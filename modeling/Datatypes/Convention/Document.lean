import Datatypes.Convention.Registry
import Datatypes.Toml.Document

/-!
Conventions as they are written in a document: a list of namespaces, each with its conventions.
Keys that have no meaning are refused, except in constants. An array can stand for a record; it
gives the fields in their order.
-/

namespace Datatypes.Convention

structure NamespaceSpec where
  name : String
  conventions : Dictionary Convention
deriving DecidableEq, Repr

def readRecord (strict : Bool) (names : List String) : Toml → Option (List (Option Toml))
  | .table fields =>
    if strict && fields.any (fun (key, _) => !names.contains key) then none
    else some (names.map fun name => fields.lookup name)
  | .array items => some ((List.range names.length).map (items[·]?))
  | _ => none

def readText : Toml → Option String
  | .string s => some s
  | _ => none

def readFlag : Toml → Option Bool
  | .boolean b => some b
  | _ => none

def readList {α : Type} (item : Toml → Option α) : Toml → Option (List α)
  | .array items => items.mapM item
  | _ => none

def orDefault {α : Type} (default : α) (read : Toml → Option α) : Option Toml → Option α
  | none => some default
  | some v => read v

def kindNamed : String → Option ClassKind
  | "final" => some .final
  | "abstract" => some .abstract
  | "class" => some .plain
  | _ => none

def readKind : Toml → Option ClassKind
  | .string name => kindNamed name
  | .table [(name, .table [])] => kindNamed name
  | .table [(name, .array [])] => kindNamed name
  | _ => none

def readConstant (v : Toml) : Option ClassConstant := do
  match ← readRecord false ["key", "value"] v with
  | [some key, some value] => return ⟨← readText key, ← readText value⟩
  | _ => none

def readAttribute (v : Toml) : Option Attribute := do
  match ← readRecord true ["name", "type", "nullable", "list", "default"] v with
  | [some name, some type, nullable, isList, default] =>
    return ⟨← readText name, ← readText type, ← orDefault false readFlag nullable,
      ← orDefault false readFlag isList, ← orDefault none (fun v => (readText v).map some) default⟩
  | _ => none

def readConvention (v : Toml) : Option Convention := do
  match ← readRecord true ["kind", "uses", "extends", "implements", "traits", "public_consts",
    "private_consts", "protected_attrs", "private_attrs", "required_arguments"] v with
  | [kind, uses, parents, interfaces, traits, publicConstants, privateConstants,
      protectedAttributes, privateAttributes, required] =>
    return {
      kind := ← orDefault .final readKind kind
      uses := ← orDefault [] (readList readText) uses
      parents := ← orDefault [] (readList readText) parents
      interfaces := ← orDefault [] (readList readText) interfaces
      traits := ← orDefault [] (readList readText) traits
      publicConstants := ← orDefault [] (readList readConstant) publicConstants
      privateConstants := ← orDefault [] (readList readConstant) privateConstants
      protectedAttributes := ← orDefault [] (readList readAttribute) protectedAttributes
      privateAttributes := ← orDefault [] (readList readAttribute) privateAttributes
      requirement := .arguments (← orDefault [] (readList readText) required) }
  | _ => none

def readConventions : Toml → Option (Dictionary Convention)
  | .table fields => do
    let entries ← fields.mapM fun (name, v) => return (name, ← readConvention v)
    return Dictionary.insertAll [] entries
  | _ => none

def readNamespace (v : Toml) : Option NamespaceSpec := do
  match ← readRecord true ["name", "conventions"] v with
  | [some name, entries] => return ⟨← readText name, ← orDefault [] readConventions entries⟩
  | _ => none

def readDocument (source : String) : Option (List NamespaceSpec) := do
  match ← readRecord true ["namespace"] (← Toml.parse source) with
  | [namespaces] => orDefault [] (readList readNamespace) namespaces
  | _ => none

end Datatypes.Convention

namespace Datatypes.Catalog

open Convention (NamespaceSpec)

def addSpecs (c : Catalog) : List NamespaceSpec → Catalog × Bool
  | [] => (c, true)
  | spec :: rest =>
    if normalizeNamespace spec.name = "" then (c, false)
    else (c.insert (.ofList spec.name spec.conventions)).addSpecs rest

/-- Adds the conventions of a document, which errors call `origin`. What precedes a namespace
without a name stays in the catalog. -/
def addDocument (c : Catalog) (origin source : String) : Catalog × Except GenerationError Unit :=
  match Convention.readDocument source with
  | none => (c, .error (.invalidConventions origin .malformed))
  | some specs =>
    match c.addSpecs specs with
    | (c, true) => (c, .ok ())
    | (c, false) => (c, .error (.invalidConventions origin .emptyNamespace))

end Datatypes.Catalog
