import Datatypes.GenerationError
import Datatypes.Text.Blank
import Datatypes.Text.Dictionary

/-!
Registries hold the conventions of one namespace under the names of derivings; a catalog holds
the registries of a run. A later registration replaces an earlier one of the same name.
-/

namespace Datatypes

/-- The name under which a namespace is kept: without white space around it, and then without
separators around it. -/
def normalizeNamespace (ns : String) : String :=
  Text.strip (· = '\\') (Text.trim ns)

structure Registry where
  ns : String
  conventions : Dictionary Convention
deriving DecidableEq, Repr

namespace Registry

def empty (ns : String) : Registry := ⟨normalizeNamespace ns, []⟩

def register (r : Registry) (deriv : String) (v : Convention) : Registry :=
  { r with conventions := r.conventions.insert deriv v }

def resolve? (r : Registry) (deriv : String) : Option Convention := r.conventions.get? deriv

def derivings (r : Registry) : List String := r.conventions.keys

def ofList (ns : String) (entries : List (String × Convention)) : Registry :=
  entries.foldl (fun r (deriv, v) => r.register deriv v) (empty ns)

end Registry

structure Catalog where
  entries : Dictionary (Dictionary Convention)
deriving DecidableEq, Repr

namespace Catalog

def empty : Catalog := ⟨[]⟩

def insert (c : Catalog) (r : Registry) : Catalog :=
  match c.entries.get? r.ns with
  | some old => ⟨c.entries.insert r.ns (old.insertAll r.conventions)⟩
  | none => ⟨c.entries.insert r.ns r.conventions⟩

def builtinNamespace : String := "Dtgen\\Conventions"

def builtinRegistry : Registry :=
  .ofList builtinNamespace
    [("ComplexClassType", .complexClassType), ("ValueObject", .valueObject)]

def builtin : Catalog := empty.insert builtinRegistry

def registry (c : Catalog) (ns : String) : Except GenerationError Registry :=
  let key := normalizeNamespace ns
  match c.entries.get? key with
  | some conventions => .ok ⟨key, conventions⟩
  | none => .error (.unknownNamespace key)

def registries (c : Catalog) : List Registry :=
  c.entries.map fun (ns, conventions) => ⟨ns, conventions⟩

end Catalog

end Datatypes
