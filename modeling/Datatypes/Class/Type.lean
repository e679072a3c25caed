import Datatypes.Convention
import Datatypes.Text.Segments

namespace Datatypes

def qualifiedType (type : String) : String :=
  let bare := Text.dropLeading '\\' type
  if bare = "" || isScalarType bare then bare else "\\" ++ bare

namespace Attribute

def typeHint (a : Attribute) : Option String :=
  let base := if a.isList then "array" else qualifiedType a.type
  if base = "" then none else if a.nullable then some ("?" ++ base) else some base

def documentedType (a : Attribute) : String :=
  let type := qualifiedType a.type
  (if type = "" then "mixed" else type) ++ (if a.isList then "[]" else "") ++
    (if a.nullable then "|null" else "")

end Attribute

end Datatypes
