import Datatypes.Text.Segments

/-!
Paths as texts. Their segments stand between slashes; an empty segment, and a dot that is not
the first one, name nothing.
-/

namespace Datatypes.Path

def isAbsolute (p : String) : Bool := p.toList.head? = some '/'

def join (p q : String) : String :=
  if isAbsolute q then q
  else if p = "" || p.toList.getLast? = some '/' then p ++ q
  else p ++ "/" ++ q

def fromLast : List String → List String
  | [] => []
  | s :: before => if s = "" || (s = "." && before ≠ []) then fromLast before else s :: before

def backward (p : String) : List String := fromLast (Text.split '/' p).reverse

def parent? (p : String) : Option String :=
  match backward p with
  | [] => none
  | _ :: before =>
    match fromLast before with
    | [] => some (if isAbsolute p then "/" else "")
    | before => some ("/".intercalate before.reverse)

def stem (name : String) : String :=
  match name.toList.reverse.dropWhile (· ≠ '.') with
  | [] => name
  | _ :: before => if before = [] then name else String.ofList before.reverse

def withExtension (p extension : String) : String :=
  match backward p with
  | [] => p
  | name :: before =>
    if name = "." || name = ".." then p
    else "/".intercalate ((stem name ++ "." ++ extension) :: before).reverse

inductive Component where
  | root
  | current
  | parent
  | name (text : String)
deriving DecidableEq, Repr

def component? (first : Bool) (segment : String) : Option Component :=
  if segment = "" then none
  else if segment = "." then if first then some .current else none
  else if segment = ".." then some .parent
  else some (.name segment)

def components (p : String) : List Component :=
  let segments := Text.split '/' p
  let inner := (segments.drop 1).filterMap (component? false)
  if isAbsolute p then .root :: inner
  else (segments.take 1).filterMap (component? true) ++ inner

end Datatypes.Path
