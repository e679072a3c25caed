import Datatypes.Json.Number
import Datatypes.Text.Scalar

/-!
Reading JSON texts. A value that is kept is read strictly: its texts hold no half of a surrogate
pair, its numbers are in range, and it nests to a bounded depth. A value that
is passed over only has to follow the grammar.
-/

namespace Datatypes.Json

open Text (Reader)

def isSpace (c : Char) : Bool := c = ' ' || c = '\n' || c = '\t' || c = '\r'

def skipSpace (cs : List Char) : List Char := cs.dropWhile isSpace

def readUnit (cs : List Char) : Option (Nat × List Char) :=
  if cs.length < 4 then none else (Text.hexNumber? (cs.take 4)).map (·, cs.drop 4)

theorem readUnit_length {cs rest : List Char} {n : Nat} (h : readUnit cs = some (n, rest)) :
    rest.length ≤ cs.length := by
  unfold readUnit at h
  split at h
  · simp at h
  · simp only [Option.map_eq_some_iff, Prod.mk.injEq] at h
    obtain ⟨_, _, _, rfl⟩ := h
    simp

def readSecondHalf (first : Nat) : Reader Char
  | '\\' :: 'u' :: cs =>
    match readUnit cs with
    | none => none
    | some (second, rest) =>
      if 0xDC00 ≤ second && second ≤ 0xDFFF then
        (Text.scalar? (0x10000 + (first - 0xD800) * 0x400 + (second - 0xDC00))).map (·, rest)
      else none
  | _ => none

theorem readSecondHalf_length {first : Nat} {cs rest : List Char} {c : Char}
    (h : readSecondHalf first cs = some (c, rest)) : rest.length ≤ cs.length := by
  unfold readSecondHalf at h
  split at h
  · split at h
    · simp at h
    · next hu =>
      split at h
      · simp only [Option.map_eq_some_iff, Prod.mk.injEq] at h
        obtain ⟨_, _, _, rfl⟩ := h
        have := readUnit_length hu
        simp only [List.length_cons]
        omega
      · simp at h
  · simp at h

def placeholder : Char := '\uFFFD'

def readCodeUnits (strict : Bool) (cs : List Char) : Option (Char × List Char) :=
  match readUnit cs with
  | none => none
  | some (n, rest) =>
    if !strict then some (placeholder, rest)
    else if 0xD800 ≤ n && n ≤ 0xDBFF then readSecondHalf n rest
    else (Text.scalar? n).map (·, rest)

theorem readCodeUnits_length {strict : Bool} {cs rest : List Char} {c : Char}
    (h : readCodeUnits strict cs = some (c, rest)) : rest.length ≤ cs.length := by
  unfold readCodeUnits at h
  split at h
  · simp at h
  · next hu =>
    have := readUnit_length hu
    split at h
    · cases h
      exact this
    · split at h
      · exact Nat.le_trans (readSecondHalf_length h) this
      · simp only [Option.map_eq_some_iff, Prod.mk.injEq] at h
        obtain ⟨_, _, _, rfl⟩ := h
        exact this

def escaped? : Char → Option Char
  | '"' => some '"'
  | '\\' => some '\\'
  | '/' => some '/'
  | 'b' => some '\x08'
  | 'f' => some '\x0c'
  | 'n' => some '\n'
  | 'r' => some '\r'
  | 't' => some '\t'
  | _ => none

def readBody (strict : Bool) (cs : List Char) : Option (List Char × List Char) :=
  match cs with
  | [] => none
  | '"' :: rest => some ([], rest)
  | '\\' :: 'u' :: tail =>
    match _h : readCodeUnits strict tail with
    | none => none
    | some (c, rest) => (readBody strict rest).map fun (body, rest) => (c :: body, rest)
  | '\\' :: e :: tail =>
    match escaped? e with
    | none => none
    | some c => (readBody strict tail).map fun (body, rest) => (c :: body, rest)
  | c :: tail =>
    if c.toNat < 0x20 || c = '\\' then none
    else (readBody strict tail).map fun (body, rest) => (c :: body, rest)
termination_by cs.length
decreasing_by
  · have := readCodeUnits_length _h
    simp only [List.length_cons]
    omega
  · simp only [List.length_cons]
    omega
  · simp

def readText (strict : Bool) : Reader String
  | '"' :: rest => (readBody strict rest).map fun (body, rest) => (String.ofList body, rest)
  | _ => none

def readItems (item : Reader Json) : (fuel : Nat) → Reader (List Json)
  | 0 => fun _ => none
  | fuel + 1 => fun cs =>
    match item (skipSpace cs) with
    | none => none
    | some (v, rest) =>
      match skipSpace rest with
      | ',' :: rest => (readItems item fuel rest).map fun (vs, rest) => (v :: vs, rest)
      | ']' :: rest => some ([v], rest)
      | _ => none

def readArray (item : Reader Json) : Reader Json := fun cs =>
  match skipSpace cs with
  | ']' :: rest => some (.array [], rest)
  | cs => (readItems item cs.length cs).map fun (vs, rest) => (.array vs, rest)

def readFields (value : String → Reader Json) (strict : Bool) :
    (fuel : Nat) → Reader (List (String × Json))
  | 0 => fun _ => none
  | fuel + 1 => fun cs =>
    match readText strict (skipSpace cs) with
    | none => none
    | some (key, rest) =>
      match skipSpace rest with
      | ':' :: rest =>
        match value key (skipSpace rest) with
        | none => none
        | some (v, rest) =>
          match skipSpace rest with
          | ',' :: rest =>
            (readFields value strict fuel rest).map fun (fs, rest) => ((key, v) :: fs, rest)
          | '\x7d' :: rest => some ([(key, v)], rest)
          | _ => none
      | _ => none

def readObject (value : String → Reader Json) (strict : Bool) : Reader Json := fun cs =>
  match skipSpace cs with
  | '\x7d' :: rest => some (.object [], rest)
  | cs => (readFields value strict cs.length cs).map fun (fs, rest) => (.object fs, rest)

def readValue (strict : Bool) : (room : Nat) → Reader Json
  | room, cs =>
    match cs with
    | 'n' :: 'u' :: 'l' :: 'l' :: rest => some (.null, rest)
    | 't' :: 'r' :: 'u' :: 'e' :: rest => some (.bool true, rest)
    | 'f' :: 'a' :: 'l' :: 's' :: 'e' :: rest => some (.bool false, rest)
    | '"' :: _ => (readText strict cs).map fun (s, rest) => (.string s, rest)
    | '[' :: rest =>
      match room with
      | 0 => none
      | room + 1 => readArray (readValue strict room) rest
    | '\x7b' :: rest =>
      match room with
      | 0 => none
      | room + 1 => readObject (fun _ => readValue strict room) strict rest
    | _ => readNumber strict cs

def passOver : Reader Json := fun cs => readValue false cs.length cs

end Datatypes.Json
