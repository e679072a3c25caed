import Datatypes.Text.Reader
import Datatypes.Text.Scalar

/-!
Blanks, comments and quoted texts of TOML documents, whose lines end with a single line feed.
-/

namespace Datatypes.Toml

open Text (Reader)

def isBlank (c : Char) : Bool := c = ' ' || c = '\t'

def skipBlanks (cs : List Char) : List Char := cs.dropWhile isBlank

def isPlain (c : Char) : Bool := c = '\t' || (' ' ≤ c && c ≤ '~') || 0x80 ≤ c.val

def skipComment : List Char → List Char
  | '#' :: rest => rest.dropWhile isPlain
  | cs => cs

def lineEnd? (cs : List Char) : Option (List Char) :=
  match skipComment (skipBlanks cs) with
  | [] => some []
  | '\n' :: rest => some rest
  | _ => none

def skipFiller (inComment : Bool) : List Char → List Char
  | [] => []
  | c :: cs =>
    if c = '\n' then skipFiller false cs
    else if inComment then if isPlain c then skipFiller true cs else c :: cs
    else if isBlank c then skipFiller false cs
    else if c = '#' then skipFiller true cs
    else c :: cs

def escaped? : Char → Option Char
  | 'b' => some '\x08'
  | 't' => some '\t'
  | 'n' => some '\n'
  | 'f' => some '\x0c'
  | 'r' => some '\r'
  | '"' => some '"'
  | '\\' => some '\\'
  | _ => none

def codePoint? (digits : List Char) : Option Char :=
  (Text.hexNumber? digits).bind Text.scalar?

def readEscape : Reader Char
  | 'u' :: rest =>
    if rest.length < 4 then none else (codePoint? (rest.take 4)).map (·, rest.drop 4)
  | 'U' :: rest =>
    if rest.length < 8 then none else (codePoint? (rest.take 8)).map (·, rest.drop 8)
  | c :: rest => (escaped? c).map (·, rest)
  | [] => none

theorem readEscape_length {cs rest : List Char} {c : Char} (h : readEscape cs = some (c, rest)) :
    rest.length ≤ cs.length := by
  unfold readEscape at h
  split at h
  · split at h
    · simp at h
    · simp only [Option.map_eq_some_iff, Prod.mk.injEq] at h
      obtain ⟨_, _, _, rfl⟩ := h
      simp only [List.length_drop, List.length_cons]
      omega
  · split at h
    · simp at h
    · simp only [Option.map_eq_some_iff, Prod.mk.injEq] at h
      obtain ⟨_, _, _, rfl⟩ := h
      simp only [List.length_drop, List.length_cons]
      omega
  · simp only [Option.map_eq_some_iff, Prod.mk.injEq] at h
    obtain ⟨_, _, _, rfl⟩ := h
    simp
  · simp at h

theorem length_dropWhile_le (p : Char → Bool) (cs : List Char) :
    (cs.dropWhile p).length ≤ cs.length :=
  (List.dropWhile_suffix p).length_le

def readBasic (cs : List Char) : Option (List Char × List Char) :=
  match cs with
  | [] => none
  | '"' :: rest => some ([], rest)
  | '\\' :: rest =>
    match _h : readEscape rest with
    | none => none
    | some (c, rest) => (readBasic rest).map fun (body, rest) => (c :: body, rest)
  | c :: rest =>
    if isPlain c then (readBasic rest).map fun (body, rest) => (c :: body, rest) else none
termination_by cs.length
decreasing_by
  · have := readEscape_length _h
    simp only [List.length_cons]
    omega
  · simp

def readLiteral : List Char → Option (List Char × List Char)
  | [] => none
  | '\'' :: rest => some ([], rest)
  | c :: rest =>
    if isPlain c then (readLiteral rest).map fun (body, rest) => (c :: body, rest) else none

/-- A run of quotes in a string of several lines. Up to two of them are text; with three more
they also close it. -/
inductive Quotes where
  | text (quotes rest : List Char)
  | close (quotes rest : List Char)
  | tooMany

def takeQuotes (quote : Char) (cs : List Char) : Quotes :=
  let count := (cs.takeWhile (· = quote)).length
  let rest := cs.dropWhile (· = quote)
  if count < 3 then .text (List.replicate count quote) rest
  else if count < 6 then .close (List.replicate (count - 3) quote) rest
  else .tooMany

/-- The rest of a basic string of several lines. A backslash at the end of a line takes all
blanks and line ends after it along. -/
def readBasicLines (cs : List Char) : Option (List Char × List Char) :=
  match cs with
  | [] => none
  | '"' :: tail =>
    match takeQuotes '"' ('"' :: tail) with
    | .tooMany => none
    | .close quotes rest => some (quotes, rest)
    | .text quotes _ =>
      (readBasicLines (tail.dropWhile (· = '"'))).map fun (body, rest) => (quotes ++ body, rest)
  | '\\' :: tail =>
    if (skipBlanks tail).head? = some '\n' then
      readBasicLines (tail.dropWhile fun c => isBlank c || c = '\n')
    else
      match _h : readEscape tail with
      | none => none
      | some (c, rest) => (readBasicLines rest).map fun (body, rest) => (c :: body, rest)
  | c :: tail =>
    if c = '\n' || isPlain c then
      (readBasicLines tail).map fun (body, rest) => (c :: body, rest)
    else none
termination_by cs.length
decreasing_by
  · have := length_dropWhile_le (· = '"') tail
    simp only [List.length_cons]
    omega
  · have := length_dropWhile_le (fun c => isBlank c || c = '\n') tail
    simp only [List.length_cons]
    omega
  · have := readEscape_length _h
    simp only [List.length_cons]
    omega
  · simp

def readLiteralLines (cs : List Char) : Option (List Char × List Char) :=
  match cs with
  | [] => none
  | '\'' :: tail =>
    match takeQuotes '\'' ('\'' :: tail) with
    | .tooMany => none
    | .close quotes rest => some (quotes, rest)
    | .text quotes _ =>
      (readLiteralLines (tail.dropWhile (· = '\''))).map fun (body, rest) => (quotes ++ body, rest)
  | c :: tail =>
    if c = '\n' || isPlain c then
      (readLiteralLines tail).map fun (body, rest) => (c :: body, rest)
    else none
termination_by cs.length
decreasing_by
  · have := length_dropWhile_le (· = '\'') tail
    simp only [List.length_cons]
    omega
  · simp

def dropFirstLineEnd : List Char → List Char
  | '\n' :: rest => rest
  | cs => cs

def asText (r : Option (List Char × List Char)) : Option (String × List Char) :=
  r.map fun (body, rest) => (String.ofList body, rest)

def readQuoted : Reader String
  | '"' :: rest => asText (readBasic rest)
  | '\'' :: rest => asText (readLiteral rest)
  | _ => none

def readString : Reader String
  | '"' :: '"' :: '"' :: rest => asText (readBasicLines (dropFirstLineEnd rest))
  | '\'' :: '\'' :: '\'' :: rest => asText (readLiteralLines (dropFirstLineEnd rest))
  | cs => readQuoted cs

end Datatypes.Toml
