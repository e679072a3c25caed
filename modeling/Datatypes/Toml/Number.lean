import Datatypes.Decimal.Range
import Datatypes.Text.Digits
import Datatypes.Text.Scalar
import Datatypes.Toml.Text

/-!
Numbers, dates and times of TOML documents. A literal is taken as far as its grammar goes and is
refused when its value is out of range; what follows it is for the caller to judge.
-/

namespace Datatypes.Toml

open Text (Reader)

def readDigits (isDigit : Char → Bool) : List Char → List Char × List Char
  | c :: '_' :: d :: rest =>
    if isDigit c then
      if isDigit d then
        let (digits, rest) := readDigits isDigit (d :: rest)
        (c :: digits, rest)
      else ([c], '_' :: d :: rest)
    else ([], c :: '_' :: d :: rest)
  | c :: rest =>
    if isDigit c then
      let (digits, rest) := readDigits isDigit rest
      (c :: digits, rest)
    else ([], c :: rest)
  | [] => ([], [])

def readWhole : Reader (List Char)
  | '0' :: rest => some (['0'], rest)
  | cs =>
    match readDigits Char.isDigit cs with
    | ([], _) => none
    | (digits, rest) => some (digits, rest)

def readExponent (cs : List Char) : Option (Int × List Char) :=
  let (negative, cs) := Text.readSign cs
  match readDigits Char.isDigit cs with
  | ([], _) => none
  | (digits, rest) =>
    let n : Int := Text.digitsValue digits
    some (if negative then -n else n, rest)

def isExponentMark (c : Char) : Bool := c = 'e' || c = 'E'

/-- A decimal with a fraction or an exponent, or the name of a number that is none. A positive
number beyond all doubles is refused. -/
def readFloat (cs : List Char) : Option (List Char) :=
  let (negative, cs) := Text.readSign cs
  match cs with
  | 'i' :: 'n' :: 'f' :: rest => some rest
  | 'n' :: 'a' :: 'n' :: rest => some rest
  | _ =>
    match readWhole cs with
    | none => none
    | some (whole, '.' :: rest) =>
      match readDigits Char.isDigit rest with
      | ([], _) => none
      | (fraction, rest) =>
        let exponent? := match rest with
          | c :: tail => if isExponentMark c then readExponent tail else none
          | [] => none
        let (exponent, rest) := exponent?.getD (0, rest)
        if !negative && Decimal.overflows (whole ++ fraction) (exponent - fraction.length) then none
        else some rest
    | some (whole, c :: rest) =>
      if isExponentMark c then
        match readExponent rest with
        | none => none
        | some (exponent, rest) =>
          if !negative && Decimal.overflows whole exponent then none else some rest
      else none
    | some (_, []) => none

def isBinaryDigit (c : Char) : Bool := c = '0' || c = '1'

def isOctalDigit (c : Char) : Bool := '0' ≤ c && c ≤ '7'

def isHexDigit (c : Char) : Bool := (Text.hexValue? c).isSome

def maxMagnitude : Nat := 9223372036854775807

def readBased (base : Nat) (isDigit : Char → Bool) (cs : List Char) : Option (List Char) :=
  match readDigits isDigit cs with
  | ([], _) => none
  | (digits, rest) =>
    let n := digits.foldl (fun n c => base * n + (Text.hexValue? c).getD 0) 0
    if n ≤ maxMagnitude then some rest else none

def readInteger (cs : List Char) : Option (List Char) :=
  match cs with
  | '0' :: 'x' :: rest => readBased 16 isHexDigit rest
  | '0' :: 'o' :: rest => readBased 8 isOctalDigit rest
  | '0' :: 'b' :: rest => readBased 2 isBinaryDigit rest
  | _ =>
    let (negative, cs) := Text.readSign cs
    match readWhole cs with
    | none => none
    | some (digits, rest) =>
      let n := Text.digitsValue digits
      if n ≤ maxMagnitude || (negative && n = maxMagnitude + 1) then some rest else none

def readFixed (count low high : Nat) (cs : List Char) : Option (Nat × List Char) :=
  let digits := cs.take count
  if digits.length = count && digits.all Char.isDigit then
    let n := Text.digitsValue digits
    if low ≤ n && n ≤ high then some (n, cs.drop count) else none
  else none

def expect (c : Char) : List Char → Option (List Char)
  | d :: rest => if d = c then some rest else none
  | [] => none

def isLeapYear (year : Nat) : Bool := year % 4 = 0 && (year % 100 ≠ 0 || year % 400 = 0)

def daysInMonth (year month : Nat) : Nat :=
  if month = 2 then if isLeapYear year then 29 else 28
  else if [4, 6, 9, 11].contains month then 30
  else 31

def readDate (cs : List Char) : Option (List Char) := do
  let (year, cs) ← readFixed 4 0 9999 cs
  let cs ← expect '-' cs
  let (month, cs) ← readFixed 2 1 12 cs
  let cs ← expect '-' cs
  let (_, cs) ← readFixed 2 1 (daysInMonth year month) cs
  return cs

def readTime (cs : List Char) : Option (List Char) := do
  let (_, cs) ← readFixed 2 0 23 cs
  let cs ← expect ':' cs
  let (_, cs) ← readFixed 2 0 59 cs
  let cs ← expect ':' cs
  let (_, cs) ← readFixed 2 0 60 cs
  match cs with
  | '.' :: d :: rest =>
    if d.isDigit then return rest.dropWhile Char.isDigit else return cs
  | _ => return cs

def readOffset (cs : List Char) : Option (List Char) :=
  match cs with
  | 'Z' :: rest => some rest
  | 'z' :: rest => some rest
  | c :: rest =>
    if c = '+' || c = '-' then do
      let (_, rest) ← readFixed 2 0 23 rest
      let rest ← expect ':' rest
      let (_, rest) ← readFixed 2 0 59 rest
      return rest
    else some cs
  | [] => some cs

def readMoment (cs : List Char) : Option (List Char) :=
  match readDate cs with
  | some rest =>
    match rest with
    | c :: tail =>
      if c = 'T' || c = 't' || c = ' ' then
        match readTime tail with
        | some rest => readOffset rest
        | none => some rest
      else some rest
    | [] => some rest
  | none => readTime cs

def readNumber (cs : List Char) : Option (List Char) :=
  match readMoment cs with
  | some rest => some rest
  | none =>
    match readFloat cs with
    | some rest => some rest
    | none => readInteger cs

end Datatypes.Toml
