import Datatypes.Json
import Datatypes.Text.Digits
import Datatypes.Text.Reader

/-!
Numbers of JSON texts. The value of a number is the product, in double precision, of its first
digits, as many as fit in 64 bits, and of a power of ten; it is out of range if that is infinite.
-/

namespace Datatypes.Json

open Text (Reader)

def readWhole (cs : List Char) : Option (List Char × List Char) :=
  match cs.takeWhile Char.isDigit with
  | [] => none
  | '0' :: _ :: _ => none
  | digits => some (digits, cs.dropWhile Char.isDigit)

def readFraction : Reader (List Char)
  | '.' :: rest =>
    match rest.takeWhile Char.isDigit with
    | [] => none
    | digits => some (digits, rest.dropWhile Char.isDigit)
  | cs => some ([], cs)

def readExponent : Reader Int
  | [] => some (0, [])
  | c :: rest =>
    if c = 'e' || c = 'E' then
      let (negative, rest) := Text.readSign rest
      match rest.takeWhile Char.isDigit with
      | [] => none
      | digits =>
        let n : Int := Text.digitsValue digits
        some (if negative then -n else n, rest.dropWhile Char.isDigit)
    else some (0, c :: rest)

def maxSignificand : Nat := 18446744073709551615

def appendDigits (n : Nat) : List Char → Nat × List Char
  | [] => (n, [])
  | d :: ds =>
    let next := 10 * n + Text.digitValue d
    if next ≤ maxSignificand then appendDigits next ds else (n, d :: ds)

/-- The number is out of range. Digits that do not fit count as zeros before the point and as
nothing after it. -/
def isOutOfRange (whole fraction : List Char) (exponent : Int) : Bool :=
  let (n, beyond) := appendDigits 0 whole
  let (n, dropped) := appendDigits n fraction
  let exponent := exponent + beyond.length - (fraction.length - dropped.length : Nat)
  n ≠ 0 && 0 ≤ exponent &&
    (308 < exponent || (Float.ofNat n * Float.ofScientific 1 false exponent.toNat).isInf)

def readNumber (strict : Bool) : Reader Json := fun cs => do
  let unsigned := match cs with
    | '-' :: rest => rest
    | _ => cs
  let (whole, rest) ← readWhole unsigned
  let (fraction, rest) ← readFraction rest
  let (exponent, rest) ← readExponent rest
  if strict && isOutOfRange whole fraction exponent then none
  else return (.number (String.ofList (cs.take (cs.length - rest.length))), rest)

end Datatypes.Json
