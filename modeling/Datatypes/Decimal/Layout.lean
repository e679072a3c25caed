import Datatypes.Decimal.Shortest

/-!
The two written forms of a double. Both have the shortest digits that read back; the plain form
never has an exponent, the JSON form has one for very large and very small numbers. Between two
decimals that are equally near, the plain form takes the larger and the JSON form the even one.
-/

namespace Datatypes.Decimal

def zeros (n : Nat) : String := String.ofList (List.replicate n '0')

def isNegative (x : Float) : Bool := x.toBits ≥ 0x8000000000000000

def isZero (x : Float) : Bool := x == 0

def ofFloat (tie : Tie) (x : Float) : Decimal :=
  (Binary.ofBits (x.toBits.toNat % 0x8000000000000000)).shortest tie

def positional (d : Decimal) (tail : String) : String :=
  let digits := toString d.digits
  if d.exponent ≥ 0 then digits ++ zeros d.exponent.toNat ++ tail
  else
    let places := (-d.exponent).toNat
    if digits.length > places then
      String.ofList (digits.toList.take (digits.length - places)) ++ "." ++
        String.ofList (digits.toList.drop (digits.length - places))
    else "0." ++ zeros (places - digits.length) ++ digits

def scientific (d : Decimal) : String :=
  let digits := (toString d.digits).toList
  let exponent := d.exponent + (digits.length : Int) - 1
  let sign := if exponent < 0 then "-" else "+"
  let fraction := if digits.length > 1 then "." ++ String.ofList (digits.drop 1) else ""
  String.ofList (digits.take 1) ++ fraction ++ "e" ++ sign ++ toString exponent.natAbs

def signed (x : Float) (magnitude : String) : String :=
  if isNegative x then "-" ++ magnitude else magnitude

def plain (x : Float) : String :=
  if x.isNaN then "NaN"
  else if x.isInf then signed x "inf"
  else if isZero x then signed x "0"
  else signed x (positional (ofFloat .larger x) "")

/-- The JSON form: positional from `1e-5` up to, but not including, `1e16`, with a fraction also
for a whole number. What is not finite has no number. -/
def json (x : Float) : String :=
  if x.isNaN || x.isInf then "null"
  else if isZero x then signed x "0.0"
  else
    let d := ofFloat .even x
    let exponent := d.exponent + ((toString d.digits).length : Int) - 1
    if -5 ≤ exponent ∧ exponent ≤ 15 then signed x (positional d ".0")
    else signed x (scientific d)

end Datatypes.Decimal
