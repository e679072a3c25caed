import Datatypes.Text.Digits

namespace Datatypes.Decimal

def overflows (digits : List Char) (exponent : Int) : Bool :=
  let significant := digits.dropWhile (· = '0')
  let magnitude := (significant.length : Int) + exponent
  if significant = [] || magnitude < 309 then false
  else if magnitude > 309 then true
  else
    let x := if exponent < 0
      then Float.ofScientific (Text.digitsValue significant) true (-exponent).toNat
      else Float.ofScientific (Text.digitsValue significant) false exponent.toNat
    x.isInf

end Datatypes.Decimal
