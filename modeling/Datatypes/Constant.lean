namespace Datatypes

inductive Constant where
  | int (value : Int)
  | float (value : Float)
  | text (value : String)
deriving DecidableEq, Repr

inductive Operator where
  | add
  | sub
  | mul
  | div
deriving DecidableEq, Repr

def Operator.symbol : Operator → Char
  | .add => '+'
  | .sub => '-'
  | .mul => '*'
  | .div => '/'

inductive ConstantError where
  | unexpectedToken (found : String)
  | unexpectedEnd
  | divisionByZero
  | textOperand (op : Operator)
  | tooDeep
deriving DecidableEq, Repr

/-- An operand stands inside fewer than this many signs and brackets. -/
def Constant.maxDepth : Nat := 32

def ConstantError.message : ConstantError → String
  | .unexpectedToken found => "unexpected " ++ found ++ " in constant expression"
  | .unexpectedEnd => "unexpected end of constant expression"
  | .divisionByZero => "division by zero in constant expression"
  | .textOperand op => "operator '" ++ op.symbol.toString ++ "' cannot be applied to a string"
  | .tooDeep =>
    "constant expression nested deeper than " ++ toString Constant.maxDepth ++ " levels"

end Datatypes
