import Datatypes.Constant

/-!
Arithmetic on constants. Integers stay integers as long as the result is exact and fits in 64
bits with sign; otherwise the operation is done in double precision.
-/

namespace Datatypes.Constant

def InRange (n : Int) : Prop := -9223372036854775808 ≤ n ∧ n ≤ 9223372036854775807

instance (n : Int) : Decidable (InRange n) := inferInstanceAs (Decidable (_ ∧ _))

def intResult? (op : Operator) (a b : Int) : Option Int :=
  let result? := match op with
    | .add => some (a + b)
    | .sub => some (a - b)
    | .mul => some (a * b)
    | .div => if a % b = 0 then some (a / b) else none
  result?.filter (fun n => decide (InRange n))

def applyFloat (op : Operator) (a b : Float) : Except ConstantError Constant :=
  match op with
  | .add => .ok (.float (a + b))
  | .sub => .ok (.float (a - b))
  | .mul => .ok (.float (a * b))
  | .div => if b == 0 then .error .divisionByZero else .ok (.float (a / b))

def applyInt (op : Operator) (a b : Int) : Except ConstantError Constant :=
  if op = .div ∧ b = 0 then .error .divisionByZero
  else match intResult? op a b with
    | some n => .ok (.int n)
    | none => applyFloat op (.ofInt a) (.ofInt b)

def apply (op : Operator) : Constant → Constant → Except ConstantError Constant
  | .int a, .int b => applyInt op a b
  | .int a, .float b => applyFloat op (.ofInt a) b
  | .float a, .int b => applyFloat op a (.ofInt b)
  | .float a, .float b => applyFloat op a b
  | .text _, _ => .error (.textOperand op)
  | _, .text _ => .error (.textOperand op)

inductive Sign where
  | plus
  | minus
deriving DecidableEq, Repr

def Sign.operator : Sign → Operator
  | .plus => .add
  | .minus => .sub

def applySign (sign : Sign) : Constant → Except ConstantError Constant
  | .text _ => .error (.textOperand sign.operator)
  | .int n =>
    match sign with
    | .plus => .ok (.int n)
    | .minus => if InRange (-n) then .ok (.int (-n)) else .ok (.float (-.ofInt n))
  | .float x =>
    match sign with
    | .plus => .ok (.float x)
    | .minus => .ok (.float (-x))

end Datatypes.Constant
