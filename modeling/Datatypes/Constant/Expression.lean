import Datatypes.Constant.Arithmetic
import Datatypes.Text.Digits
import Datatypes.Token

/-!
The value of a constant expression, read from its tokens. Signs bind tightest, then products
and quotients, then sums and differences; operators of one level associate to the left, and
round or square brackets group. The value is computed on the way, so of two faults the one met
first is reported.
-/

namespace Datatypes.Constant

def ofDecimal (digits : String) : Float :=
  let whole := digits.toList.takeWhile (· != '.')
  let fraction := (digits.toList.dropWhile (· != '.')).drop 1
  Float.ofScientific (Text.digitsValue (whole ++ fraction)) true fraction.length

abbrev Reader := List Token → Except ConstantError (Constant × List Token)

def sumOperator? : List Token → Option (Operator × List Token)
  | t :: rest =>
    if t.isSymbol '+' then some (.add, rest)
    else if t.isSymbol '-' then some (.sub, rest)
    else none
  | [] => none

def productOperator? : List Token → Option (Operator × List Token)
  | t :: rest =>
    if t.isSymbol '*' then some (.mul, rest)
    else if t.isSymbol '/' then some (.div, rest)
    else none
  | [] => none

/-- Goes on from the value `left` as long as an operator follows. The first argument bounds the
number of operators. -/
def readOperations (operator? : List Token → Option (Operator × List Token)) (operand : Reader) :
    Nat → Constant → Reader
  | 0, left, tokens => .ok (left, tokens)
  | n + 1, left, tokens =>
    match operator? tokens with
    | none => .ok (left, tokens)
    | some (op, rest) =>
      match operand rest with
      | .error e => .error e
      | .ok (right, rest) =>
        match apply op left right with
        | .error e => .error e
        | .ok value => readOperations operator? operand n value rest

def readChain (operator? : List Token → Option (Operator × List Token)) (operand : Reader) :
    Reader := fun tokens =>
  match operand tokens with
  | .error e => .error e
  | .ok (left, rest) => readOperations operator? operand tokens.length left rest

def readSum (operand : Reader) : Reader :=
  readChain sumOperator? (readChain productOperator? operand)

def readGroup (close : Char) (operand : Reader) : Reader := fun tokens =>
  match readSum operand tokens with
  | .error e => .error e
  | .ok (_, []) => .error .unexpectedEnd
  | .ok (value, t :: rest) =>
    if t.isSymbol close then .ok (value, rest) else .error (.unexpectedToken t.describe)

def sign? : List Token → Option (Sign × List Token)
  | t :: rest =>
    if t.isSymbol '+' then some (.plus, rest)
    else if t.isSymbol '-' then some (.minus, rest)
    else none
  | [] => none

def readPrimary (inner : Reader) : Reader
  | [] => .error .unexpectedEnd
  | t :: rest =>
    match t.kind with
    | .int n => .ok (.int n, rest)
    | .decimal digits => .ok (.float (ofDecimal digits), rest)
    | .quoted content => .ok (.text content, rest)
    | .symbol '(' => readGroup ')' inner rest
    | .symbol '[' => readGroup ']' inner rest
    | _ => .error (.unexpectedToken t.describe)

def readOperand : (room : Nat) → Reader
  | 0 => fun _ => .error .tooDeep
  | room + 1 => fun tokens =>
    match sign? tokens with
    | some (sign, rest) =>
      match readOperand room rest with
      | .error e => .error e
      | .ok (value, rest) => (applySign sign value).map (·, rest)
    | none => readPrimary (readOperand room) tokens

def evaluate (tokens : List Token) : Except ConstantError Constant :=
  match readSum (readOperand maxDepth) tokens with
  | .error e => .error e
  | .ok (value, []) => .ok value
  | .ok (_, t :: _) => .error (.unexpectedToken t.describe)

end Datatypes.Constant
