/-!
The shortest decimal that reads back as a given double. A positive double is an integer times a
power of two; the decimals nearest to it among all decimals, those nearer than half the distance
to its neighbours, read back as it. Of those with the fewest digits the nearest is taken; which
of two that are equally near is a parameter.
-/

namespace Datatypes

/-- The number `digits * 10 ^ exponent`. -/
structure Decimal where
  digits : Nat
  exponent : Int
deriving DecidableEq, Repr

inductive Tie where
  | larger
  | even
deriving DecidableEq, Repr

def Tie.isLower (tie : Tie) (below : Nat) : Bool :=
  match tie with
  | .larger => false
  | .even => below % 2 = 0

/-- The positive number `mantissa * 2 ^ exponent`, as a double holds it. -/
structure Binary where
  mantissa : Nat
  exponent : Int
deriving DecidableEq, Repr

def Binary.leadingBit : Nat := 0x10000000000000

def Binary.ofBits (bits : Nat) : Binary :=
  let biased : Nat := bits / Binary.leadingBit % 2048
  let fraction : Nat := bits % Binary.leadingBit
  if biased = 0 then ⟨fraction, -1074⟩ else ⟨Binary.leadingBit + fraction, (biased : Int) - 1075⟩

def Decimal.scale (n : Nat) (two ten : Int) : Nat × Nat :=
  (n * Nat.pow 2 two.toNat * Nat.pow 10 ten.toNat,
    Nat.pow 2 (-two).toNat * Nat.pow 10 (-ten).toNat)

/-- Four times the ends of the interval of numbers that read back as `b`, in units of the
mantissa. Below a power of two the neighbour is only half as far away. -/
def Binary.bounds (b : Binary) : Nat × Nat :=
  let low := if b.mantissa = Binary.leadingBit ∧ b.exponent > -1074 then 4 * b.mantissa - 1
    else 4 * b.mantissa - 2
  (low, 4 * b.mantissa + 2)

/-- The decimal `n * 10 ^ ten` reads back as `b`. The ends of the interval do so for an even
mantissa. -/
def Binary.readsBack (b : Binary) (n : Nat) (ten : Int) : Bool :=
  let (low, high) := b.bounds
  let (num, den) := Decimal.scale (4 * n) (-b.exponent) ten
  if b.mantissa % 2 = 0 then low * den ≤ num && num ≤ high * den
  else low * den < num && num < high * den

def Binary.magnitude (b : Binary) : Int :=
  let guess := ((b.mantissa.log2 : Int) + b.exponent) * 30103 / 100000
  let (num, den) := Decimal.scale b.mantissa b.exponent (-(guess + 1))
  if den ≤ num then guess + 1 else guess

/-- The nearer of the two neighbours of `b` on the grid of multiples of `10 ^ ten`, if one of
them reads back. -/
def Binary.onGrid? (b : Binary) (tie : Tie) (ten : Int) : Option Decimal :=
  let (num, den) := Decimal.scale b.mantissa b.exponent (-ten)
  let below := num / den
  let above := below + 1
  let low := b.readsBack below ten
  let high := b.readsBack above ten
  if low && high then
    if 2 * (num % den) < den || (2 * (num % den) = den && tie.isLower below) then
      some ⟨below, ten⟩
    else some ⟨above, ten⟩
  else if low then some ⟨below, ten⟩
  else if high then some ⟨above, ten⟩
  else none

/-- Tries ever finer grids. Seventeen digits always suffice. -/
def Binary.shortestFrom (b : Binary) (tie : Tie) (ten : Int) : Nat → Decimal
  | 0 => ⟨0, 0⟩
  | n + 1 =>
    match b.onGrid? tie ten with
    | some d => d
    | none => b.shortestFrom tie (ten - 1) n

def Decimal.normalize (fuel : Nat) (d : Decimal) : Decimal :=
  match fuel with
  | 0 => d
  | fuel + 1 =>
    if d.digits ≠ 0 ∧ d.digits % 10 = 0 then normalize fuel ⟨d.digits / 10, d.exponent + 1⟩ else d

def Binary.shortest (b : Binary) (tie : Tie) : Decimal :=
  Decimal.normalize 20 (b.shortestFrom tie b.magnitude 18)

end Datatypes
