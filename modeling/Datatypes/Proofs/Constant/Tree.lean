import Datatypes.Constant.Expression
import Mathlib.Tactic.Common

/-!
Constant expressions as trees: how a tree is spelled, how deep its literals stand, and the value
that its operations give it from left to right.
-/

namespace Datatypes.Constant

inductive Level where
  | operand
  | product
  | sum
deriving DecidableEq, Repr

inductive Bracket where
  | round
  | square
deriving DecidableEq, Repr

def Bracket.opening : Bracket → Char
  | .round => '('
  | .square => '['

def Bracket.closing : Bracket → Char
  | .round => ')'
  | .square => ']'

inductive Factor where
  | times
  | over
deriving DecidableEq, Repr

def Factor.operator : Factor → Operator
  | .times => .mul
  | .over => .div

inductive Tree : Level → Type
  | int (n : Int) : Tree .operand
  | decimal (digits : String) : Tree .operand
  | text (content : String) : Tree .operand
  | group (bracket : Bracket) (inner : Tree .sum) : Tree .operand
  | signed (sign : Sign) (inner : Tree .operand) : Tree .operand
  | factor (inner : Tree .operand) : Tree .product
  | product (left : Tree .product) (op : Factor) (right : Tree .operand) : Tree .product
  | term (inner : Tree .product) : Tree .sum
  | sum (left : Tree .sum) (op : Sign) (right : Tree .product) : Tree .sum
deriving Repr

namespace Tree

def spelling {l : Level} : Tree l → List TokenKind
  | .int n => [.int n]
  | .decimal digits => [.decimal digits]
  | .text content => [.quoted content]
  | .group bracket inner =>
    .symbol bracket.opening :: (inner.spelling ++ [.symbol bracket.closing])
  | .signed sign inner => .symbol sign.operator.symbol :: inner.spelling
  | .factor inner => inner.spelling
  | .product left op right => left.spelling ++ .symbol op.operator.symbol :: right.spelling
  | .term inner => inner.spelling
  | .sum left op right => left.spelling ++ .symbol op.operator.symbol :: right.spelling

def depth {l : Level} : Tree l → Nat
  | .int _ | .decimal _ | .text _ => 0
  | .group _ inner => inner.depth + 1
  | .signed _ inner => inner.depth + 1
  | .factor inner => inner.depth
  | .product left _ right => max left.depth right.depth
  | .term inner => inner.depth
  | .sum left _ right => max left.depth right.depth

end Tree

def combine (op : Operator) (left right : Except ConstantError Constant) :
    Except ConstantError Constant :=
  left.bind fun a => right.bind fun b => apply op a b

namespace Tree

def value {l : Level} : Tree l → Except ConstantError Constant
  | .int n => .ok (.int n)
  | .decimal digits => .ok (.float (ofDecimal digits))
  | .text content => .ok (.text content)
  | .group _ inner => inner.value
  | .signed sign inner => inner.value.bind (applySign sign)
  | .factor inner => inner.value
  | .product left op right => combine op.operator left.value right.value
  | .term inner => inner.value
  | .sum left op right => combine op.operator left.value right.value

/-- The value where literals, groups and signs may nest `room` levels; what stands deeper is a
fault like the others, met in its place. -/
def valueWithin {l : Level} : Tree l → Nat → Except ConstantError Constant
  | .int _, 0 | .decimal _, 0 | .text _, 0 | .group _ _, 0 | .signed _ _, 0 => .error .tooDeep
  | .int n, _ + 1 => .ok (.int n)
  | .decimal digits, _ + 1 => .ok (.float (ofDecimal digits))
  | .text content, _ + 1 => .ok (.text content)
  | .group _ inner, room + 1 => inner.valueWithin room
  | .signed sign inner, room + 1 => (inner.valueWithin room).bind (applySign sign)
  | .factor inner, room => inner.valueWithin room
  | .product left op right, room =>
    combine op.operator (left.valueWithin room) (right.valueWithin room)
  | .term inner, room => inner.valueWithin room
  | .sum left op right, room =>
    combine op.operator (left.valueWithin room) (right.valueWithin room)

theorem valueWithin_eq_value {l : Level} (e : Tree l) {room : Nat} (h : e.depth < room) :
    e.valueWithin room = e.value := by
  induction e generalizing room with
  | int | decimal | text =>
    cases room with
    | zero => simp at h
    | succ room => rfl
  | group b inner ih | signed s inner ih =>
    cases room with
    | zero => simp at h
    | succ room => simp only [valueWithin, value, ih (by simpa [depth] using h)]
  | factor inner ih | term inner ih => exact ih h
  | product left op right ihl ihr | sum left op right ihl ihr =>
    rw [depth, Nat.max_lt] at h
    simp only [valueWithin, value, ihl h.1, ihr h.2]

theorem valueWithin_eq_error {l : Level} (e : Tree l) {room : Nat} (h : room ≤ e.depth) :
    ∃ fault, e.valueWithin room = .error fault := by
  induction e generalizing room with
  | int | decimal | text =>
    cases room with
    | zero => exact ⟨_, rfl⟩
    | succ room => simp [depth] at h
  | group b inner ih =>
    cases room with
    | zero => exact ⟨_, rfl⟩
    | succ room => exact ih (by simpa [depth] using h)
  | signed s inner ih =>
    cases room with
    | zero => exact ⟨_, rfl⟩
    | succ room =>
      obtain ⟨fault, hf⟩ := ih (by simpa [depth] using h)
      exact ⟨fault, by rw [valueWithin, hf]; rfl⟩
  | factor inner ih | term inner ih => exact ih h
  | product left op right ihl ihr | sum left op right ihl ihr =>
    have deep : room ≤ left.depth ∨ room ≤ right.depth := by
      rw [depth] at h
      omega
    -- The left operand may fail first even where only the right one stands too deep.
    rcases deep with h | h
    · obtain ⟨fault, hf⟩ := ihl h
      exact ⟨fault, by rw [valueWithin, hf]; rfl⟩
    · obtain ⟨fault, hf⟩ := ihr h
      rw [valueWithin, hf]
      cases left.valueWithin room with
      | error e => exact ⟨e, rfl⟩
      | ok a => exact ⟨fault, rfl⟩

theorem valueWithin_eq_ok_iff {l : Level} {e : Tree l} {room : Nat} {v : Constant} :
    e.valueWithin room = .ok v ↔ e.depth < room ∧ e.value = .ok v := by
  by_cases h : e.depth < room
  · simp [valueWithin_eq_value e h, h]
  · obtain ⟨fault, hf⟩ := valueWithin_eq_error e (Nat.le_of_not_lt h)
    simp [hf, h]

end Tree

end Datatypes.Constant
