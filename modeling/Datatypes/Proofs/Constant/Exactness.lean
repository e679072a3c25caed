import Mathlib.Data.Rat.Cast.Defs
import Mathlib.Data.Int.Cast.Lemmas
import Mathlib.Algebra.Order.Ring.Rat
import Datatypes.Proofs.Constant.Evaluation

/-!
Integer constants are exact. An expression denotes a rational, computed without any bound; an
integer that evaluation gives is this rational, as is the value of every part of the expression, and
an expression of integers whose parts all denote integers in range evaluates to the one it denotes.
-/

namespace Datatypes

def Operator.exact (op : Operator) (a b : ℚ) : Option ℚ :=
  match op with
  | .add => some (a + b)
  | .sub => some (a - b)
  | .mul => some (a * b)
  | .div => if b = 0 then none else some (a / b)

namespace Constant

def Sign.exact : Sign → ℚ → ℚ
  | .plus, a => a
  | .minus, a => -a

def decimalValue (digits : String) : ℚ :=
  let whole := digits.toList.takeWhile (· != '.')
  let fraction := (digits.toList.dropWhile (· != '.')).drop 1
  Text.digitsValue (whole ++ fraction) / 10 ^ fraction.length

namespace Tree

/-- The rational that an expression denotes; there is none if it holds a text, or if a divisor is
zero. -/
def exact {l : Level} : Tree l → Option ℚ
  | .int n => some n
  | .decimal digits => some (decimalValue digits)
  | .text _ => none
  | .group _ inner => inner.exact
  | .signed sign inner => inner.exact.map sign.exact
  | .factor inner => inner.exact
  | .product left op right =>
    left.exact.bind fun a => right.exact.bind (op.operator.exact a)
  | .term inner => inner.exact
  | .sum left op right =>
    left.exact.bind fun a => right.exact.bind (op.operator.exact a)

inductive Within : {l l' : Level} → Tree l → Tree l' → Prop
  | self {l : Level} (e : Tree l) : Within e e
  | group {l : Level} {s : Tree l} {inner : Tree .sum} (b : Bracket) :
      Within s inner → Within s (.group b inner)
  | signed {l : Level} {s : Tree l} {inner : Tree .operand} (sign : Sign) :
      Within s inner → Within s (.signed sign inner)
  | factor {l : Level} {s : Tree l} {inner : Tree .operand} :
      Within s inner → Within s (.factor inner)
  | productLeft {l : Level} {s : Tree l} {left : Tree .product} (op : Factor)
      (right : Tree .operand) : Within s left → Within s (.product left op right)
  | productRight {l : Level} {s : Tree l} {right : Tree .operand} (left : Tree .product)
      (op : Factor) : Within s right → Within s (.product left op right)
  | term {l : Level} {s : Tree l} {inner : Tree .product} : Within s inner → Within s (.term inner)
  | sumLeft {l : Level} {s : Tree l} {left : Tree .sum} (op : Sign) (right : Tree .product) :
      Within s left → Within s (.sum left op right)
  | sumRight {l : Level} {s : Tree l} {right : Tree .product} (left : Tree .sum) (op : Sign) :
      Within s right → Within s (.sum left op right)

end Tree

variable {op : Operator} {sign : Sign} {n : Int}

theorem applyFloat_ne_int (a b : Float) : applyFloat op a b ≠ .ok (.int n) := by
  cases op with
  | div =>
    rw [applyFloat]
    split <;> simp
  | _ => simp [applyFloat]

theorem int_div_eq_iff {a b : Int} (hb : b ≠ 0) :
    (a : ℚ) / b = n ↔ a % b = 0 ∧ a / b = n := by
  have hb' : (b : ℚ) ≠ 0 := by exact_mod_cast hb
  rw [div_eq_iff hb']
  constructor
  · intro h
    have product : a = n * b := by exact_mod_cast h
    exact ⟨by simp [product], by rw [product, Int.mul_ediv_cancel n hb]⟩
  · rintro ⟨hmod, rfl⟩
    exact_mod_cast (Int.ediv_mul_cancel (Int.dvd_of_emod_eq_zero hmod)).symm

theorem intResult?_eq_some_iff {a b : Int} (h : ¬ (op = .div ∧ b = 0)) :
    intResult? op a b = some n ↔ op.exact a b = some (n : ℚ) ∧ InRange n := by
  rw [intResult?.eq_def]
  simp only [Option.filter_eq_some_iff, decide_eq_true_eq]
  refine and_congr_left fun _ => ?_
  cases op with
  | add | sub | mul =>
    simp only [Operator.exact, Option.some.injEq]
    norm_cast
  | div =>
    have hb : b ≠ 0 := fun hb => h ⟨rfl, hb⟩
    simp [Operator.exact, hb, int_div_eq_iff hb]

theorem applyInt_eq_int_iff {a b : Int} :
    applyInt op a b = .ok (.int n) ↔ op.exact a b = some (n : ℚ) ∧ InRange n := by
  rw [applyInt]
  by_cases hz : op = .div ∧ b = 0
  · obtain ⟨rfl, rfl⟩ := hz
    simp [Operator.exact]
  · rw [if_neg hz, ← intResult?_eq_some_iff hz]
    cases intResult? op a b with
    | none => simp [applyFloat_ne_int]
    | some m => simp

theorem apply_eq_int_iff {a b : Constant} :
    apply op a b = .ok (.int n) ↔ ∃ x y : Int, a = .int x ∧ b = .int y ∧
      op.exact x y = some (n : ℚ) ∧ InRange n := by
  cases a with
  | int x =>
    cases b with
    | int y => simp [apply, applyInt_eq_int_iff]
    | _ => simp [apply, applyFloat_ne_int]
  | _ => cases b <;> simp [apply, applyFloat_ne_int]

theorem combine_eq_int_iff {left right : Except ConstantError Constant} :
    combine op left right = .ok (.int n) ↔ ∃ x y : Int, left = .ok (.int x) ∧
      right = .ok (.int y) ∧ op.exact x y = some (n : ℚ) ∧ InRange n := by
  cases left with
  | error e => simp [combine, Except.bind]
  | ok a =>
    cases right with
    | error e => simp [combine, Except.bind]
    | ok b => simp [combine, Except.bind, apply_eq_int_iff]

theorem exists_combine {a b : Option ℚ} {left right : Except ConstantError Constant}
    (hleft : ∃ x : Int, a = some (x : ℚ) ∧ left = .ok (.int x))
    (hright : ∃ y : Int, b = some (y : ℚ) ∧ right = .ok (.int y))
    (h : ∃ k : Int, (a.bind fun x => b.bind (op.exact x)) = some (k : ℚ) ∧ InRange k) :
    ∃ k : Int, (a.bind fun x => b.bind (op.exact x)) = some (k : ℚ) ∧
      combine op left right = .ok (.int k) := by
  obtain ⟨x, rfl, hx⟩ := hleft
  obtain ⟨y, rfl, hy⟩ := hright
  obtain ⟨k, hk, range⟩ := h
  exact ⟨k, hk, combine_eq_int_iff.mpr ⟨x, y, hx, hy, hk, range⟩⟩

theorem exact_of_applySign {a : Constant} (h : applySign sign a = .ok (.int n)) :
    ∃ x : Int, a = .int x ∧ sign.exact x = n := by
  cases a with
  | text => simp [applySign] at h
  | float x => cases sign <;> simp [applySign] at h
  | int x =>
    refine ⟨x, rfl, ?_⟩
    cases sign with
    | plus => simpa [applySign, Sign.exact] using h
    | minus =>
      simp only [applySign] at h
      split at h
      · simp only [Except.ok.injEq, int.injEq] at h
        simp [Sign.exact, ← h]
      · cases h

theorem applySign_of_exact {a : Int} (h : sign.exact a = n) (hn : InRange n) :
    applySign sign (.int a) = .ok (.int n) := by
  cases sign with
  | plus =>
    rw [Sign.exact] at h
    obtain rfl : a = n := by exact_mod_cast h
    rfl
  | minus =>
    rw [Sign.exact] at h
    obtain rfl : -a = n := by exact_mod_cast h
    simp [applySign, hn]

namespace Tree

variable {l l' : Level} {s : Tree l} {e : Tree l'}

theorem value_signed_eq_int {inner : Tree .operand} (h : (signed sign inner).value = .ok (.int n)) :
    ∃ x : Int, inner.value = .ok (.int x) ∧ sign.exact x = n := by
  rw [value] at h
  cases hv : inner.value with
  | error fault => rw [hv] at h; cases h
  | ok a =>
    rw [hv] at h
    obtain ⟨x, rfl, hx⟩ := exact_of_applySign h
    exact ⟨x, rfl, hx⟩

theorem exact_of_value (h : e.value = .ok (.int n)) : e.exact = some (n : ℚ) := by
  induction e generalizing n with
  | int m =>
    obtain rfl : m = n := by simpa [value] using h
    rfl
  | decimal | text => simp [value] at h
  | group b inner ih | factor inner ih | term inner ih => exact ih h
  | signed sign inner ih =>
    obtain ⟨x, hx, hsign⟩ := value_signed_eq_int h
    simp [exact, ih hx, hsign]
  | product left op right ihl ihr | sum left op right ihl ihr =>
    obtain ⟨x, y, hx, hy, hop, -⟩ := combine_eq_int_iff.mp h
    simp [exact, ihl hx, ihr hy, hop]

theorem Within.exists_value (h : s.Within e) (he : ∃ n, e.value = .ok (.int n)) :
    ∃ k, s.value = .ok (.int k) := by
  induction h with
  | self => exact he
  | group _ _ ih | factor _ ih | term _ ih => exact ih he
  | signed sign _ ih =>
    obtain ⟨n, hn⟩ := he
    obtain ⟨x, hx, -⟩ := value_signed_eq_int hn
    exact ih ⟨x, hx⟩
  | productLeft _ _ _ ih | sumLeft _ _ _ ih =>
    obtain ⟨n, hn⟩ := he
    obtain ⟨x, -, hx, -⟩ := combine_eq_int_iff.mp hn
    exact ih ⟨x, hx⟩
  | productRight _ _ _ ih | sumRight _ _ _ ih =>
    obtain ⟨n, hn⟩ := he
    obtain ⟨-, y, -, hy, -⟩ := combine_eq_int_iff.mp hn
    exact ih ⟨y, hy⟩

theorem Within.depth_le (h : s.Within e) : s.depth ≤ e.depth := by
  induction h with
  | self => exact Nat.le_refl _
  | factor _ ih | term _ ih => exact ih
  | group _ _ ih | signed _ _ ih =>
    rw [depth]
    omega
  | productLeft _ _ _ ih | productRight _ _ _ ih | sumLeft _ _ _ ih | sumRight _ _ _ ih =>
    rw [depth]
    omega

def InRange (e : Tree l') : Prop :=
  ∀ {l : Level} (s : Tree l), s.Within e → ∃ k : Int, s.exact = some (k : ℚ) ∧ Constant.InRange k

theorem value_of_exact (integers : ∀ digits, TokenKind.decimal digits ∉ e.spelling)
    (h : e.InRange) : ∃ n : Int, e.exact = some (n : ℚ) ∧ e.value = .ok (.int n) := by
  induction e with
  | int n => exact ⟨n, rfl, rfl⟩
  | decimal digits => exact absurd (List.mem_singleton.mpr rfl) (integers digits)
  | text content =>
    obtain ⟨k, hk, -⟩ := h _ (.self _)
    cases hk
  | group b inner ih =>
    exact ih (fun digits hd => integers digits (by simp [spelling, hd]))
      fun s hs => h s (.group b hs)
  | factor inner ih => exact ih integers fun s hs => h s (.factor hs)
  | term inner ih => exact ih integers fun s hs => h s (.term hs)
  | signed sign inner ih =>
    obtain ⟨x, hx, hv⟩ := ih (fun digits hd => integers digits (by simp [spelling, hd]))
      fun s hs => h s (.signed sign hs)
    obtain ⟨k, hk, range⟩ := h _ (.self _)
    refine ⟨k, hk, ?_⟩
    have denoted : sign.exact x = k := by simpa [exact, hx] using hk
    rw [value, hv]
    exact applySign_of_exact denoted range
  | product left op right ihl ihr =>
    refine exists_combine (ihl ?_ ?_) (ihr ?_ ?_) (h _ (.self _))
    · exact fun digits hd => integers digits (by simp [spelling, hd])
    · exact fun s hs => h s (.productLeft op right hs)
    · exact fun digits hd => integers digits (by simp [spelling, hd])
    · exact fun s hs => h s (.productRight left op hs)
  | sum left op right ihl ihr =>
    refine exists_combine (ihl ?_ ?_) (ihr ?_ ?_) (h _ (.self _))
    · exact fun digits hd => integers digits (by simp [spelling, hd])
    · exact fun s hs => h s (.sumLeft op right hs)
    · exact fun digits hd => integers digits (by simp [spelling, hd])
    · exact fun s hs => h s (.sumRight left op hs)

def asSum : {l : Level} → Tree l → Tree .sum
  | .operand, e => .term (.factor e)
  | .product, e => .term e
  | .sum, e => e

theorem evaluate_spelling (s : Tree l) (hs : s.depth ≤ 31) {tokens : List Token}
    (h : tokens.map (·.kind) = s.spelling) : evaluate tokens = s.value := by
  have spelled : tokens.map (·.kind) = s.asSum.spelling := by cases l <;> exact h
  have shallow : s.asSum.depth < maxDepth := by cases l <;> exact Nat.lt_succ_of_le hs
  have same : s.asSum.value = s.value := by cases l <;> rfl
  rw [evaluate_eq_valueWithin spelled, valueWithin_eq_value _ shallow, same]

end Tree

/-- An integer result is the exact value of the expression, and so is that of each part of it; and
where all exact values are integers in range, they are the results. -/
theorem evaluate_integer :
    (∀ tokens n, evaluate tokens = .ok (.int n) →
      (∃ e : Tree .sum, tokens.map (·.kind) = e.spelling) ∧
      ∀ e : Tree .sum, tokens.map (·.kind) = e.spelling →
        e.exact = some (n : ℚ) ∧
        ∀ {l : Level} (s : Tree l), s.Within e →
          ∃ k : Int, s.exact = some (k : ℚ) ∧
            ∀ part, part.map (·.kind) = s.spelling → evaluate part = .ok (.int k)) ∧
    (∀ (e : Tree .sum) tokens, tokens.map (·.kind) = e.spelling → e.depth ≤ 31 →
      (∀ t ∈ tokens, ∀ x, t.kind ≠ .decimal x ∧ t.kind ≠ .quoted x) →
      (∀ {l : Level} (s : Tree l), s.Within e →
        ∃ k : Int, s.exact = some (k : ℚ) ∧ -2 ^ 63 ≤ k ∧ k < 2 ^ 63) →
      ∃ n : Int, e.exact = some (n : ℚ) ∧ evaluate tokens = .ok (.int n)) := by
  constructor
  · intro tokens n h
    obtain ⟨e₀, spelled, -⟩ := exists_tree_of_evaluate h
    refine ⟨⟨e₀, spelled⟩, fun e he => ?_⟩
    rw [evaluate_eq_valueWithin he, Tree.valueWithin_eq_ok_iff] at h
    obtain ⟨shallow, hvalue⟩ := h
    refine ⟨Tree.exact_of_value hvalue, fun s hs => ?_⟩
    obtain ⟨k, hk⟩ := hs.exists_value ⟨n, hvalue⟩
    refine ⟨k, Tree.exact_of_value hk, fun part hpart => ?_⟩
    rw [s.evaluate_spelling (hs.depth_le.trans (Nat.le_of_lt_succ shallow)) hpart, hk]
  · intro e tokens spelled shallow integers parts
    have noDecimal : ∀ digits, TokenKind.decimal digits ∉ e.spelling := by
      intro digits hd
      rw [← spelled] at hd
      obtain ⟨t, ht, kind⟩ := List.mem_map.mp hd
      exact (integers t ht digits).1 kind
    have range : e.InRange := by
      intro l s hs
      obtain ⟨k, hk, low, high⟩ := parts s hs
      exact ⟨k, hk, by omega, by omega⟩
    obtain ⟨n, hn, hvalue⟩ := Tree.value_of_exact noDecimal range
    exact ⟨n, hn, (e.evaluate_spelling shallow spelled).trans hvalue⟩

def leastTree : Tree .sum :=
  .sum (.term (.factor (.signed .minus (.int 9223372036854775807)))) .minus (.factor (.int 1))

def leastTokens : List Token := leastTree.spelling.map fun kind => ⟨kind, "", 0⟩

theorem within_leastTree {l : Level} {s : Tree l} (h : s.Within leastTree) :
    s.exact = some ((-2 ^ 63 : Int) : ℚ) ∨ s.exact = some ((-(2 ^ 63 - 1) : Int) : ℚ) ∨
      s.exact = some ((2 ^ 63 - 1 : Int) : ℚ) ∨ s.exact = some ((1 : Int) : ℚ) := by
  cases h with
  | self => decide +kernel
  | sumLeft _ _ h =>
    cases h with
    | self => decide +kernel
    | term h =>
      cases h with
      | self => decide +kernel
      | factor h =>
        cases h with
        | self => decide +kernel
        | signed _ h =>
          cases h
          decide +kernel
  | sumRight _ _ h =>
    cases h with
    | self => decide +kernel
    | factor h =>
      cases h
      decide +kernel

theorem evaluate_integer_least :
    evaluate leastTokens = .ok (.int (-2 ^ 63)) ∧ leastTree.exact = some ((-2 ^ 63 : Int) : ℚ) ∧
      ∀ {l : Level} (s : Tree l), s.Within leastTree →
        ∃ k : Int, s.exact = some (k : ℚ) ∧
          ∀ part, part.map (·.kind) = s.spelling → evaluate part = .ok (.int k) := by
  obtain ⟨n, hn, evaluated⟩ := evaluate_integer.2 leastTree leastTokens (by decide +kernel)
    (by decide) (by simp [leastTokens, leastTree, Tree.spelling]) fun s hs => by
      rcases within_leastTree hs with hs | hs | hs | hs
      all_goals exact ⟨_, hs, by decide, by decide⟩
  obtain ⟨-, exact⟩ := evaluate_integer.1 leastTokens n evaluated
  obtain ⟨denoted, parts⟩ := exact leastTree (by decide +kernel)
  obtain rfl : n = -2 ^ 63 := by
    have least : leastTree.exact = some ((-2 ^ 63 : Int) : ℚ) := by decide +kernel
    rw [least, Option.some.injEq] at hn
    exact_mod_cast hn.symm
  exact ⟨evaluated, denoted, parts⟩

end Constant

end Datatypes
