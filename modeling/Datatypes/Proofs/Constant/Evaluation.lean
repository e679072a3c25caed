import Datatypes.Proofs.Constant.Tree

/-!
Evaluation accepts exactly the spellings of trees, and gives them the value of their tree. A
reader is followed through the tokens of a tree with the actual tokens behind it present, so
that each level knows where its chain of operators stops.
-/

namespace Datatypes.Constant

variable {operator? : List Token → Option (Operator × List Token)} {operand : Reader}

def readBoundedChain (operator? : List Token → Option (Operator × List Token)) (operand : Reader)
    (n : Nat) : Reader := fun tokens =>
  (operand tokens).bind fun (left, rest) => readOperations operator? operand n left rest

theorem readChain_eq (tokens : List Token) :
    readChain operator? operand tokens =
      readBoundedChain operator? operand tokens.length tokens := by
  rw [readChain, readBoundedChain]
  cases operand tokens <;> rfl

theorem readBoundedChain_first {tokens rest : List Token} {value : Except ConstantError Constant}
    (h : operand tokens = value.map (·, rest)) (n : Nat) :
    readBoundedChain operator? operand n tokens =
      value.bind fun v => readOperations operator? operand n v rest := by
  rw [readBoundedChain, h]
  cases value <;> rfl

theorem readOperations_of_none {tokens : List Token} (h : operator? tokens = none) (n : Nat)
    (left : Constant) : readOperations operator? operand n left tokens = .ok (left, tokens) := by
  cases n with
  | zero => rfl
  | succ n => rw [readOperations, h]

theorem readBoundedChain_operation {m n : Nat} {tokens middle rest rest' : List Token}
    {op : Operator} {left right : Except ConstantError Constant}
    (hleft : readBoundedChain operator? operand m tokens =
      left.bind fun v => readOperations operator? operand (n + 1) v middle)
    (hop : operator? middle = some (op, rest)) (hright : operand rest = right.map (·, rest')) :
    readBoundedChain operator? operand m tokens =
      (combine op left right).bind fun v => readOperations operator? operand n v rest' := by
  rw [hleft]
  cases left with
  | error e => rfl
  | ok a =>
    cases right with
    | error e => simp [readOperations, hop, hright, combine, Except.bind, Except.map]
    | ok b =>
      simp only [readOperations, hop, hright, combine, Except.bind, Except.map]
      cases apply op a b <;> rfl

theorem readOperand_of_primary {room : Nat} {tokens : List Token} (h : sign? tokens = none) :
    readOperand (room + 1) tokens = readPrimary (readOperand room) tokens := by
  simp only [readOperand, h]

theorem readOperand_of_sign {room : Nat} {tokens rest : List Token} {sign : Sign}
    (h : sign? tokens = some (sign, rest)) :
    readOperand (room + 1) tokens =
      (readOperand room rest).bind fun (v, rest) => (applySign sign v).map (·, rest) := by
  simp only [readOperand, h]
  cases readOperand room rest <;> rfl

theorem sign?_eq_some_iff {tokens rest : List Token} {sign : Sign} :
    sign? tokens = some (sign, rest) ↔
      ∃ t, tokens = t :: rest ∧ t.kind = .symbol sign.operator.symbol := by
  constructor
  · intro h
    cases tokens with
    | nil => simp [sign?] at h
    | cons t ts =>
      rw [sign?] at h
      split at h
      · next ht =>
        cases h
        exact ⟨t, rfl, of_decide_eq_true ht⟩
      split at h
      · next ht =>
        cases h
        exact ⟨t, rfl, of_decide_eq_true ht⟩
      · cases h
  · rintro ⟨t, rfl, ht⟩
    cases sign <;> simp [sign?, Token.isSymbol, ht, Sign.operator, Operator.symbol]

theorem sumOperator?_eq_map (tokens : List Token) :
    sumOperator? tokens = (sign? tokens).map fun (sign, rest) => (sign.operator, rest) := by
  cases tokens with
  | nil => rfl
  | cons t ts =>
    rw [sumOperator?, sign?]
    split
    · rfl
    split <;> rfl

theorem sumOperator?_eq_some_iff {tokens rest : List Token} {op : Operator} :
    sumOperator? tokens = some (op, rest) ↔
      ∃ t, ∃ sign : Sign, tokens = t :: rest ∧ op = sign.operator ∧ t.kind = .symbol op.symbol := by
  rw [sumOperator?_eq_map]
  constructor
  · intro h
    simp only [Option.map_eq_some_iff, Prod.exists, Prod.mk.injEq] at h
    obtain ⟨sign, r, hs, rfl, rfl⟩ := h
    obtain ⟨t, rfl, ht⟩ := sign?_eq_some_iff.mp hs
    exact ⟨t, sign, rfl, rfl, ht⟩
  · rintro ⟨t, sign, rfl, rfl, ht⟩
    rw [sign?_eq_some_iff.mpr ⟨t, rfl, ht⟩]
    rfl

theorem productOperator?_eq_some_iff {tokens rest : List Token} {op : Operator} :
    productOperator? tokens = some (op, rest) ↔
      ∃ t, ∃ factor : Factor, tokens = t :: rest ∧ op = factor.operator ∧
        t.kind = .symbol op.symbol := by
  constructor
  · intro h
    cases tokens with
    | nil => simp [productOperator?] at h
    | cons t ts =>
      rw [productOperator?] at h
      split at h
      · next ht =>
        cases h
        exact ⟨t, .times, rfl, rfl, of_decide_eq_true ht⟩
      split at h
      · next ht =>
        cases h
        exact ⟨t, .over, rfl, rfl, of_decide_eq_true ht⟩
      · cases h
  · rintro ⟨t, factor, rfl, rfl, ht⟩
    cases factor <;> simp [productOperator?, Token.isSymbol, ht, Factor.operator, Operator.symbol]

def Ends (tokens : List Token) : Prop :=
  sumOperator? tokens = none ∧ productOperator? tokens = none

theorem ends_nil : Ends [] := ⟨rfl, rfl⟩

theorem ends_closing {t : Token} {b : Bracket} (ht : t.kind = .symbol b.closing)
    (rest : List Token) : Ends (t :: rest) := by
  cases b <;> simp [Ends, sumOperator?, productOperator?, Token.isSymbol, ht, Bracket.closing]

theorem productOperator?_of_sign {t : Token} {sign : Sign}
    (ht : t.kind = .symbol sign.operator.symbol) (rest : List Token) :
    productOperator? (t :: rest) = none := by
  cases sign <;>
    simp [productOperator?, Token.isSymbol, ht, Sign.operator, Operator.symbol]

namespace Tree

def operations {l : Level} : Tree l → Nat
  | .product left _ _ => left.operations + 1
  | .sum left _ _ => left.operations + 1
  | _ => 0

theorem operations_le {l : Level} (e : Tree l) : e.operations ≤ e.spelling.length := by
  induction e with
  | product left op right ihl ihr | sum left op right ihl ihr =>
    simp only [operations, spelling, List.length_append, List.length_cons]
    omega
  | _ => simp [operations]

def Reads : {l : Level} → Tree l → Prop
  | .operand, e => ∀ room tokens rest, tokens.map (·.kind) = e.spelling →
      readOperand room (tokens ++ rest) = (e.valueWithin room).map (·, rest)
  | .product, e => ∀ room n tokens rest, tokens.map (·.kind) = e.spelling →
      readBoundedChain productOperator? (readOperand room) (n + e.operations) (tokens ++ rest) =
        (e.valueWithin room).bind fun v =>
          readOperations productOperator? (readOperand room) n v rest
  | .sum, e => ∀ room n tokens rest, tokens.map (·.kind) = e.spelling →
      productOperator? rest = none →
      readBoundedChain sumOperator? (readChain productOperator? (readOperand room))
          (n + e.operations) (tokens ++ rest) =
        (e.valueWithin room).bind fun v =>
          readOperations sumOperator? (readChain productOperator? (readOperand room)) n v rest

theorem Reads.readChain_product {e : Tree .product} (h : e.Reads) {room : Nat}
    {tokens rest : List Token} (hs : tokens.map (·.kind) = e.spelling)
    (hr : productOperator? rest = none) :
    readChain productOperator? (readOperand room) (tokens ++ rest) =
      (e.valueWithin room).map (·, rest) := by
  have bound : e.operations ≤ (tokens ++ rest).length := by
    have := e.operations_le
    rw [← hs, List.length_map] at this
    rw [List.length_append]
    omega
  obtain ⟨n, hn⟩ := Nat.exists_eq_add_of_le' bound
  rw [readChain_eq, hn, h room n tokens rest hs]
  cases e.valueWithin room with
  | error fault => rfl
  | ok v => exact readOperations_of_none hr n v

theorem Reads.readSum {e : Tree .sum} (h : e.Reads) {room : Nat} {tokens rest : List Token}
    (hs : tokens.map (·.kind) = e.spelling) (hr : Ends rest) :
    readSum (readOperand room) (tokens ++ rest) = (e.valueWithin room).map (·, rest) := by
  have bound : e.operations ≤ (tokens ++ rest).length := by
    have := e.operations_le
    rw [← hs, List.length_map] at this
    rw [List.length_append]
    omega
  obtain ⟨n, hn⟩ := Nat.exists_eq_add_of_le' bound
  rw [Constant.readSum, readChain_eq, hn, h room n tokens rest hs hr.2]
  cases e.valueWithin room with
  | error fault => rfl
  | ok v => exact readOperations_of_none hr.1 n v

theorem reads {l : Level} (e : Tree l) : e.Reads := by
  induction e with
  | int n | decimal digits | text content =>
    intro room tokens rest hs
    obtain ⟨t, ts, rfl, ht, hts⟩ := List.map_eq_cons_iff.mp hs
    obtain rfl := List.map_eq_nil_iff.mp hts
    cases room with
    | zero => rfl
    | succ room =>
      have unsigned : sign? (t :: rest) = none := by simp [sign?, Token.isSymbol, ht]
      rw [List.singleton_append, readOperand_of_primary unsigned]
      simp only [readPrimary, ht]
      rfl
  | group b inner ih =>
    intro room tokens rest hs
    obtain ⟨t, ts, rfl, ht, hts⟩ := List.map_eq_cons_iff.mp hs
    obtain ⟨us, cs, rfl, hus, hcs⟩ := List.map_eq_append_iff.mp hts
    obtain ⟨u, cs, rfl, hu, hcs⟩ := List.map_eq_cons_iff.mp hcs
    obtain rfl := List.map_eq_nil_iff.mp hcs
    cases room with
    | zero => rfl
    | succ room =>
      have closed : readGroup b.closing (readOperand room) (us ++ u :: rest) =
          (inner.valueWithin room).map (·, rest) := by
        rw [readGroup, ih.readSum hus (ends_closing hu rest)]
        cases inner.valueWithin room with
        | error fault => rfl
        | ok v => simp [Except.map, Token.isSymbol, hu]
      have unsigned : sign? (t :: (us ++ [u] ++ rest)) = none := by
        cases b <;> simp [sign?, Token.isSymbol, ht, Bracket.opening]
      rw [List.cons_append, readOperand_of_primary unsigned, List.append_assoc,
        List.singleton_append, valueWithin, ← closed]
      cases b <;> simp only [readPrimary, ht, Bracket.opening, Bracket.closing]
  | signed sign inner ih =>
    intro room tokens rest hs
    obtain ⟨t, ts, rfl, ht, hts⟩ := List.map_eq_cons_iff.mp hs
    cases room with
    | zero => rfl
    | succ room =>
      rw [List.cons_append, readOperand_of_sign (sign?_eq_some_iff.mpr ⟨t, rfl, ht⟩),
        ih room ts rest hts, valueWithin]
      cases inner.valueWithin room <;> rfl
  | factor inner ih =>
    intro room n tokens rest hs
    exact readBoundedChain_first (ih room tokens rest hs) n
  | product left op right ihl ihr =>
    intro room n tokens rest hs
    obtain ⟨ts, us, rfl, hts, hus⟩ := List.map_eq_append_iff.mp hs
    obtain ⟨t, us, rfl, ht, hus⟩ := List.map_eq_cons_iff.mp hus
    have hleft := ihl room (n + 1) ts (t :: (us ++ rest)) hts
    rw [Nat.add_assoc, Nat.add_comm 1] at hleft
    have hop : productOperator? (t :: (us ++ rest)) = some (op.operator, us ++ rest) :=
      productOperator?_eq_some_iff.mpr ⟨t, op, rfl, rfl, ht⟩
    rw [List.append_assoc, List.cons_append]
    exact readBoundedChain_operation hleft hop (ihr room us rest hus)
  | term inner ih =>
    intro room n tokens rest hs hr
    exact readBoundedChain_first (ih.readChain_product hs hr) n
  | sum left op right ihl ihr =>
    intro room n tokens rest hs hr
    obtain ⟨ts, us, rfl, hts, hus⟩ := List.map_eq_append_iff.mp hs
    obtain ⟨t, us, rfl, ht, hus⟩ := List.map_eq_cons_iff.mp hus
    have hleft := ihl room (n + 1) ts (t :: (us ++ rest)) hts (productOperator?_of_sign ht _)
    rw [Nat.add_assoc, Nat.add_comm 1] at hleft
    have hop : sumOperator? (t :: (us ++ rest)) = some (op.operator, us ++ rest) :=
      sumOperator?_eq_some_iff.mpr ⟨t, op, rfl, rfl, ht⟩
    rw [List.append_assoc, List.cons_append]
    exact readBoundedChain_operation hleft hop (ihr.readChain_product hus hr)

end Tree

theorem combine_ok (op : Operator) (a b : Constant) :
    combine op (.ok a) (.ok b) = apply op a b := rfl

def Spells (l : Level) (room : Nat) (reader : Reader) : Prop :=
  ∀ tokens v rest, reader tokens = .ok (v, rest) →
    ∃ (e : Tree l) (used : List Token), tokens = used ++ rest ∧
      used.map (·.kind) = e.spelling ∧ e.valueWithin room = .ok v

structure Chains (chain link : Level)
    (operator? : List Token → Option (Operator × List Token)) where
  Op : Type
  operator : Op → Operator
  first : Tree link → Tree chain
  more : Tree chain → Op → Tree link → Tree chain
  first_spelling : ∀ e, (first e).spelling = e.spelling
  first_value : ∀ e room, (first e).valueWithin room = e.valueWithin room
  more_spelling : ∀ e op f,
    (more e op f).spelling = e.spelling ++ .symbol (operator op).symbol :: f.spelling
  more_value : ∀ e op f room, (more e op f).valueWithin room =
    combine (operator op) (e.valueWithin room) (f.valueWithin room)
  operator_of_some : ∀ tokens op rest, operator? tokens = some (op, rest) →
    ∃ t, ∃ o : Op, tokens = t :: rest ∧ op = operator o ∧ t.kind = .symbol op.symbol

def productChains : Chains .product .operand productOperator? where
  Op := Factor
  operator := Factor.operator
  first := .factor
  more := .product
  first_spelling := fun _ => rfl
  first_value := fun _ _ => rfl
  more_spelling := fun _ _ _ => rfl
  more_value := fun _ _ _ _ => rfl
  operator_of_some := fun _ _ _ => productOperator?_eq_some_iff.mp

def sumChains : Chains .sum .product sumOperator? where
  Op := Sign
  operator := Sign.operator
  first := .term
  more := .sum
  first_spelling := fun _ => rfl
  first_value := fun _ _ => rfl
  more_spelling := fun _ _ _ => rfl
  more_value := fun _ _ _ _ => rfl
  operator_of_some := fun _ _ _ => sumOperator?_eq_some_iff.mp

namespace Chains

variable {chain link : Level} {room : Nat}

theorem exists_of_readOperations (c : Chains chain link operator?)
    (hlink : Spells link room operand) (n : Nat) {left : Tree chain} {a v : Constant}
    {tokens rest : List Token} (hleft : left.valueWithin room = .ok a)
    (h : readOperations operator? operand n a tokens = .ok (v, rest)) :
    ∃ (e : Tree chain) (used : List Token), tokens = used ++ rest ∧
      e.spelling = left.spelling ++ used.map (·.kind) ∧ e.valueWithin room = .ok v := by
  induction n generalizing left a tokens with
  | zero =>
    cases h
    exact ⟨left, [], rfl, by simp, hleft⟩
  | succ n ih =>
    rw [readOperations] at h
    split at h
    · cases h
      exact ⟨left, [], rfl, by simp, hleft⟩
    next op after hop =>
    split at h
    · cases h
    next b rest' hb =>
    split at h
    · cases h
    next value happly =>
    obtain ⟨t, o, rfl, rfl, ht⟩ := c.operator_of_some _ _ _ hop
    obtain ⟨f, used, rfl, hspell, hf⟩ := hlink _ _ _ hb
    have hmore : (c.more left o f).valueWithin room = .ok value := by
      rw [c.more_value, hleft, hf, combine_ok, happly]
    obtain ⟨e, used', rfl, hspell', he⟩ := ih hmore h
    refine ⟨e, t :: used ++ used', by simp, ?_, he⟩
    rw [hspell', c.more_spelling]
    simp [ht, hspell]

theorem spells_readChain (c : Chains chain link operator?) (hlink : Spells link room operand) :
    Spells chain room (readChain operator? operand) := by
  intro tokens v rest h
  rw [readChain] at h
  split at h
  · cases h
  next a after ha =>
  obtain ⟨f, used, rfl, hspell, hf⟩ := hlink _ _ _ ha
  have hfirst : (c.first f).valueWithin room = .ok a := by rw [c.first_value, hf]
  obtain ⟨e, used', rfl, hspell', he⟩ := c.exists_of_readOperations hlink _ hfirst h
  refine ⟨e, used ++ used', by simp, ?_, he⟩
  rw [hspell', c.first_spelling, ← hspell, List.map_append]

end Chains

theorem spells_readSum {room : Nat} (h : Spells .operand room (readOperand room)) :
    Spells .sum room (readSum (readOperand room)) :=
  sumChains.spells_readChain (productChains.spells_readChain h)

theorem exists_of_readGroup {room : Nat} (h : Spells .operand room (readOperand room)) (b : Bracket)
    {t : Token} {tokens rest : List Token} {v : Constant} (ht : t.kind = .symbol b.opening)
    (hg : readGroup b.closing (readOperand room) tokens = .ok (v, rest)) :
    ∃ (e : Tree .operand) (used : List Token), t :: tokens = used ++ rest ∧
      used.map (·.kind) = e.spelling ∧ e.valueWithin (room + 1) = .ok v := by
  rw [readGroup] at hg
  split at hg
  · cases hg
  · cases hg
  next value u after hsum =>
  split at hg
  · next hu =>
    cases hg
    obtain ⟨e, used, rfl, hspell, he⟩ := spells_readSum h _ _ _ hsum
    refine ⟨.group b e, t :: used ++ [u], by simp, ?_, he⟩
    have closing : u.kind = .symbol b.closing := of_decide_eq_true hu
    simp [Tree.spelling, ht, hspell, closing]
  · cases hg

theorem spells_readPrimary {room : Nat} (h : Spells .operand room (readOperand room)) :
    Spells .operand (room + 1) (readPrimary (readOperand room)) := by
  intro tokens v rest hp
  cases tokens with
  | nil => cases hp
  | cons t tokens =>
    rw [readPrimary] at hp
    split at hp
    · next n ht =>
      cases hp
      exact ⟨.int n, [t], rfl, by simp [ht, Tree.spelling], rfl⟩
    · next digits ht =>
      cases hp
      exact ⟨.decimal digits, [t], rfl, by simp [ht, Tree.spelling], rfl⟩
    · next content ht =>
      cases hp
      exact ⟨.text content, [t], rfl, by simp [ht, Tree.spelling], rfl⟩
    · next ht => exact exists_of_readGroup h .round ht hp
    · next ht => exact exists_of_readGroup h .square ht hp
    · cases hp

theorem spells_readOperand (room : Nat) : Spells .operand room (readOperand room) := by
  induction room with
  | zero =>
    intro tokens v rest h
    cases h
  | succ room ih =>
    intro tokens v rest h
    cases hs : sign? tokens with
    | some signed =>
      obtain ⟨sign, after⟩ := signed
      obtain ⟨t, rfl, ht⟩ := sign?_eq_some_iff.mp hs
      rw [readOperand_of_sign hs] at h
      cases hr : readOperand room after with
      | error fault => rw [hr] at h; cases h
      | ok read =>
        obtain ⟨a, rest'⟩ := read
        obtain ⟨e, used, rfl, hspell, he⟩ := ih _ _ _ hr
        rw [hr] at h
        cases hv : applySign sign a with
        | error fault => simp [Except.bind, Except.map, hv] at h
        | ok value =>
          simp only [Except.bind, Except.map, hv, Except.ok.injEq, Prod.mk.injEq] at h
          obtain ⟨rfl, rfl⟩ := h
          refine ⟨.signed sign e, t :: used, rfl, by simp [Tree.spelling, ht, hspell], ?_⟩
          rw [Tree.valueWithin, he]
          exact hv
    | none =>
      rw [readOperand_of_primary hs] at h
      exact spells_readPrimary ih _ _ _ h

theorem evaluate_eq_valueWithin {tokens : List Token} {e : Tree .sum}
    (h : tokens.map (·.kind) = e.spelling) : evaluate tokens = e.valueWithin maxDepth := by
  have read : readSum (readOperand maxDepth) (tokens ++ []) =
      (e.valueWithin maxDepth).map (·, []) := e.reads.readSum h ends_nil
  rw [List.append_nil] at read
  rw [evaluate, read]
  cases e.valueWithin maxDepth <;> rfl

theorem exists_tree_of_evaluate {tokens : List Token} {v : Constant} (h : evaluate tokens = .ok v) :
    ∃ e : Tree .sum, tokens.map (·.kind) = e.spelling ∧ e.valueWithin maxDepth = .ok v := by
  rw [evaluate] at h
  split at h
  · cases h
  · next value hsum =>
    cases h
    obtain ⟨e, used, rfl, hspell, he⟩ := spells_readSum (spells_readOperand maxDepth) _ _ _ hsum
    exact ⟨e, by simpa using hspell, he⟩
  · cases h

/-- Evaluation accepts exactly the spellings of trees that nest at most 31 levels and have a
value, gives such a spelling the value or the fault of its tree, and refuses deeper trees. -/
theorem evaluate_exact :
    (∀ tokens v, evaluate tokens = .ok v ↔
      ∃ e : Tree .sum, tokens.map (·.kind) = e.spelling ∧ e.depth ≤ 31 ∧ e.value = .ok v) ∧
    (∀ (e : Tree .sum) tokens, tokens.map (·.kind) = e.spelling → e.depth ≤ 31 →
      evaluate tokens = e.value) ∧
    (∀ (e : Tree .sum) tokens, tokens.map (·.kind) = e.spelling → 32 ≤ e.depth →
      ∃ fault, evaluate tokens = .error fault) := by
  refine ⟨fun tokens v => ⟨?_, ?_⟩, ?_, ?_⟩
  · intro h
    obtain ⟨e, hspell, he⟩ := exists_tree_of_evaluate h
    obtain ⟨hdepth, hvalue⟩ := Tree.valueWithin_eq_ok_iff.mp he
    exact ⟨e, hspell, Nat.le_of_lt_succ hdepth, hvalue⟩
  · rintro ⟨e, hspell, hdepth, hvalue⟩
    rw [evaluate_eq_valueWithin hspell]
    exact Tree.valueWithin_eq_ok_iff.mpr ⟨Nat.lt_succ_of_le hdepth, hvalue⟩
  · intro e tokens hspell hdepth
    rw [evaluate_eq_valueWithin hspell]
    exact e.valueWithin_eq_value (Nat.lt_succ_of_le hdepth)
  · intro e tokens hspell hdepth
    rw [evaluate_eq_valueWithin hspell]
    exact e.valueWithin_eq_error hdepth

end Datatypes.Constant
