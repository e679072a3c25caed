import Datatypes.Proofs.Declaration.Guard
import Mathlib.Data.List.Infix
import Mathlib.Data.List.Induction

/-!
Brackets among tokens, of which the two kinds count alike. What is open behind some tokens is their
balance; a bracket that is never closed again encloses what follows; and a value goes on as long as
every comma and every closing bracket stands inside brackets that are open.
-/

namespace Datatypes.Token

variable {t : Token} {before part : List Token}

def opens (t : Token) : Bool := t.isSymbol '(' || t.isSymbol '['

theorem balance_of_opens (h : t.opens = true) : balance [t] = 1 := by
  have kind : t.kind = .symbol '(' ∨ t.kind = .symbol '[' := by simpa [opens, isSymbol] using h
  rcases kind with kind | kind <;> simp [balance, isSymbol, kind]

theorem balance_of_not_opens (h : t.opens = false) : balance [t] ≤ 0 := by
  have none : [t].countP (fun t => t.isSymbol '(' || t.isSymbol '[') = 0 := by
    simpa [opens] using h
  rw [balance, none]
  omega

def NeverBelow (ts : List Token) : Prop := ∀ part, part <+: ts → 0 ≤ balance part

theorem NeverBelow.concat {ts : List Token} (h : NeverBelow ts) (ht : 0 ≤ balance (ts ++ [t])) :
    NeverBelow (ts ++ [t]) := by
  intro part hp
  rcases List.prefix_concat_iff.mp hp with rfl | hp
  · exact ht
  · exact h part hp

def Encloses (before : List Token) : Prop :=
  ∃ front bracket inner, before = front ++ bracket :: inner ∧ bracket.opens = true ∧
    NeverBelow inner

theorem exists_bracket {level : Int} (hp : part <+: before) (hpart : balance part ≤ level)
    (h : level < balance before) :
    ∃ front bracket inner, before = front ++ bracket :: inner ∧ bracket.opens = true ∧
      NeverBelow inner ∧ balance front = level := by
  induction before using List.reverseRecOn with
  | nil =>
    obtain rfl := List.prefix_nil.mp hp
    omega
  | append_singleton ts t ih =>
    have inside : part <+: ts := by
      rcases List.prefix_concat_iff.mp hp with rfl | hp
      · omega
      · exact hp
    rw [balance_append] at h
    by_cases last : balance ts = level
    · have opens : t.opens = true := by
        by_contra closed
        have := balance_of_not_opens (by simpa using closed)
        omega
      exact ⟨ts, t, [], rfl, opens, fun part hp => by simp [List.prefix_nil.mp hp, balance], last⟩
    · have below : level < balance ts := by
        by_cases ht : t.opens = true
        · have := balance_of_opens ht
          omega
        · have := balance_of_not_opens (by simpa using ht)
          omega
      obtain ⟨front, bracket, inner, rfl, hb, hinner, hfront⟩ := ih inside below
      refine ⟨front, bracket, inner ++ [t], by simp, hb, hinner.concat ?_, hfront⟩
      rw [balance_append, balance_cons, balance_of_opens hb] at h
      rw [balance_append]
      omega

theorem encloses_iff :
    Encloses before ↔ ∃ part, part <+: before ∧ balance part < balance before := by
  constructor
  · rintro ⟨front, bracket, inner, rfl, hb, hinner⟩
    refine ⟨front, List.prefix_append _ _, ?_⟩
    have kept : 0 ≤ balance inner := hinner inner List.prefix_rfl
    rw [balance_append, balance_cons, balance_of_opens hb]
    omega
  · rintro ⟨part, hp, hlt⟩
    obtain ⟨front, bracket, inner, hbefore, hb, hinner, -⟩ :=
      exists_bracket hp (Int.le_refl _) hlt
    exact ⟨front, bracket, inner, hbefore, hb, hinner⟩

instance (ts : List Token) : Decidable (NeverBelow ts) :=
  decidable_of_iff (∀ part ∈ ts.inits, 0 ≤ balance part) (by simp [NeverBelow])

instance (before : List Token) : Decidable (Encloses before) :=
  decidable_of_iff (∃ part ∈ before.inits, balance part < balance before)
    (by simp [encloses_iff])

/-- Inside so many brackets none of the tokens ends a value. -/
def StaysInside (depth : Int) (ts : List Token) : Prop :=
  ∀ before t after, ts = before ++ t :: after → (∃ c ∈ [',', ')', ']'], t.kind = .symbol c) →
    0 < depth + balance before

theorem staysInside_nil (depth : Int) : StaysInside depth [] := by
  intro before t after h
  simp at h

theorem staysInside_cons {depth : Int} {ts : List Token} :
    StaysInside depth (t :: ts) ↔
      ((∃ c ∈ [',', ')', ']'], t.kind = .symbol c) → 0 < depth) ∧
        StaysInside (depth + balance [t]) ts :=
  forall_split_cons

theorem StaysInside.append {depth : Int} {ts us : List Token} (h : StaysInside depth ts)
    (h' : StaysInside (depth + balance ts) us) : StaysInside depth (ts ++ us) := by
  induction ts generalizing depth with
  | nil => simpa [balance] using h'
  | cons t ts ih =>
    obtain ⟨first, rest⟩ := staysInside_cons.mp h
    rw [balance_cons, ← Int.add_assoc] at h'
    exact staysInside_cons.mpr ⟨first, ih rest h'⟩

structure Closed (ts : List Token) : Prop where
  balanced : balance ts = 0
  inside : ∀ depth, 0 ≤ depth → StaysInside depth ts

namespace Closed

variable {ts us : List Token} {opening closing : Token}

theorem append (h : Closed ts) (h' : Closed us) : Closed (ts ++ us) := by
  refine ⟨by rw [balance_append, h.balanced, h'.balanced]; rfl, fun depth hd => ?_⟩
  refine (h.inside depth hd).append (h'.inside _ ?_)
  rw [h.balanced]
  omega

theorem singleton (h : ∀ c ∈ ['(', '[', ',', ')', ']'], t.kind ≠ .symbol c) : Closed [t] := by
  simp only [List.mem_cons, List.not_mem_nil, or_false, forall_eq_or_imp, forall_eq] at h
  refine ⟨by simp [balance, isSymbol, h], fun depth _ => ?_⟩
  refine staysInside_cons.mpr ⟨?_, staysInside_nil _⟩
  simp [h]

theorem brackets (h : Closed ts) (ho : opening.opens = true)
    (hc : closing.kind = .symbol ')' ∨ closing.kind = .symbol ']') :
    Closed (opening :: (ts ++ [closing])) := by
  have closes : balance [closing] = -1 := by
    rcases hc with hc | hc <;> simp [balance, isSymbol, hc]
  have opened : ¬ ∃ c ∈ [',', ')', ']'], opening.kind = .symbol c := by
    have kind : opening.kind = .symbol '(' ∨ opening.kind = .symbol '[' := by
      simpa [opens, isSymbol] using ho
    rcases kind with kind | kind <;> simp [kind]
  constructor
  · rw [balance_cons, balance_append, balance_of_opens ho, h.balanced, closes]
    rfl
  · intro depth hd
    refine staysInside_cons.mpr ⟨fun stops => absurd stops opened, ?_⟩
    rw [balance_of_opens ho]
    refine (h.inside _ (by omega)).append (staysInside_cons.mpr ⟨fun _ => ?_, staysInside_nil _⟩)
    rw [h.balanced]
    omega

end Closed

end Datatypes.Token
