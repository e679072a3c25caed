import Datatypes.Proofs.Declaration.Brackets
import Datatypes.Proofs.Declaration.Outcome
import Datatypes.Proofs.Declaration.Run

/-!
Where a source is rejected. A fault is found at the first token that cannot be read, whatever
stands behind it, and it is ascribed to the line of that token; only a value that has none is
ascribed to the name of its case. At the end of a source the line is that of its last token.
-/

namespace Datatypes

def ParseFault.isEnd : ParseFault → Bool
  | .unexpectedEnd | .neverClosed _ => true
  | _ => false

def ParseError.AtEnd (e : ParseError) : Prop :=
  e.message = "unexpected end of input" ∨
    ∃ ns, e.message = "namespace '" ++ ns ++ "' is never closed"

theorem ParseFault.take_message {fault : ParseFault} (h : fault.isEnd = false) :
    fault.message.toList.take 3 ∉ [['u', 'n', 'e'], ['n', 'a', 'm']] := by
  unfold message
  cases fault with
  | unexpectedEnd | neverClosed => cases h
  | unclosed what => cases what <;> simp
  | _ => simp

theorem ParseError.atEnd_iff {e : ParseError} : e.AtEnd ↔ e.fault.isEnd = true := by
  constructor
  · intro h
    by_contra hend
    refine e.fault.take_message (by simpa using hend) ?_
    rcases h with h | ⟨ns, h⟩
    · rw [← message, h]
      simp
    · rw [← message, h]
      simp
  · intro h
    rw [AtEnd, message]
    cases hf : e.fault with
    | unexpectedEnd => exact .inl rfl
    | neverClosed ns => exact .inr ⟨ns, rfl⟩
    | _ => simp [ParseFault.isEnd, hf] at h

namespace Declaration

open Token (balance StaysInside)

def ExpectsCase (ts : List Token) : Prop :=
  ∃ m d values, Machine.steps {} ts = .ok m ∧ m.state = .body d (.mappingCase values)

/-- The tokens end with a case of an enumeration, which `head` names, and with so much of its
value as `value` holds; no comma or bracket in it ends it. -/
structure CaseSpan (ts : List Token) (head : Token) (case : String) (value : List Token) :
    Prop where
  name : head.kind = .word case
  spelled : ∃ before gap colon, ts = before ++ head :: (gap ++ colon :: value) ∧
    ExpectsCase before ∧ (∀ t ∈ gap, t.kind = .whitespace) ∧ colon.kind = .symbol ':'
  inside : StaysInside 0 value

/-- The line to which a failure is ascribed that the last of these tokens causes. -/
inductive Located (ts : List Token) : Failure → Prop
  | last {before : List Token} {t : Token} {fault : ParseFault} :
      ts = before ++ [t] → (∀ case cause, fault ≠ .invalidCase case cause) →
      Located ts ⟨t.line, fault⟩
  | case {before value : List Token} {t head : Token} {case : String} {cause : ConstantError} :
      ts = before ++ [t] → t.kind = .symbol ',' ∨ t.kind = .symbol ')' →
      CaseSpan before head case value → balance value = 0 →
      Constant.evaluate (visible value) = .error cause →
      Located ts ⟨head.line, .invalidCase case cause⟩

def Traced (ts : List Token) : Place → Prop
  | .mappingColon _ case line =>
    ∃ before head gap, ts = before ++ head :: gap ∧ ExpectsCase before ∧
      head.kind = .word case ∧ head.line = line ∧ ∀ t ∈ gap, t.kind = .whitespace
  | .mappingValue _ case line span depth =>
    ∃ head value, CaseSpan ts head case value ∧ head.line = line ∧ visible value = span ∧
      balance value = depth
  | _ => True

section Step

variable {ns : String} {t : Token} {d : Draft} {p : Place} {o : Except Failure Progress}
  {ts : List Token}

theorem CaseSpan.concat {head : Token} {case : String} {value : List Token}
    (h : CaseSpan ts head case value)
    (ht : (∃ c ∈ [',', ')', ']'], t.kind = .symbol c) → 0 < balance value) :
    CaseSpan (ts ++ [t]) head case (value ++ [t]) := by
  obtain ⟨before, gap, colon, rfl, hb, hg, hc⟩ := h.spelled
  refine ⟨h.name, ⟨before, gap, colon, by simp, hb, hg, hc⟩, h.inside.append ?_⟩
  exact Token.staysInside_cons.mpr ⟨by simpa using ht, Token.staysInside_nil _⟩

theorem traced_space (hw : t.kind = .whitespace) (h : Traced ts p) : Traced (ts ++ [t]) p := by
  cases p with
  | mappingColon values case line =>
    obtain ⟨before, head, gap, rfl, hb, hk, hl, hg⟩ := h
    refine ⟨before, head, gap ++ [t], by simp, hb, hk, hl, ?_⟩
    intro u hu
    rcases List.mem_append.mp hu with hu | hu
    · exact hg u hu
    · rw [List.mem_singleton.mp hu, hw]
  | mappingValue values case line span depth =>
    obtain ⟨head, value, hs, hl, hv, hd⟩ := h
    refine ⟨head, value ++ [t], hs.concat (by simp [hw]), hl, ?_, ?_⟩
    · simpa [visible, Token.isWhitespace, hw] using hv
    · rw [Token.balance_append, hd]
      simp [balance, Token.isSymbol, hw]
  | _ => trivial

theorem Outcome.traced (h : Outcome ns t d p o)
    (hcase : ∀ values, p = .mappingCase values → ExpectsCase ts) (hp : Traced ts p) :
    ∀ d' p', o = .ok (.reading d' p') → Traced (ts ++ [t]) p' := by
  induction h with
  | space _ hw =>
    rintro d' p' ⟨⟩
    exact traced_space hw hp
  | mappingCase ht =>
    rintro d' p' ⟨⟩
    exact ⟨ts, t, [], rfl, hcase _ rfl, ht, rfl, by simp⟩
  | mappingColon ht =>
    rintro d' p' ⟨⟩
    obtain ⟨before, head, gap, rfl, hb, hk, hl, hg⟩ := hp
    have span : CaseSpan (before ++ head :: gap ++ [t]) head _ [] :=
      ⟨hk, ⟨before, gap, t, by simp, hb, hg, ht⟩, Token.staysInside_nil 0⟩
    exact ⟨head, [], span, hl, rfl, rfl⟩
  | mappingToken hw hopen hdepth =>
    rintro d' p' ⟨⟩
    obtain ⟨head, value, hs, hl, hv, hd⟩ := hp
    refine ⟨head, value ++ [t], hs.concat ?_, hl, ?_, ?_⟩
    · rintro ⟨c, hc, ht⟩
      rw [hd]
      rcases Nat.eq_zero_or_pos _ with hz | hpos
      · exact absurd ht (hopen hz c hc)
      · exact_mod_cast hpos
    · simp [visible, Token.isWhitespace, hw, ← hv]
    · rw [Token.balance_append, hd, hdepth]
  | constructorNamed _ ih | noArguments _ ih | derivingBare _ ih | scopeNamed _ ih =>
    exact ih (by simp) trivial
  | _ => rintro d' p' ⟨⟩ <;> trivial

theorem Outcome.located (h : Outcome ns t d p o) (hp : Traced ts p) :
    ∀ e, o = .error e → e.fault.isEnd = false ∧ Located (ts ++ [t]) e := by
  induction h with
  | unexpected | invalid =>
    rintro e ⟨⟩
    exact ⟨rfl, .last rfl (by simp)⟩
  | invalidCase ht he =>
    rintro e ⟨⟩
    obtain ⟨head, value, hs, rfl, hv, hd⟩ := hp
    exact ⟨rfl, .case rfl ht hs hd (hv ▸ he)⟩
  | constructorNamed _ ih | noArguments _ ih | derivingBare _ ih | scopeNamed _ ih =>
    exact ih trivial
  | _ => rintro e ⟨⟩

end Step

namespace Machine

variable {m : Machine} {t : Token} {ts : List Token} {e : Failure}

theorem traced_of_steps (h : Machine.steps {} ts = .ok m) {d : Draft} {p : Place}
    (hs : m.state = .body d p) : Traced ts p := by
  induction ts using List.reverseRecOn generalizing m d p with
  | nil =>
    cases h
    cases hs
  | append_singleton ts t ih =>
    obtain ⟨m₀, h₀, ht⟩ := steps_concat_eq_ok_iff.mp h
    cases outcome_of_step ht with
    | name =>
      cases hs
      trivial
    | reading hs₀ move =>
      cases hs
      refine move.traced ?_ (ih h₀ hs₀) _ _ rfl
      rintro values rfl
      exact ⟨m₀, _, values, h₀, hs₀⟩
    | space hs₀ => cases hs₀.symm.trans hs
    | _ => cases hs

theorem located_of_step (h : Machine.steps {} ts = .ok m) (ht : m.step t = .error e) :
    e.fault.isEnd = false ∧ Located (ts ++ [t]) e := by
  cases outcome_of_step ht with
  | unexpected | nestedNamespaces | unknownDefinition => exact ⟨rfl, .last rfl (by simp)⟩
  | rejected hs move => exact move.located (traced_of_steps h hs) e rfl

theorem isEnd_of_finish {line : Nat} (h : m.finish line = .error e) :
    e.fault.isEnd = true ∧ e.line = line := by
  rw [finish] at h
  split at h
  · split at h
    · cases h
      exact ⟨rfl, rfl⟩
    · cases h
  · cases h
    exact ⟨rfl, rfl⟩

end Machine

def Refused (file : String) (ts : List Token) : Prop :=
  ∃ e, parseStream (.ofTokens file ts) = .error e ∧ ¬ e.AtEnd

theorem parseStream_of_steps_error {file : String} {p : List Token} {e : Failure}
    (hp : ∀ t ∈ p, t.kind ≠ .comment) (h : Machine.steps {} p = .error e) (s : List Token) :
    parseStream (.ofTokens file (p ++ s)) = .error ⟨e, file⟩ := by
  have split : significant (p ++ s) = p ++ significant s := by
    rw [significant_append, significant_of_noComment hp]
  rw [parseStream_eq, split, Machine.steps_append, h]
  rfl

theorem not_refused_of_steps {file : String} {q : List Token} {m : Machine}
    (hq : ∀ t ∈ q, t.kind ≠ .comment) (h : Machine.steps {} q = .ok m) : ¬ Refused file q := by
  rintro ⟨e, he, hend⟩
  rw [parseStream_eq, significant_of_noComment hq, h] at he
  dsimp only at he
  split at he
  · next hf =>
    cases he
    exact hend (ParseError.atEnd_iff.mpr (Machine.isEnd_of_finish hf).1)
  · cases he

theorem exists_refused_of_steps_error {file : String} {ts : List Token} {e : Failure}
    (hts : ∀ t ∈ ts, t.kind ≠ .comment) (h : Machine.steps {} ts = .error e) :
    ¬ ParseError.AtEnd ⟨e, file⟩ ∧ ∃ p, p <+: ts ∧ Refused file p ∧
      (∀ q, q <+: ts → Refused file q → p.length ≤ q.length) ∧
      (∀ s, parseStream (.ofTokens file (p ++ s)) = .error ⟨e, file⟩) ∧ Located p e := by
  obtain ⟨before, t, after, m, rfl, hb, ht⟩ := Machine.exists_of_steps_eq_error h
  obtain ⟨hend, located⟩ := Machine.located_of_step hb ht
  have notEnd : ¬ ParseError.AtEnd ⟨e, file⟩ := by
    rw [ParseError.atEnd_iff, hend]
    simp
  have prefixed : before ++ [t] <+: before ++ t :: after := ⟨after, by simp⟩
  have failed : Machine.steps {} (before ++ [t]) = .error e := by
    rw [Machine.steps_append, hb]
    simp only [Except.bind, Machine.steps_cons, ht]
  have refused (s : List Token) :
      parseStream (.ofTokens file (before ++ [t] ++ s)) = .error ⟨e, file⟩ :=
    parseStream_of_steps_error (fun u hu => hts u (prefixed.subset hu)) failed s
  refine ⟨notEnd, before ++ [t], prefixed, ⟨_, by simpa using refused [], notEnd⟩, ?_, refused,
    located⟩
  intro q hq hrefused
  by_contra hlt
  -- A shorter prefix ends before `t`, so all of it can be read.
  have shorter : q <+: before := by
    refine List.prefix_of_prefix_length_le hq (List.prefix_append before _) ?_
    simp only [List.length_append, List.length_singleton] at hlt
    omega
  obtain ⟨m₀, hm₀⟩ := Machine.steps_prefix_ok hb shorter
  exact not_refused_of_steps (fun u hu => hts u (hq.subset hu)) hm₀ hrefused

theorem parseStream_error_located {file : String} {ts : List Token} {e : ParseError}
    (hts : ∀ t ∈ ts, t.kind ≠ .comment) (h : parseStream (.ofTokens file ts) = .error e) :
    e.file = file ∧
    (e.AtEnd → e.line = lastLine 0 ts) ∧
    (¬ e.AtEnd → ∃ p, p <+: ts ∧ Refused file p ∧
      (∀ q, q <+: ts → Refused file q → p.length ≤ q.length) ∧
      (∀ s, parseStream (.ofTokens file (p ++ s)) = .error e) ∧
      Located p e.toFailure) := by
  rw [parseStream_eq, significant_of_noComment hts] at h
  split at h
  · next hsteps =>
    cases h
    obtain ⟨notEnd, refused⟩ := exists_refused_of_steps_error hts hsteps
    exact ⟨rfl, fun hend => absurd hend notEnd, fun _ => refused⟩
  · split at h
    · next hf =>
      cases h
      obtain ⟨hend, hline⟩ := Machine.isEnd_of_finish hf
      exact ⟨rfl, fun _ => hline, fun hnot => absurd (ParseError.atEnd_iff.mpr hend) hnot⟩
    · cases h

/-- `data Grade = Int deriving (Enum) with (A: 1, B : (1 - 1) / 0, C: 2`, the name of the second
case on line 3, its value on line 4. -/
def gradeTokens : List Token :=
  [⟨.word "data", "data", 0⟩, ⟨.whitespace, " ", 0⟩, ⟨.word "Grade", "Grade", 0⟩,
    ⟨.whitespace, " ", 0⟩, ⟨.symbol '=', "=", 0⟩, ⟨.whitespace, " ", 0⟩, ⟨.word "Int", "Int", 0⟩,
    ⟨.whitespace, "\n", 0⟩, ⟨.word "deriving", "deriving", 1⟩, ⟨.symbol '(', "(", 1⟩,
    ⟨.word "Enum", "Enum", 1⟩, ⟨.symbol ')', ")", 1⟩, ⟨.whitespace, "\n", 1⟩,
    ⟨.word "with", "with", 2⟩, ⟨.symbol '(', "(", 2⟩, ⟨.word "A", "A", 2⟩, ⟨.symbol ':', ":", 2⟩,
    ⟨.int 1, "1", 2⟩, ⟨.symbol ',', ",", 2⟩, ⟨.whitespace, "\n", 2⟩, ⟨.word "B", "B", 3⟩,
    ⟨.whitespace, " ", 3⟩, ⟨.symbol ':', ":", 3⟩, ⟨.whitespace, "\n", 3⟩, ⟨.symbol '(', "(", 4⟩,
    ⟨.int 1, "1", 4⟩, ⟨.symbol '-', "-", 4⟩, ⟨.int 1, "1", 4⟩, ⟨.symbol ')', ")", 4⟩,
    ⟨.symbol '/', "/", 4⟩, ⟨.int 0, "0", 4⟩, ⟨.symbol ',', ",", 4⟩, ⟨.word "C", "C", 4⟩,
    ⟨.symbol ':', ":", 4⟩, ⟨.int 2, "2", 4⟩]

def gradeError : ParseError := ⟨⟨3, .invalidCase "B" .divisionByZero⟩, "grade.datatypes"⟩

theorem parseStream_error_grade :
    (∀ t ∈ gradeTokens, t.kind ≠ .comment) ∧
    parseStream (.ofTokens "grade.datatypes" gradeTokens) = .error gradeError ∧
    ¬ gradeError.AtEnd ∧
    ∃ p, p <+: gradeTokens ∧ Refused "grade.datatypes" p ∧
      (∀ q, q <+: gradeTokens → Refused "grade.datatypes" q → p.length ≤ q.length) ∧
      (∀ s, parseStream (.ofTokens "grade.datatypes" (p ++ s)) = .error gradeError) ∧
      Located p gradeError.toFailure := by
  have noComment : ∀ t ∈ gradeTokens, t.kind ≠ .comment := by decide
  have failed : parseStream (.ofTokens "grade.datatypes" gradeTokens) = .error gradeError := by
    decide +kernel
  have notEnd : ¬ gradeError.AtEnd := by
    rw [ParseError.atEnd_iff]
    decide
  exact ⟨noComment, failed, notEnd, (parseStream_error_located noComment failed).2.2 notEnd⟩

end Declaration

end Datatypes
