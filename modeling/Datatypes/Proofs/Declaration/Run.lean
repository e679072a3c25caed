import Datatypes.Proofs.Declaration.Acceptance

/-!
A run as the repetition of steps: the tokens that are no comments move the machine one after the
other, and the end of the source judges the state that they lead to.
-/

namespace Datatypes.Declaration

def significant (ts : List Token) : List Token := ts.filter (!·.isComment)

theorem significant_of_noComment {ts : List Token} (h : ∀ t ∈ ts, t.kind ≠ .comment) :
    significant ts = ts := by
  refine List.filter_eq_self.mpr fun t ht => ?_
  simpa [Token.isComment] using h t ht

theorem significant_append (ts us : List Token) :
    significant (ts ++ us) = significant ts ++ significant us := List.filter_append ..

theorem significant_significant (ts : List Token) :
    significant (significant ts) = significant ts := by
  simp [significant]

def visible (ts : List Token) : List Token := ts.filter (!·.isWhitespace)

/-- The line of the last token; `line` stands for it where there is none. -/
def lastLine (line : Nat) (ts : List Token) : Nat := (ts.getLast?.map (·.line)).getD line

theorem lastLine_cons (line : Nat) (t : Token) (ts : List Token) :
    lastLine line (t :: ts) = lastLine t.line ts := by
  rw [lastLine, lastLine, List.getLast?_cons]
  cases ts.getLast? <;> rfl

theorem lastLine_append (line : Nat) (ts us : List Token) :
    lastLine line (ts ++ us) = lastLine (lastLine line ts) us := by
  induction ts generalizing line with
  | nil => rfl
  | cons t ts ih => rw [List.cons_append, lastLine_cons, ih, lastLine_cons]

theorem le_lastLine {line : Nat} {ts : List Token} (h : ∀ t ∈ ts, line ≤ t.line) :
    line ≤ lastLine line ts := by
  rw [lastLine]
  cases hl : ts.getLast? with
  | none => exact Nat.le_refl _
  | some t => exact h t (List.mem_of_getLast? hl)

namespace Machine

variable {m m' : Machine} {ts : List Token}

def steps (m : Machine) (ts : List Token) : Except Failure Machine := ts.foldlM step m

theorem steps_nil (m : Machine) : m.steps [] = .ok m := rfl

theorem steps_cons (m : Machine) (t : Token) (ts : List Token) :
    m.steps (t :: ts) = (m.step t).bind fun m' => m'.steps ts := List.foldlM_cons

theorem steps_append (m : Machine) (ts us : List Token) :
    m.steps (ts ++ us) = (m.steps ts).bind fun m' => m'.steps us := List.foldlM_append

theorem steps_concat_eq_ok_iff {t : Token} :
    m.steps (ts ++ [t]) = .ok m' ↔ ∃ m₀, m.steps ts = .ok m₀ ∧ m₀.step t = .ok m' := by
  rw [steps_append]
  cases m.steps ts with
  | error e => simp [Except.bind]
  | ok m₀ =>
    simp only [Except.bind, steps_cons, Except.ok.injEq, exists_eq_left']
    cases m₀.step t <;> simp [steps_nil]

theorem run_of_next?_eq_none {s : TokenStream} (h : s.next? = none) :
    m.run s = m.finish s.line := by
  rw [run]
  split
  · rfl
  · next h' => rw [h] at h'; cases h'

theorem run_of_next?_eq_some {s s' : TokenStream} {t : Token} (h : s.next? = some (t, s')) :
    m.run s = (m.step t).bind fun m' => m'.run s' := by
  rw [run]
  split
  · next h' => rw [h] at h'; cases h'
  · next h' =>
    rw [h] at h'
    cases h'
    cases m.step t <;> rfl

theorem run_comment (m : Machine) {t : Token} (ht : t.kind = .comment) (ts : List Token)
    (file : String) (line : Nat) : m.run ⟨file, line, t :: ts⟩ = m.run ⟨file, line, ts⟩ := by
  have same : (⟨file, line, t :: ts⟩ : TokenStream).next? =
      (⟨file, line, ts⟩ : TokenStream).next? := by
    simp [TokenStream.next?, TokenStream.pull, Token.isComment, ht]
  cases hn : (⟨file, line, ts⟩ : TokenStream).next? with
  | none => rw [run_of_next?_eq_none (same.trans hn), run_of_next?_eq_none hn]
  | some next => rw [run_of_next?_eq_some (same.trans hn), run_of_next?_eq_some hn]

theorem run_eq_steps (m : Machine) (file : String) (line : Nat) (ts : List Token) :
    m.run ⟨file, line, ts⟩ =
      (m.steps (significant ts)).bind fun m' => m'.finish (lastLine line (significant ts)) := by
  induction ts generalizing m line with
  | nil => exact run_nil m file line
  | cons t ts ih =>
    by_cases ht : t.kind = .comment
    · have skip : significant (t :: ts) = significant ts := by
        simp [significant, Token.isComment, ht]
      rw [run_comment m ht, skip, ih]
    · have keep : significant (t :: ts) = t :: significant ts := by
        simp [significant, Token.isComment, ht]
      rw [run_cons m ht, keep, steps_cons]
      cases m.step t with
      | error e => rfl
      | ok m' => simp only [Except.bind, ih, lastLine_cons]

theorem exists_of_steps_eq_error {e : Failure} (h : m.steps ts = .error e) :
    ∃ before t after m', ts = before ++ t :: after ∧ m.steps before = .ok m' ∧
      m'.step t = .error e := by
  induction ts generalizing m with
  | nil => cases h
  | cons t ts ih =>
    rw [steps_cons] at h
    cases hs : m.step t with
    | error e' =>
      rw [hs] at h
      cases h
      exact ⟨[], t, ts, m, rfl, rfl, hs⟩
    | ok m₁ =>
      rw [hs] at h
      obtain ⟨before, u, after, m', rfl, hb, hu⟩ := ih h
      refine ⟨t :: before, u, after, m', rfl, ?_, hu⟩
      rw [steps_cons, hs]
      exact hb

theorem steps_prefix_ok {us : List Token} (h : m.steps ts = .ok m') (hp : us <+: ts) :
    ∃ m₀, m.steps us = .ok m₀ := by
  obtain ⟨rest, rfl⟩ := hp
  rw [steps_append] at h
  cases hs : m.steps us with
  | error e => rw [hs] at h; cases h
  | ok m₀ => exact ⟨m₀, rfl⟩

theorem steps_invariant {I : Machine → Prop} {P : Token → Prop}
    (hstep : ∀ m m' t, I m → P t → m.step t = .ok m' → I m')
    (hm : I m) (hts : ∀ t ∈ ts, P t) (h : m.steps ts = .ok m') : I m' := by
  induction ts generalizing m with
  | nil =>
    cases h
    exact hm
  | cons t ts ih =>
    rw [steps_cons] at h
    cases hs : m.step t with
    | error e => rw [hs] at h; cases h
    | ok m₁ =>
      rw [hs] at h
      exact ih (hstep m m₁ t hm (hts t (by simp)) hs) (fun u hu => hts u (by simp [hu])) h

end Machine

theorem parseStream_eq (file : String) (ts : List Token) :
    parseStream (.ofTokens file ts) =
      match Machine.steps {} (significant ts) with
      | .error failure => .error ⟨failure, file⟩
      | .ok m =>
        match m.finish (lastLine 0 (significant ts)) with
        | .error failure => .error ⟨failure, file⟩
        | .ok definitions => .ok ⟨file, definitions⟩ := by
  rw [parseStream, TokenStream.ofTokens, Machine.run_eq_steps]
  cases Machine.steps {} (significant ts) with
  | error e => rfl
  | ok m =>
    simp only [Except.bind]
    cases m.finish (lastLine 0 (significant ts)) <;> rfl

theorem parseStream_significant (file : String) (ts : List Token) :
    parseStream (.ofTokens file (significant ts)) = parseStream (.ofTokens file ts) := by
  rw [parseStream_eq, parseStream_eq, significant_significant]

theorem parse_of_parse {file source : String} {ds : List Definition}
    (h : parse file source = .ok ⟨file, ds⟩) (file' : String) :
    parse file' source = .ok ⟨file', ds⟩ := by
  simp only [parse, TokenStream.ofSource, TokenStream.tokens] at h ⊢
  cases hl : Token.lex source with
  | error e => simp [hl, Except.mapError, Except.map] at h
  | ok ts =>
    simp only [hl, Except.mapError, Except.map, parseStream_eq] at h ⊢
    split at h
    · cases h
    · next m hm =>
      split at h
      · cases h
      · next definitions hf =>
        cases h
        rfl

end Datatypes.Declaration
