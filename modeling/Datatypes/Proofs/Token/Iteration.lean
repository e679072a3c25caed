import Datatypes.Proofs.Declaration.Run

/-!
A token stream against a plain iterator over the tokens that are no comments. A reader asks for
tokens in four ways, as often as it likes and also after an error; what it is given, and the lines
that it is told, are those of the iterator, which knows of no comments at all.
-/

namespace Datatypes

open Declaration

namespace TokenStream

inductive Query where
  | next
  | next?
  | nextSignificant
  | skipWhitespace (t : Token)
deriving DecidableEq, Repr

abbrev Reply := Except ParseError (Option Token)

section Session

variable {σ τ : Type}

def session (serve : σ → Query → Reply × σ) (s : σ) : List Query → List Reply × σ
  | [] => ([], s)
  | q :: qs =>
    let served := serve s q
    let later := session serve served.2 qs
    (served.1 :: later.1, later.2)

theorem session_of_simulation {f : σ → Query → Reply × σ} {g : τ → Query → Reply × τ}
    {R : σ → τ → Prop}
    (step : ∀ s t, R s t → ∀ q, (f s q).1 = (g t q).1 ∧ R (f s q).2 (g t q).2)
    {s : σ} {t : τ} (h : R s t) (qs : List Query) :
    (session f s qs).1 = (session g t qs).1 ∧ R (session f s qs).2 (session g t qs).2 := by
  induction qs generalizing s t with
  | nil => exact ⟨rfl, h⟩
  | cons q qs ih =>
    obtain ⟨reply, h'⟩ := step s t h q
    obtain ⟨replies, last⟩ := ih h'
    refine ⟨?_, last⟩
    rw [session, session, reply, replies]

end Session

def given (r : Except ParseError Token × TokenStream) : Reply × TokenStream := (r.1.map some, r.2)

def serve (s : TokenStream) : Query → Reply × TokenStream
  | .next => given s.next
  | .next? =>
    match s.next? with
    | some (t, s') => (.ok (some t), s')
    | none => (.ok none, s)
  | .nextSignificant => given s.nextSignificant
  | .skipWhitespace t => given (s.skipWhitespace t)

end TokenStream

open TokenStream (Query Reply session)

structure TokenIterator where
  file : String
  past : List Token
  left : List Token
deriving DecidableEq, Repr

namespace TokenIterator

variable {i : TokenIterator} {p : Token → Bool} {t : Token} {ts : List Token}

def start (file : String) (tokens : List Token) : TokenIterator := ⟨file, [], tokens⟩

def line (i : TokenIterator) : Nat := lastLine 0 i.past

def endError (i : TokenIterator) : ParseError := ⟨⟨i.line, .unexpectedEnd⟩, i.file⟩

def advance (i : TokenIterator) (n : Nat) : TokenIterator :=
  { i with past := i.past ++ i.left.take n, left := i.left.drop n }

def seek (i : TokenIterator) (p : Token → Bool) : Reply × TokenIterator :=
  let there := i.advance (i.left.findIdx p + 1)
  match i.left.find? p with
  | some t => (.ok (some t), there)
  | none => (.error there.endError, there)

def serve (i : TokenIterator) : Query → Reply × TokenIterator
  | .next => i.seek fun _ => true
  | .next? => (.ok i.left.head?, i.advance 1)
  | .nextSignificant => i.seek (!·.isWhitespace)
  | .skipWhitespace t =>
    if t.isWhitespace then i.seek (!·.isWhitespace) else (.ok (some t), i)

theorem advance_zero (i : TokenIterator) : i.advance 0 = i := by
  simp [advance]

theorem advance_advance (i : TokenIterator) (m n : Nat) :
    (i.advance m).advance n = i.advance (m + n) := by
  simp [advance, List.take_add]

theorem advance_of_left_eq_nil (h : i.left = []) (n : Nat) : i.advance n = i := by
  cases i
  simp_all [advance]

theorem seek_of_left_eq_nil (h : i.left = []) : i.seek p = (.error i.endError, i) := by
  rw [seek, advance_of_left_eq_nil h, h]
  rfl

theorem seek_of_pos (h : i.left = t :: ts) (ht : p t = true) :
    i.seek p = (.ok (some t), i.advance 1) := by
  simp [seek, h, ht, List.findIdx_cons]

theorem seek_of_neg (h : i.left = t :: ts) (ht : p t = false) :
    i.seek p = (i.advance 1).seek p := by
  have left : (i.advance 1).left = ts := by simp [advance, h]
  rw [seek, seek, advance_advance, left, h, List.find?_cons_of_neg (by simp [ht]),
    List.findIdx_cons, ht, Nat.add_comm 1]
  rfl

theorem exists_serve (i : TokenIterator) (q : Query) : ∃ n, (i.serve q).2 = i.advance n := by
  have seeks (p : Token → Bool) : (i.seek p).2 = i.advance (i.left.findIdx p + 1) := by
    rw [seek]
    cases i.left.find? p <;> rfl
  cases q with
  | next => exact ⟨_, seeks _⟩
  | next? => exact ⟨1, rfl⟩
  | nextSignificant => exact ⟨_, seeks _⟩
  | skipWhitespace t =>
    rw [serve]
    split
    · exact ⟨_, seeks _⟩
    · exact ⟨0, (advance_zero i).symm⟩

theorem exists_session (i : TokenIterator) (qs : List Query) :
    ∃ n, (session serve i qs).2 = i.advance n := by
  induction qs generalizing i with
  | nil => exact ⟨0, (advance_zero i).symm⟩
  | cons q qs ih =>
    obtain ⟨m, hm⟩ := exists_serve i q
    obtain ⟨n, hn⟩ := ih (i.serve q).2
    refine ⟨m + n, ?_⟩
    rw [← advance_advance, ← hm, ← hn]
    rfl

theorem line_le_advance (h : (i.past ++ i.left).Pairwise (·.line ≤ ·.line)) (n : Nat) :
    i.line ≤ (i.advance n).line := by
  obtain ⟨-, -, ordered⟩ := List.pairwise_append.mp h
  rw [line, line, advance, lastLine_append]
  refine le_lastLine fun t ht => ?_
  have ahead : t ∈ i.left := List.mem_of_mem_take ht
  rcases List.eq_nil_or_concat i.past with hp | ⟨front, u, hp⟩
  · rw [hp]
    exact Nat.zero_le _
  · have last : lastLine 0 i.past = u.line := by simp [lastLine, hp]
    rw [last]
    exact ordered u (by simp [hp]) t ahead

end TokenIterator

namespace TokenStream

variable {s s' : TokenStream} {t : Token} {ts rest tokens : List Token} {i : TokenIterator}

theorem pull_eq_none_iff : pull ts = none ↔ significant ts = [] := by
  induction ts with
  | nil => simp [pull, significant]
  | cons t ts ih =>
    rw [pull, significant, List.filter_cons]
    cases ht : t.isComment with
    | true => simpa [significant] using ih
    | false => simp

theorem significant_of_pull (h : pull ts = some (t, rest)) :
    significant ts = t :: significant rest := by
  induction ts with
  | nil => cases h
  | cons u us ih =>
    rw [pull] at h
    rw [significant, List.filter_cons]
    cases hu : u.isComment with
    | true => simpa [significant] using ih (by simpa [hu] using h)
    | false =>
      simp only [hu, Bool.false_eq_true, if_false, Option.some.injEq, Prod.mk.injEq] at h
      obtain ⟨rfl, rfl⟩ := h
      rfl

theorem next?_eq_none_iff : s.next? = none ↔ significant s.rest = [] := by
  rw [next?, Option.map_eq_none_iff, pull_eq_none_iff]

theorem next?_eq_some (h : s.next? = some (t, s')) :
    significant s.rest = t :: significant s'.rest ∧ s'.line = t.line ∧ s'.file = s.file := by
  simp only [next?, Option.map_eq_some_iff, Prod.exists, Prod.mk.injEq] at h
  obtain ⟨u, rest, hp, rfl, rfl⟩ := h
  exact ⟨significant_of_pull hp, rfl, rfl⟩

theorem isExhausted_iff : s.isExhausted = true ↔ s.next? = none := by
  rw [next?_eq_none_iff, isExhausted, significant, List.filter_eq_nil_iff, List.all_eq_true]
  simp

theorem next_of_none (h : s.next? = none) : s.next = (.error s.endError, s) := by
  rw [next, h]

theorem next_of_some (h : s.next? = some (t, s')) : s.next = (.ok t, s') := by
  rw [next, h]

theorem nextSignificant_of_none (h : s.next? = none) :
    s.nextSignificant = (.error s.endError, s) := by
  rw [nextSignificant, next_of_none h]

theorem nextSignificant_of_some (h : s.next? = some (t, s')) :
    s.nextSignificant = s'.skipWhitespace t := by
  rw [nextSignificant, next_of_some h]

theorem skipWhitespace_eq (s : TokenStream) (t : Token) :
    s.skipWhitespace t = if t.isWhitespace then s.nextSignificant else (.ok t, s) := by
  rw [skipWhitespace]
  split
  · split
    · next h => rw [nextSignificant_of_some h]
    · next h => rw [nextSignificant_of_none h]
  · rfl

inductive Pulls (s : TokenStream) : List Token → TokenStream → Prop
  | nil : Pulls s [] s
  | concat {ts : List Token} {t : Token} {s' s'' : TokenStream} :
      Pulls s ts s' → s'.next? = some (t, s'') → Pulls s (ts ++ [t]) s''

namespace Pulls

theorem file_eq (h : Pulls s ts s') : s'.file = s.file := by
  induction h with
  | nil => rfl
  | concat _ hn ih => rw [(next?_eq_some hn).2.2, ih]

theorem line_eq (h : Pulls s ts s') : s'.line = lastLine s.line ts := by
  cases h with
  | nil => rfl
  | concat _ hn => simp [lastLine, (next?_eq_some hn).2.1]

theorem significant_eq (h : Pulls s ts s') : significant s.rest = ts ++ significant s'.rest := by
  induction h with
  | nil => rfl
  | concat _ hn ih => rw [ih, (next?_eq_some hn).1, List.append_assoc, List.singleton_append]

end Pulls

structure Follows (tokens : List Token) (s : TokenStream) (i : TokenIterator) : Prop where
  pulls : Pulls (ofTokens i.file tokens) i.past s
  left : significant s.rest = i.left

namespace Follows

theorem start (file : String) (tokens : List Token) :
    Follows tokens (ofTokens file tokens) (.start file (significant tokens)) := ⟨.nil, rfl⟩

theorem append_eq (h : Follows tokens s i) : i.past ++ i.left = significant tokens := by
  rw [← h.left]
  exact h.pulls.significant_eq.symm

theorem line_eq (h : Follows tokens s i) : s.line = i.line := h.pulls.line_eq

theorem endError_eq (h : Follows tokens s i) : s.endError = i.endError := by
  rw [endError, TokenIterator.endError, h.line_eq, h.pulls.file_eq]
  rfl

theorem next?_nil (h : Follows tokens s i) (hl : i.left = []) : s.next? = none :=
  next?_eq_none_iff.mpr (h.left.trans hl)

theorem next?_cons (h : Follows tokens s i) (hl : i.left = t :: ts) :
    ∃ s', s.next? = some (t, s') ∧ Follows tokens s' (i.advance 1) := by
  cases hn : s.next? with
  | none =>
    rw [next?_eq_none_iff, h.left, hl] at hn
    cases hn
  | some pulled =>
    obtain ⟨u, s'⟩ := pulled
    have left := (next?_eq_some hn).1
    rw [h.left, hl] at left
    obtain ⟨rfl, rfl⟩ := List.cons.inj left
    refine ⟨s', rfl, ?_, ?_⟩
    · simpa [TokenIterator.advance, hl] using h.pulls.concat hn
    · simp [TokenIterator.advance, hl]

theorem next (h : Follows tokens s i) :
    (given s.next).1 = (i.serve .next).1 ∧ Follows tokens (given s.next).2 (i.serve .next).2 := by
  rw [TokenIterator.serve]
  cases hl : i.left with
  | nil =>
    rw [TokenIterator.seek_of_left_eq_nil hl, next_of_none (h.next?_nil hl), h.endError_eq]
    exact ⟨rfl, h⟩
  | cons t ts =>
    obtain ⟨s', hn, h'⟩ := h.next?_cons hl
    rw [TokenIterator.seek_of_pos hl rfl, next_of_some hn]
    exact ⟨rfl, h'⟩

theorem nextSignificant (h : Follows tokens s i) :
    (given s.nextSignificant).1 = (i.serve .nextSignificant).1 ∧
      Follows tokens (given s.nextSignificant).2 (i.serve .nextSignificant).2 := by
  simp only [TokenIterator.serve]
  -- On the tokens that are left: white space leads to the same query, one token further on.
  induction hl : i.left generalizing s i with
  | nil =>
    rw [TokenIterator.seek_of_left_eq_nil hl, nextSignificant_of_none (h.next?_nil hl),
      h.endError_eq]
    exact ⟨rfl, h⟩
  | cons t ts ih =>
    obtain ⟨s', hn, h'⟩ := h.next?_cons hl
    rw [nextSignificant_of_some hn, skipWhitespace_eq]
    cases ht : t.isWhitespace with
    | true =>
      rw [TokenIterator.seek_of_neg hl (by simp [ht])]
      exact ih h' (by simp [TokenIterator.advance, hl])
    | false =>
      rw [TokenIterator.seek_of_pos hl (by simp [ht])]
      exact ⟨rfl, h'⟩

theorem serve (h : Follows tokens s i) (q : Query) :
    (s.serve q).1 = (i.serve q).1 ∧ Follows tokens (s.serve q).2 (i.serve q).2 := by
  cases q with
  | next => exact h.next
  | next? =>
    rw [TokenStream.serve, TokenIterator.serve]
    cases hl : i.left with
    | nil =>
      rw [h.next?_nil hl, TokenIterator.advance_of_left_eq_nil hl]
      exact ⟨rfl, h⟩
    | cons t ts =>
      obtain ⟨s', hn, h'⟩ := h.next?_cons hl
      rw [hn]
      exact ⟨rfl, h'⟩
  | nextSignificant => exact h.nextSignificant
  | skipWhitespace t =>
    rw [TokenStream.serve, skipWhitespace_eq, TokenIterator.serve]
    cases t.isWhitespace with
    | true => exact h.nextSignificant
    | false => exact ⟨rfl, h⟩

theorem session (h : Follows tokens s i) (qs : List Query) :
    (session TokenStream.serve s qs).1 = (session TokenIterator.serve i qs).1 ∧
      Follows tokens (session TokenStream.serve s qs).2 (session TokenIterator.serve i qs).2 :=
  session_of_simulation (fun _ _ h q => h.serve q) h qs

theorem next_eq_error_iff (h : Follows tokens s i) {e : ParseError} :
    s.next.1 = .error e ↔ i.left = [] ∧ e = i.endError := by
  cases hl : i.left with
  | nil =>
    rw [next_of_none (h.next?_nil hl), h.endError_eq]
    simp [eq_comm]
  | cons t ts =>
    obtain ⟨s', hn, -⟩ := h.next?_cons hl
    rw [next_of_some hn]
    simp

theorem next_error_stays (h : Follows tokens s i) {e : ParseError} (he : s.next.1 = .error e)
    (more : List Query) :
    (TokenStream.session TokenStream.serve s.next.2 more).2.next.1 = .error e := by
  obtain ⟨ended, rfl⟩ := h.next_eq_error_iff.mp he
  -- An iterator that has come to its end stays there.
  obtain ⟨n, hn⟩ := i.exists_session (.next :: more)
  have later := (h.session (.next :: more)).2
  rw [hn, TokenIterator.advance_of_left_eq_nil ended] at later
  exact later.next_eq_error_iff.mpr ⟨ended, rfl⟩

end Follows

/-- Whatever is asked of a stream, the replies are those of the iterator, the tokens that were
pulled tell the line, and neither a reader nor a parser can see the comments. -/
theorem session_refines {source : String} {tokens : List Token}
    (lexed : Token.lex source = .ok tokens) (file : String) (queries : List Query) :
    let asked := session serve (ofTokens file tokens) queries
    let bare := session serve (ofTokens file (significant tokens)) queries
    let plain := session TokenIterator.serve (.start file (significant tokens)) queries
    asked.1 = bare.1 ∧ asked.1 = plain.1 ∧
      Pulls (ofTokens file tokens) plain.2.past asked.2 ∧
      plain.2.past ++ significant asked.2.rest = significant tokens ∧
      asked.2.line = lastLine 0 plain.2.past ∧
      (∀ more, asked.2.line ≤ (session serve asked.2 more).2.line) ∧
      (asked.2.isExhausted = true ↔ asked.2.next? = none) ∧
      (∀ e, asked.2.next.1 = .error e →
        ∀ more, (session serve asked.2.next.2 more).2.next.1 = .error e) ∧
      parseStream (.ofTokens file tokens) = parseStream (.ofTokens file (significant tokens)) := by
  intro asked bare plain
  obtain ⟨replies, here⟩ := (Follows.start file tokens).session queries
  have sorted : (significant tokens).Pairwise (·.line ≤ ·.line) :=
    (Token.lexFrom_eq_ok_iff.mp lexed).lines_sorted.filter _
  have onward (more : List Query) : asked.2.line ≤ (session serve asked.2 more).2.line := by
    have there := (here.session more).2
    obtain ⟨n, hn⟩ := plain.2.exists_session more
    rw [here.line_eq, there.line_eq, hn]
    exact TokenIterator.line_le_advance (by rwa [here.append_eq]) n
  have uncommented : bare.1 = plain.1 := by
    have h := ((Follows.start file (significant tokens)).session queries).1
    rwa [significant_significant] at h
  refine ⟨replies.trans uncommented.symm, replies, ?_, ?_, here.line_eq, onward, isExhausted_iff,
    fun e he more => here.next_error_stays he more, (parseStream_significant file tokens).symm⟩
  · have file_eq : plain.2.file = file := by
      obtain ⟨n, hn⟩ := (TokenIterator.start file (significant tokens)).exists_session queries
      exact congrArg TokenIterator.file hn
    have pulled := here.pulls
    rwa [file_eq] at pulled
  · rw [here.left]
    exact here.append_eq

def remarked : List Token :=
  [⟨.comment, "// a", 0⟩, ⟨.whitespace, "\n", 0⟩, ⟨.word "x", "x", 1⟩, ⟨.whitespace, "\n", 1⟩,
    ⟨.comment, "/* b\n */", 2⟩, ⟨.whitespace, "\n", 3⟩, ⟨.comment, "// c", 4⟩]

theorem session_refines_remarked :
    let queries : List Query :=
      [.nextSignificant, .skipWhitespace ⟨.word "x", "x", 1⟩, .next,
        .skipWhitespace ⟨.whitespace, "\n", 1⟩, .next?]
    let s := (session serve (ofTokens "" remarked) queries).2
    Token.lex "// a\nx\n/* b\n */\n// c" = .ok remarked ∧
      (session serve (ofTokens "" (significant remarked)) queries).1 =
        [.ok (some ⟨.word "x", "x", 1⟩), .ok (some ⟨.word "x", "x", 1⟩),
          .ok (some ⟨.whitespace, "\n", 1⟩), .error ⟨⟨3, .unexpectedEnd⟩, ""⟩, .ok none] ∧
      s.next.1 = .error ⟨⟨3, .unexpectedEnd⟩, ""⟩ ∧
      ∀ more, (session serve s.next.2 more).2.next.1 = .error ⟨⟨3, .unexpectedEnd⟩, ""⟩ := by
  intro queries s
  have lexed : Token.lex "// a\nx\n/* b\n */\n// c" = .ok remarked := by decide +kernel
  have failed : s.next.1 = .error ⟨⟨3, .unexpectedEnd⟩, ""⟩ := by decide +kernel
  obtain ⟨same, -, -, -, -, -, -, stays, -⟩ := session_refines lexed "" queries
  refine ⟨lexed, ?_, failed, stays _ failed⟩
  rw [← same]
  decide +kernel

end TokenStream

end Datatypes
