import Datatypes.Proofs.Declaration.Concatenation

/-!
A comment inside white space. It leaves two pieces of white space where there was one, and the
reader gets to the same place over both, except behind the words that open a declaration or a
namespace: there the first piece is the whole gap, and the second one is refused.
-/

namespace Datatypes

open Text Token

theorem Token.Lexeme.of_front {kind : TokenKind} {text front rest : List Char} {c : Char}
    (h : Lexeme kind text (front ++ c :: rest)) (hc : c ≠ '.') (rest' : List Char) :
    Lexeme kind text (front ++ c :: rest') := by
  match front with
  | [] => exact h.of_head (startsFraction_of_ne hc rest')
  | [x] => exact h.lookahead (by simp)
  | x :: y :: front => exact h.lookahead (by simp)

namespace Declaration

theorem guardText_joined (captured : List Token) (kind : TokenKind) (line : Nat) :
    guardText [⟨kind, String.join (captured.map (·.text)), line⟩] = guardText captured := by
  simp [guardText, String.join_cons]

def Place.condense : Place → Place
  | .guard scope captured depth =>
    .guard scope [⟨.whitespace, String.join (captured.map (·.text)), 0⟩] depth
  | p => p

def Progress.condense : Progress → Progress
  | .reading d p => .reading d p.condense
  | .declared definition => .declared definition

theorem rule_condense (ns : String) (d : Draft) (p : Place) (t : Token) :
    (p.condense.rule ns d t).toOption.map Progress.condense =
      (p.rule ns d t).toOption.map Progress.condense := by
  cases p with
  | guard scope captured depth =>
    by_cases h : t.kind = .arrow ∧ depth = 0
    · simp only [Place.condense, Place.rule, guardRule, if_pos h, guardText_joined]
    · have inside : t.kind = .arrow → depth ≠ 0 := fun ht hd => h ⟨ht, hd⟩
      rw [Place.condense, Machine.rule_guard inside, Machine.rule_guard inside]
      simp [Except.toOption, Progress.condense, Place.condense, String.join_cons]
  | _ => rfl

def State.condense : State → State
  | .body d p => .body d p.condense
  | s => s

namespace Machine

variable {m m' : Machine}

def condense (m : Machine) : Machine := { m with state := m.state.condense }

theorem condense_step_body {d : Draft} {p : Place} (hs : m.state = .body d p) (t : Token) :
    (m.step t).toOption.map condense =
      ((p.rule m.ns d t).toOption.map Progress.condense).map m.advance := by
  rw [step_body hs]
  rcases p.rule m.ns d t with e | ⟨d', p'⟩ | definition <;> rfl

theorem step_condense (m : Machine) (t : Token) :
    (m.condense.step t).toOption.map condense = (m.step t).toOption.map condense := by
  obtain ⟨ns, inBlock, definitions, state⟩ := m
  cases state with
  | body d p =>
    rw [condense_step_body rfl, condense_step_body rfl, rule_condense]
    rfl
  | _ => rfl

theorem steps_condense (h : m.condense = m'.condense) (ts : List Token) :
    (m.steps ts).toOption.map condense = (m'.steps ts).toOption.map condense := by
  induction ts generalizing m m' with
  | nil => exact congrArg some h
  | cons t ts ih =>
    rw [steps_cons, steps_cons]
    refine toOption_bind_congr (f := condense) ?_ fun _ _ next => ih next
    rw [← step_condense, h, step_condense]

theorem finish_condense (m : Machine) (line : Nat) : m.condense.finish line = m.finish line := by
  obtain ⟨ns, inBlock, definitions, state⟩ := m
  cases state <;> rfl

theorem ending_eq_of_condense (h : m.condense = m'.condense) (cs : List Char) :
    m.ending cs = m'.ending cs := by
  rw [ending, ending]
  cases lexFrom 0 cs with
  | error e => rfl
  | ok ts =>
    change (m.run ⟨"", 0, ts⟩).toOption = (m'.run ⟨"", 0, ts⟩).toOption
    rw [run_eq_steps, run_eq_steps]
    have ended := toOption_bind_congr (g := id)
      (k := fun last => last.finish (lastLine 0 (significant ts)))
      (l := fun last => last.finish (lastLine 0 (significant ts)))
      (steps_condense h (significant ts)) fun m₁ m₂ last => by
        rw [← finish_condense m₁, last, finish_condense]
    simpa using ended

theorem bind_ending_of_condense {o o' : Option Machine} (h : o.map condense = o'.map condense)
    (cs : List Char) : (o.bind fun m => m.ending cs) = o'.bind fun m => m.ending cs := by
  cases o with
  | none =>
    cases o' with
    | none => rfl
    | some m' => cases h
  | some m =>
    cases o' with
    | none => cases h
    | some m' => exact ending_eq_of_condense (Option.some.inj h) cs

end Machine

theorem Place.whitespace_cases {p : Place}
    (hp : ∀ scope captured depth, p ≠ .guard scope captured depth) (ns : String) (d : Draft) :
    (∃ p' : Place, p'.isSpaced = true ∧ p.Moves ns d .whitespace d p') ∨
      ∀ t : Token, t.kind = .whitespace → ∃ e, p.rule ns d t = .error e := by
  by_cases hs : p.isSpaced = true
  · exact .inl ⟨p, hs, p.moves_of_isSpaced hs ns d⟩
  cases p with
  | guard scope captured depth => exact absurd rfl (hp scope captured depth)
  | constructorTail r => exact .inl ⟨_, rfl, moves_constructorTail_whitespace r ns d⟩
  | typeTail c nullable r => exact .inl ⟨_, rfl, moves_typeTail_whitespace c nullable r ns d⟩
  | typeGap c nullable r =>
    refine .inl ⟨.argumentName c nullable true (r.resolve ns isScalarType), rfl, fun t ht => ?_⟩
    simp [rule, typeGapRule, isWhitespace, ht]
  | scopeTail r => exact .inl ⟨_, rfl, moves_scopeTail_whitespace r ns d⟩
  | constructorWord r | typeWord c nullable r | scopeWord r =>
    refine .inr fun t ht => ⟨⟨t.line, .unexpected .identifier t⟩, ?_⟩
    simp [rule, wordRule, unexpected, ht]
  | constructorBracket name =>
    refine .inr fun t ht => ⟨⟨t.line, .unexpected (.symbol ']') t⟩, ?_⟩
    simp [rule, constructorBracketRule, unexpected, isSymbol, ht]
  | typeBracket c nullable r =>
    refine .inr fun t ht => ⟨⟨t.line, .unexpected (.symbol ']') t⟩, ?_⟩
    simp [rule, typeBracketRule, unexpected, isSymbol, ht]
  | _ => exact absurd rfl hs

namespace Machine

variable {m m' : Machine} {t u v : Token}

theorem steps_pair {m₁ m₂ : Machine} (hu : m.step u = .ok m₁) (hv : m₁.step v = .ok m₂) :
    m.steps [u, v] = .ok m₂ := by
  rw [steps_cons, hu]
  simp [Except.bind, steps_cons, hv, steps_nil]

section Spaces

variable (ht : t.kind = .whitespace) (hu : u.kind = .whitespace) (hv : v.kind = .whitespace)
  (text : t.text = u.text ++ v.text)

include ht hu hv text

theorem steps_spaces_reading (m : Machine) (d : Draft) (p : Place) :
    ((m.reading d p).steps [u, v]).toOption.map condense =
      ((m.reading d p).steps [t]).toOption.map condense := by
  by_cases hp : ∃ scope captured depth, p = .guard scope captured depth
  · obtain ⟨scope, captured, depth, rfl⟩ := hp
    have level {t : Token} (ht : t.kind = .whitespace) : balance [t] = 0 := by
      simp [balance, isSymbol, ht]
    have taken {t : Token} (ht : t.kind = .whitespace) (captured : List Token) :
        (m.reading d (.guard scope captured depth)).step t =
          .ok (m.reading d (.guard scope (captured ++ [t]) depth)) := by
      refine step_reading ?_
      rw [rule_guard (by simp [ht]), level ht, Int.add_zero]
    rw [steps_pair (taken hu captured) (taken hv _), steps_cons, taken ht]
    simp [Except.bind, steps_nil, Except.toOption, condense, State.condense, Place.condense,
      reading, text, String.join_cons]
  · have free : ∀ scope captured depth, p ≠ .guard scope captured depth :=
      fun scope captured depth h => hp ⟨scope, captured, depth, h⟩
    rcases p.whitespace_cases free m.ns d with ⟨p', hp', moves⟩ | refused
    · have second := step_reading (m := m) (p'.moves_of_isSpaced hp' m.ns d v hv)
      rw [steps_pair (step_reading (moves u hu)) second, steps_cons, step_reading (moves t ht)]
      rfl
    · obtain ⟨e, he⟩ := refused u hu
      obtain ⟨e', he'⟩ := refused t ht
      have first : (m.reading d p).step u = .error e := by simp [reading, step, he]
      have whole : (m.reading d p).step t = .error e' := by simp [reading, step, he']
      rw [steps_cons, first, steps_cons, whole]
      rfl

theorem steps_spaces (hm : m.state ≠ .namespaceGap) (hn : ∀ line, m.state ≠ .nameGap line) :
    (m.steps [u, v]).toOption.map condense = (m.steps [t]).toOption.map condense := by
  obtain ⟨ns, inBlock, definitions, state⟩ := m
  cases state with
  | body d p => exact steps_spaces_reading ht hu hv text ⟨ns, inBlock, definitions, .topLevel⟩ d p
  | namespaceGap => exact absurd rfl hm
  | nameGap line => exact absurd rfl (hn line)
  | topLevel => simp [steps_cons, steps_nil, step, stepTopLevel, ht, hu, hv, Except.bind]
  | namespaceWord words | name line =>
    simp [steps_cons, step, unexpected, ht, hu, Except.bind, Except.toOption]
  | namespaceTail words | namespaceEnd words =>
    simp [steps_cons, steps_nil, step, stepNamespaceEnd, ht, hu, hv, Except.bind]

end Spaces

theorem steps_spaces_refused (h : m.state = .namespaceGap ∨ ∃ line, m.state = .nameGap line)
    (hv : v.kind = .whitespace) : (m.steps [u, v]).toOption = none := by
  obtain ⟨ns, inBlock, definitions, state⟩ := m
  rcases h with rfl | ⟨line, rfl⟩
  all_goals
    by_cases hu : u.isWhitespace = true <;>
      simp [steps_cons, step, unexpected, hu, hv, Except.bind, Except.toOption]

theorem ending_before {line : Nat} {cs : List Char} {before us : List Token}
    (h : Lexes line cs (before ++ us)) :
    ∃ line' rest, cs = (String.join (before.map (·.text))).toList ++ rest ∧ Lexes line' rest us ∧
      ∀ c tail, rest = c :: tail → c ≠ '.' → ∀ (tail' : List Char) (m : Machine),
        m.ending ((String.join (before.map (·.text))).toList ++ c :: tail') =
          (m.steps (significant before)).toOption.bind (·.ending (c :: tail')) := by
  induction before generalizing line cs with
  | nil => exact ⟨line, cs, rfl, h, fun c tail _ _ tail' m => by simp [String.join]; rfl⟩
  | cons t before ih =>
    cases h with
    | @cons _ kind text rest _ hl hts =>
      obtain ⟨line', rest, rfl, hrest, behind⟩ := ih hts
      have joined :
          (String.join ((⟨kind, String.ofList text, line⟩ :: before).map (·.text))).toList =
            text ++ (String.join (before.map (·.text))).toList := by
        simp [String.join_cons]
      refine ⟨line', rest, by rw [joined, List.append_assoc], hrest, ?_⟩
      rintro c tail rfl hc tail' m
      have first : significant (⟨kind, String.ofList text, line⟩ :: before) =
          significant [⟨kind, String.ofList text, line⟩] ++ significant before :=
        significant_append [_] before
      rw [joined, List.append_assoc, ending_append (hl.of_front hc tail') m line, first,
        steps_append]
      cases m.steps (significant [⟨kind, String.ofList text, line⟩]) with
      | error e => rfl
      | ok m' => exact behind c tail rfl hc tail' m'

end Machine

def FollowsKeyword (before : List Token) : Prop :=
  ∃ front keyword m, significant before = front ++ [keyword] ∧ Machine.steps {} front = .ok m ∧
    m.state = .topLevel ∧ (keyword.kind = .word "data" ∨ keyword.kind = .word "namespace")

theorem followsKeyword_iff {before : List Token} {m : Machine}
    (h : Machine.steps {} (significant before) = .ok m) :
    FollowsKeyword before ↔ m.state = .namespaceGap ∨ ∃ line, m.state = .nameGap line := by
  constructor
  · rintro ⟨front, keyword, m₀, hbefore, hfront, top, kind⟩
    rw [hbefore] at h
    obtain ⟨m₁, hm₁, step⟩ := Machine.steps_concat_eq_ok_iff.mp h
    obtain rfl : m₀ = m₁ := Except.ok.inj (hfront.symm.trans hm₁)
    simp only [Machine.step, top, Machine.stepTopLevel] at step
    rcases kind with kind | kind
    · rw [kind] at step
      cases step
      exact .inr ⟨_, rfl⟩
    · rw [kind] at step
      simp only [] at step
      split at step
      · cases step
      · cases step
        exact .inl rfl
  · intro gap
    rcases List.eq_nil_or_concat (significant before) with none | ⟨front, keyword, hbefore⟩
    · rw [none] at h
      cases h
      simp at gap
    · rw [List.concat_eq_append] at hbefore
      rw [hbefore] at h
      obtain ⟨m₀, hm₀, step⟩ := Machine.steps_concat_eq_ok_iff.mp h
      refine ⟨front, keyword, m₀, hbefore, hm₀, ?_⟩
      cases Machine.outcome_of_step step with
      | data top kind => exact ⟨top, .inl kind⟩
      | nameSpace top _ kind => exact ⟨top, .inr kind⟩
      | space top _ => simp [top] at gap
      | _ => simp at gap

def commented (before : List Token) (w body w' : String) (after : List Token) : String :=
  String.join (before.map (·.text)) ++ w ++ "/*" ++ body ++ "*/" ++ w' ++
    String.join (after.map (·.text))

section Texts

variable {w w' : String} (hw : w ≠ "") (blank : ∀ c ∈ w.toList, isBlank c = true)

include hw blank

theorem Machine.ending_space {rest : List Char} (hrest : Halts isBlank rest) (m : Machine) :
    m.ending (w.toList ++ rest) =
      (m.steps [⟨.whitespace, w, 0⟩]).toOption.bind (·.ending rest) := by
  obtain ⟨b, bs, hb⟩ := List.exists_cons_of_ne_nil (by simpa using hw : w.toList ≠ [])
  have lexeme : Lexeme .whitespace w.toList rest := by
    rw [hb] at blank ⊢
    exact .whitespace blank hrest
  have read := ending_append lexeme m 0
  rwa [String.ofList_toList] at read

theorem Machine.ending_spaces (hw' : w' ≠ "") (blank' : ∀ c ∈ w'.toList, isBlank c = true)
    {body : List Char} (hbody : ¬ ['*', '/'] <:+: body) {tail : List Char}
    (htail : Halts isBlank tail) (m : Machine) :
    m.ending (w.toList ++ ('/' :: '*' :: (body ++ ['*', '/']) ++ (w'.toList ++ tail))) =
      (m.steps [⟨.whitespace, w, 0⟩, ⟨.whitespace, w', 0⟩]).toOption.bind (·.ending tail) := by
  have opened : Halts isBlank ('/' :: '*' :: (body ++ ['*', '/']) ++ (w'.toList ++ tail)) :=
    halts_cons.mpr (by decide)
  have skip (m : Machine) (rest : List Char) :
      m.ending ('/' :: '*' :: (body ++ ['*', '/']) ++ rest) = m.ending rest := by
    rw [ending_append (.blockComment hbody) m 0]
    rfl
  have both : m.steps [⟨.whitespace, w, 0⟩, ⟨.whitespace, w', 0⟩] =
      (m.steps [⟨.whitespace, w, 0⟩]).bind fun m' => m'.steps [⟨.whitespace, w', 0⟩] :=
    m.steps_append [_] [_]
  rw [ending_space hw blank opened, both]
  cases m.steps [⟨.whitespace, w, 0⟩] with
  | error e => rfl
  | ok m₁ => exact (skip m₁ _).trans (ending_space hw' blank' htail m₁)

end Texts

theorem ending_commented {before after : List Token} {w w' : String} {line : Nat} {cs : List Char}
    (hl : Lexes 0 cs (before ++ ⟨.whitespace, w ++ w', line⟩ :: after)) (hw : w ≠ "")
    (hw' : w' ≠ "") {body : String} (hbody : ¬ ['*', '/'] <:+: body.toList) :
    ∃ tail : List Char,
      (Machine.ending {} cs = (Machine.steps {} (significant before)).toOption.bind fun m =>
        (m.steps [⟨.whitespace, w ++ w', 0⟩]).toOption.bind (·.ending tail)) ∧
      Machine.ending {} (commented before w body w' after).toList =
        (Machine.steps {} (significant before)).toOption.bind fun m =>
          (m.steps [⟨.whitespace, w, 0⟩, ⟨.whitespace, w', 0⟩]).toOption.bind (·.ending tail) := by
  obtain ⟨line', rest, rfl, hrest, behind⟩ := Machine.ending_before hl
  generalize hspace : (⟨.whitespace, w ++ w', line⟩ : Token) = space at hrest
  cases hrest with
  | @cons _ kind text tail _ hspaces hafter =>
    obtain ⟨rfl, htext, -⟩ := Token.mk.inj hspace
    obtain rfl : text = w.toList ++ w'.toList := by
      simpa using (congrArg String.toList htext).symm
    have blank := hspaces.isBlank_of_whitespace rfl
    have front : ∀ c ∈ w.toList, isBlank c = true := fun c hc => blank c (by simp [hc])
    have back : ∀ c ∈ w'.toList, isBlank c = true := fun c hc => blank c (by simp [hc])
    obtain ⟨b, bs, hb⟩ := List.exists_cons_of_ne_nil (by simpa using hw : w.toList ≠ [])
    have hblank : isBlank b = true := front b (by simp [hb])
    have htail : Halts isBlank tail := by
      rw [hb] at hspaces
      exact (lexeme_of_blank hblank hspaces).2.2
    have read (rest : List Char) (m : Machine) :
        m.ending ((String.join (before.map (·.text))).toList ++ (w.toList ++ rest)) =
          (m.steps (significant before)).toOption.bind (·.ending (w.toList ++ rest)) := by
      rw [hb]
      exact behind b _ (by rw [hb]; rfl) (ne_of_isBlank hblank (by decide)) (bs ++ rest) m
    have spelled : (String.join (after.map (·.text))).toList = tail := by
      rw [hafter.join_text, String.toList_ofList]
    have text : (commented before w body w' after).toList =
        (String.join (before.map (·.text))).toList ++ (w.toList ++
          ('/' :: '*' :: (body.toList ++ ['*', '/']) ++ (w'.toList ++ tail))) := by
      simp [commented, spelled]
    have nonempty : w ++ w' ≠ "" := by simp [hw]
    refine ⟨tail, ?_, ?_⟩
    · rw [List.append_assoc, read]
      congr 1
      funext m
      have whole := Machine.ending_space nonempty (by simpa using blank) htail m
      simpa using whole
    · rw [text, read]
      congr 1
      funext m
      exact Machine.ending_spaces hw front hw' back hbody htail m

/-- Only behind the word that opens a declaration or a namespace a comment inside white space
matters: there the source is refused, and elsewhere it says the same. -/
theorem parse_commented {file source : String} {c : Collection} (h : parse file source = .ok c)
    {before after : List Token} {w w' : String} {line : Nat}
    (hl : lex source = .ok (before ++ ⟨.whitespace, w ++ w', line⟩ :: after)) (hw : w ≠ "")
    (hw' : w' ≠ "") {body : String} (hbody : ¬ "*/".toList <:+: body.toList) :
    (¬ FollowsKeyword before → parse file (commented before w body w' after) = .ok c) ∧
      (FollowsKeyword before → ∃ e, parse file (commented before w body w' after) = .error e) := by
  obtain ⟨tail, whole, split⟩ := ending_commented (lexFrom_eq_ok_iff.mp hl) hw hw' hbody
  have accepted := parse_of_ending file source
  have result := parse_of_ending file (commented before w body w' after)
  rw [h] at accepted
  cases hm : Machine.steps {} (significant before) with
  | error e =>
    rw [whole, hm] at accepted
    obtain ⟨e, he⟩ := accepted
    cases he
  | ok m =>
    rw [followsKeyword_iff hm]
    rw [hm] at whole split
    constructor
    · intro elsewhere
      rw [not_or, not_exists] at elsewhere
      have same : Machine.ending {} (commented before w body w' after).toList =
          Machine.ending {} source.toList := by
        rw [whole, split]
        exact Machine.bind_ending_of_condense
          (Machine.steps_spaces rfl rfl rfl rfl elsewhere.1 elsewhere.2) tail
      rw [same] at result
      cases hd : Machine.ending {} source.toList with
      | none =>
        rw [hd] at accepted
        obtain ⟨e, he⟩ := accepted
        cases he
      | some definitions =>
        rw [hd] at accepted result
        rw [result, accepted]
    · intro gap
      have refused : Machine.ending {} (commented before w body w' after).toList = none := by
        rw [split]
        exact congrArg (fun o : Option Machine => o.bind (·.ending tail))
          (Machine.steps_spaces_refused gap rfl)
      rw [refused] at result
      exact result

def crateSource : String := "data  Crate = Crate deriving (V) where | $x  < 0 => 'empty';"

def crateTokens : List Token := (lex crateSource).toOption.getD []

def crate : Definition :=
  ⟨"", "Crate", ⟨"Crate", []⟩, .named "V", [⟨"_", "$x  < 0", "empty"⟩], none⟩

theorem parse_commented_crate :
    parse "" crateSource = .ok ⟨"", [crate]⟩ ∧
      lex crateSource =
        .ok (crateTokens.take 19 ++ ⟨.whitespace, " " ++ " ", 0⟩ :: crateTokens.drop 20) ∧
      ¬ FollowsKeyword (crateTokens.take 19) ∧
      parse "" "data  Crate = Crate deriving (V) where | $x /* left */ < 0 => 'empty';" =
        .ok ⟨"", [crate]⟩ := by
  have accepted : parse "" crateSource = .ok ⟨"", [crate]⟩ := by decide +kernel
  have lexed : lex crateSource =
      .ok (crateTokens.take 19 ++ ⟨.whitespace, " " ++ " ", 0⟩ :: crateTokens.drop 20) := by
    decide +kernel
  have var : (significant (crateTokens.take 19)).getLast? = some ⟨.var "x", "$x", 0⟩ := by
    decide +kernel
  have elsewhere : ¬ FollowsKeyword (crateTokens.take 19) := by
    rintro ⟨front, keyword, m, hbefore, -, -, kind⟩
    rw [hbefore, List.getLast?_concat] at var
    obtain rfl := Option.some.inj var
    rcases kind with kind | kind <;> cases kind
  have text : commented (crateTokens.take 19) " " " left " " " (crateTokens.drop 20) =
      "data  Crate = Crate deriving (V) where | $x /* left */ < 0 => 'empty';" := by
    decide +kernel
  have kept := (parse_commented accepted lexed (by decide) (by decide)
    (by decide : ¬ "*/".toList <:+: " left ".toList)).1 elsewhere
  rw [text] at kept
  exact ⟨accepted, lexed, elsewhere, kept⟩

theorem not_commentable_box :
    ∃ before after,
      lex "data  Box = Box deriving (V);" =
        .ok (before ++ ⟨.whitespace, " " ++ " ", 0⟩ :: after) ∧
      commented before " " "" " " after = "data /**/ Box = Box deriving (V);" ∧
      parse "" "data  Box = Box deriving (V);" =
        .ok ⟨"", [⟨"", "Box", ⟨"Box", []⟩, .named "V", [], none⟩]⟩ ∧
      parse "" "data /**/ Box = Box deriving (V);" =
        .error ⟨⟨0, .unexpected .identifier ⟨.whitespace, " ", 0⟩⟩, ""⟩ := by
  refine ⟨[⟨.word "data", "data", 0⟩],
    ((lex "data  Box = Box deriving (V);").toOption.getD []).drop 2, ?_⟩
  decide +kernel

end Declaration

end Datatypes
