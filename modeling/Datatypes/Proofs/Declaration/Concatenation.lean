import Datatypes.Proofs.Declaration.Scoping

/-!
One source behind another. A line end keeps the tokens on its two sides apart, and between two
declarations the reader remembers nothing but the namespace: what stands behind a source means
what it means behind a statement of the namespace in which the source ends.
-/

namespace Datatypes.Declaration

open Text Token

def activeNamespace (source : String) : Option String :=
  (lex source).toOption.bind fun ts => (Machine.steps {} (significant ts)).toOption.map (·.ns)

theorem Draft.erase_erase (d : Draft) : (d.erase id).erase id = d.erase id := by
  simp [erase, Constructor.mapNames, Argument.mapType, Condition.mapScope]

namespace Machine

variable {m m' : Machine} {t : Token} {ts us : List Token}

def advance (m : Machine) : Progress → Machine
  | .reading d p => { m with state := .body d p }
  | .declared definition =>
    { m with definitions := m.definitions ++ [definition], state := .topLevel }

theorem step_body {d : Draft} {p : Place} (hs : m.state = .body d p) (t : Token) :
    m.step t = (p.rule m.ns d t).map m.advance := by
  simp only [step, hs]
  split <;> simp [*, Except.map, advance]

def behind (before : List Definition) (m : Machine) : Machine :=
  { m with definitions := before ++ m.definitions }

theorem step_behind (before : List Definition) (m : Machine) (t : Token) :
    (m.behind before).step t = (m.step t).map (behind before) := by
  obtain ⟨ns, inBlock, definitions, state⟩ := m
  cases state with
  | topLevel =>
    simp only [step, behind, stepTopLevel]
    split
    · rfl
    · cases inBlock <;> rfl
    · rfl
    · rfl
    · cases inBlock with
      | false => rfl
      | true => cases t.isSymbol '\x7d' <;> rfl
  | namespaceGap | namespaceWord words | nameGap line | name line =>
    simp only [step, behind]
    split <;> rfl
  | namespaceTail words =>
    simp only [step, behind]
    split
    · rfl
    · simp only [stepNamespaceEnd]
      split <;> rfl
  | namespaceEnd words =>
    simp only [step, behind, stepNamespaceEnd]
    split <;> rfl
  | body d p =>
    rw [step_body rfl, step_body rfl]
    simp only [behind]
    rcases p.rule ns d t with e | ⟨d', p'⟩ | definition
    · rfl
    · rfl
    · simp [Except.map, advance, behind]

theorem steps_behind (before : List Definition) (m : Machine) (ts : List Token) :
    (m.behind before).steps ts = (m.steps ts).map (behind before) := by
  induction ts generalizing m with
  | nil => rfl
  | cons t ts ih =>
    rw [steps_cons, steps_cons, step_behind]
    cases m.step t with
    | error e => rfl
    | ok m' => exact ih m'

theorem finish_behind (before : List Definition) (m : Machine) (line : Nat) :
    (m.behind before).finish line = (m.finish line).map (before ++ ·) := by
  obtain ⟨ns, inBlock, definitions, state⟩ := m
  cases state with
  | topLevel => cases inBlock <;> rfl
  | _ => rfl

def erase (m : Machine) : Machine := { m with state := m.state.erase id }

def seen (o : Except Failure Machine) : Option Machine := o.toOption.map erase

theorem seen_stepNamespaceEnd (m : Machine) (words : List String) (t : Token) :
    seen (m.stepNamespaceEnd words t) = seen (m.stepNamespaceEnd words t.unlined) := by
  rw [stepNamespaceEnd, stepNamespaceEnd, unlined_kind]
  split <;> rfl

theorem seen_step_body {d : Draft} {p : Place} (hs : m.state = .body d p) (t : Token) :
    seen (m.step t) = (view id (p.rule m.ns d t)).map m.advance := by
  rw [step_body hs]
  rcases p.rule m.ns d t with e | ⟨d', p'⟩ | definition
  · rfl
  · rfl
  · simp [seen, view, Except.map, Except.toOption, Progress.erase, Definition.mapNames_id, advance,
      erase, State.erase]

theorem seen_step_erase (m : Machine) (t : Token) :
    seen (m.step t) = seen (m.erase.step t.unlined) := by
  obtain ⟨ns, inBlock, definitions, state⟩ := m
  cases state with
  | topLevel =>
    simp only [step, erase, State.erase]
    rw [stepTopLevel, stepTopLevel, unlined_kind, unlined_isSymbol]
    split
    · rfl
    · cases inBlock <;> rfl
    · rfl
    · rfl
    · split <;> rfl
  | namespaceGap | nameGap line =>
    simp only [step, erase, State.erase]
    rw [unlined_isWhitespace]
    split <;> rfl
  | namespaceWord words | name line =>
    simp only [step, erase, State.erase]
    rw [unlined_kind]
    split <;> rfl
  | namespaceTail words =>
    simp only [step, erase, State.erase]
    rw [unlined_kind]
    split
    · rfl
    · exact seen_stepNamespaceEnd ..
  | namespaceEnd words => exact seen_stepNamespaceEnd ..
  | body d p =>
    rw [seen_step_body rfl, seen_step_body rfl,
      view_rule_erase d.erase_erase.symm (blurs_id ns) p]
    rfl

theorem toOption_bind_congr {α β γ : Type} {f : Machine → γ} {g : α → β}
    {o o' : Except Failure Machine} {k l : Machine → Except Failure α}
    (h : o.toOption.map f = o'.toOption.map f)
    (hk : ∀ m m' : Machine, f m = f m' → (k m).toOption.map g = (l m').toOption.map g) :
    (o.bind k).toOption.map g = (o'.bind l).toOption.map g := by
  cases o with
  | error e =>
    cases o' with
    | error e' => rfl
    | ok m' => cases h
  | ok m =>
    cases o' with
    | error e' => cases h
    | ok m' => exact hk m m' (Option.some.inj h)

theorem seen_steps (hm : m.erase = m'.erase) (h : ts.map unlined = us.map unlined) :
    seen (m.steps ts) = seen (m'.steps us) := by
  induction ts generalizing m m' us with
  | nil =>
    obtain rfl : us = [] := by simpa using h.symm
    exact congrArg some hm
  | cons t ts ih =>
    obtain ⟨u, us, rfl, hu, hus⟩ := List.map_eq_cons_iff.mp h.symm
    have same : seen (m.step t) = seen (m'.step u) := by
      rw [seen_step_erase, hm, ← hu, ← seen_step_erase]
    rw [steps_cons, steps_cons]
    exact toOption_bind_congr same fun _ _ next => ih next hus.symm

theorem finish_eq_of_erase (hm : m.erase = m'.erase) (line line' : Nat) :
    (m.finish line).toOption = (m'.finish line').toOption := by
  have shown (m : Machine) (line : Nat) :
      (m.finish line).toOption = (m.erase.finish 0).toOption := by
    obtain ⟨ns, inBlock, definitions, state⟩ := m
    cases state with
    | topLevel => cases inBlock <;> rfl
    | _ => rfl
  rw [shown m, shown m', hm]

theorem run_eq_of_erase (hm : m.erase = m'.erase) (h : ts.map unlined = us.map unlined)
    (file file' : String) (line line' : Nat) :
    (m.run ⟨file, line, ts⟩).toOption = (m'.run ⟨file', line', us⟩).toOption := by
  have kept : (significant ts).map unlined = (significant us).map unlined := by
    rw [significant_unlined, significant_unlined, h]
  rw [run_eq_steps, run_eq_steps]
  have ended := toOption_bind_congr (g := id)
    (k := fun last => last.finish (lastLine line (significant ts)))
    (l := fun last => last.finish (lastLine line' (significant us))) (seen_steps hm kept)
    fun _ _ last => congrArg (Option.map id) (finish_eq_of_erase last _ _)
  simpa using ended

def ending (m : Machine) (cs : List Char) : Option (List Definition) :=
  (lexFrom 0 cs).toOption.bind fun ts => (m.run ⟨"", 0, ts⟩).toOption

theorem ending_eq (m : Machine) (cs : List Char) (line last : Nat) :
    m.ending cs = (lexFrom line cs).toOption.bind fun ts => (m.run ⟨"", last, ts⟩).toOption := by
  have kept {line : Nat} {ts : List Token} (h : lexFrom line cs = .ok ts) (line' : Nat) :
      ∃ us, lexFrom line' cs = .ok us ∧ us.map unlined = ts.map unlined := by
    obtain ⟨us, hus, same⟩ := (lexFrom_eq_ok_iff.mp h).exists_at line'
    exact ⟨us, lexFrom_eq_ok_iff.mpr hus, same⟩
  rw [ending]
  cases h : lexFrom 0 cs with
  | ok ts =>
    obtain ⟨us, hus, same⟩ := kept h line
    rw [hus]
    exact run_eq_of_erase rfl same.symm _ _ _ _
  | error e =>
    cases h' : lexFrom line cs with
    | ok us =>
      obtain ⟨ts, hts, -⟩ := kept h' 0
      rw [h] at hts
      cases hts
    | error e' => rfl

theorem ending_append {kind : TokenKind} {text rest : List Char} (h : Lexeme kind text rest)
    (m : Machine) (line : Nat) :
    m.ending (text ++ rest) =
      (m.steps (significant [⟨kind, String.ofList text, line⟩])).toOption.bind
        (·.ending rest) := by
  rw [m.ending_eq _ line 0, lexFrom_append h]
  cases hr : lexFrom (line + text.count '\n') rest with
  | error e =>
    have unread (m' : Machine) : m'.ending rest = none := by
      rw [m'.ending_eq rest (line + text.count '\n') 0, hr]
      rfl
    simp [unread, Except.map, Except.toOption]
  | ok ts =>
    have first := m.run_append "" 0 [⟨kind, String.ofList text, line⟩] ts
    simp only [List.singleton_append] at first
    simp only [Except.map, Except.toOption, Option.bind_some, first]
    cases m.steps (significant [⟨kind, String.ofList text, line⟩]) with
    | error e => rfl
    | ok m' =>
      simp only [Option.bind_some]
      rw [m'.ending_eq rest (line + text.count '\n') _, hr]
      rfl

theorem ending_behind (before : List Definition) (m : Machine) (cs : List Char) :
    (m.behind before).ending cs = (m.ending cs).map (before ++ ·) := by
  rw [ending, ending]
  cases lexFrom 0 cs with
  | error e => rfl
  | ok ts =>
    simp only [Except.toOption, Option.bind_some, run_eq_steps, steps_behind]
    cases m.steps (significant ts) with
    | error e => rfl
    | ok m' =>
      simp only [Except.map, Except.bind, finish_behind]
      cases m'.finish (lastLine 0 (significant ts)) <;> rfl

theorem ending_blank (hm : m.state = .topLevel) {gap : List Char}
    (hgap : ∀ c ∈ gap, isBlank c = true) (cs : List Char) :
    m.ending (gap ++ cs) = m.ending cs := by
  have skipped {front : List Char} (hfront : ∀ c ∈ front, isBlank c = true) :
      m.ending (front ++ cs.dropWhile isBlank) = m.ending (cs.dropWhile isBlank) := by
    cases front with
    | nil => rfl
    | cons c front =>
      rw [ending_append (.whitespace hfront (halts_dropWhile _ _)) m 0,
        steps_blank hm (by simp)]
      rfl
  have leading : ∀ c ∈ cs.takeWhile isBlank, isBlank c = true := fun _ => List.mem_takeWhile_imp
  calc m.ending (gap ++ cs)
      = m.ending ((gap ++ cs.takeWhile isBlank) ++ cs.dropWhile isBlank) := by
        rw [List.append_assoc, List.takeWhile_append_dropWhile]
    _ = m.ending (cs.dropWhile isBlank) := by
        refine skipped fun c hc => ?_
        exact (List.mem_append.mp hc).elim (hgap c) (leading c)
    _ = m.ending (cs.takeWhile isBlank ++ cs.dropWhile isBlank) := (skipped leading).symm
    _ = m.ending cs := by rw [List.takeWhile_append_dropWhile]

theorem eq_of_step_whitespace (ht : t.kind = .whitespace) (h : m.step t = .ok m')
    (hm' : m'.state = .topLevel) : m' = m := by
  cases outcome_of_step h with
  | space => rfl
  | blockEnd _ _ hk | namespaceBlock _ hk | namespaceEnd _ hk =>
    rw [ht] at hk
    cases hk
  | declared _ move =>
    have semicolon := (move.of_declared rfl).1
    rw [ht] at semicolon
    cases semicolon
  | _ => cases hm'

theorem ending_append_newline {line : Nat} {cs : List Char} (h : Lexes line cs ts)
    (hs : m.steps (significant ts) = .ok m') (hm' : m'.state = .topLevel) (more : List Char) :
    m.ending (cs ++ '\n' :: more) = m'.ending more := by
  have newline : ∀ c ∈ ['\n'], isBlank c = true := by
    simp [show isBlank '\n' = true by decide]
  induction h generalizing m with
  | nil =>
    cases hs
    exact ending_blank hm' newline more
  | @cons line kind text rest ts hl hts ih =>
    rw [List.append_assoc]
    by_cases hend : rest = [] ∧ kind = .whitespace
    · -- White space at the end goes on behind the line end, so it is no token of its own.
      obtain ⟨rfl, rfl⟩ := hend
      obtain rfl := hts.eq_nil
      have blank := hl.isBlank_of_whitespace rfl
      have last : m.steps ([] ++ [⟨.whitespace, String.ofList text, line⟩]) = .ok m' := hs
      obtain ⟨m₀, hm₀, step⟩ := steps_concat_eq_ok_iff.mp last
      cases hm₀
      obtain rfl := eq_of_step_whitespace rfl step hm'
      rw [List.nil_append, ← List.singleton_append, ← List.append_assoc]
      refine ending_blank hm' (fun c hc => ?_) more
      exact (List.mem_append.mp hc).elim (blank c) (newline c)
    · have ended := hl.append_blank (by decide) (fun _ => rfl)
        (fun hr hk => hend ⟨hr, hk⟩) more
      rw [ending_append ended m line]
      rw [← List.singleton_append, significant_append, steps_append] at hs
      cases hfirst : m.steps (significant [⟨kind, String.ofList text, line⟩]) with
      | error e => rw [hfirst] at hs; cases hs
      | ok m₁ =>
        rw [hfirst] at hs
        exact ih hs

end Machine

theorem parse_of_ending (file source : String) :
    match Machine.ending {} source.toList with
    | some definitions => parse file source = .ok ⟨file, definitions⟩
    | none => ∃ e, parse file source = .error e := by
  rw [Machine.ending, parse, TokenStream.ofSource, TokenStream.tokens, lex]
  cases lexFrom 0 source.toList with
  | error e => exact ⟨_, rfl⟩
  | ok ts =>
    have same := Machine.run_eq_of_erase (m := {}) rfl (rfl : ts.map unlined = _) "" file 0 0
    simp only [Except.mapError, Except.map, parseStream, TokenStream.ofTokens, Except.toOption,
      Option.bind_some] at same ⊢
    rw [same]
    cases Machine.run {} ⟨file, 0, ts⟩ with
    | error e => exact ⟨_, rfl⟩
    | ok definitions => rfl

theorem ending_statement {ns : String} (h : IsPath ns) (more : List Char) :
    Machine.ending {} ((Item.statement ns).text.toList ++ '\n' :: more) =
      Machine.ending { ns := ns } more := by
  obtain ⟨ts, reads⟩ := Item.exists_reads_statement h
  obtain ⟨definitions, hs, hd⟩ := reads.follows {} ts rfl rfl
  cases hd
  exact Machine.ending_append_newline reads.lexes hs rfl more

/-- Behind a source and a line end, a text adds the definitions that it has in the namespace in
which the source ends; where it is no source there, the two together are none. -/
theorem parse_append_newline {file source : String} {c : Collection}
    (h : parse file source = .ok c) :
    ∃ ns, activeNamespace source = some ns ∧ ∀ more : String,
      match parse file (if ns = "" then more else "namespace " ++ ns ++ ";" ++ "\n" ++ more) with
      | .ok later =>
        parse file (source ++ "\n" ++ more) = .ok ⟨file, c.definitions ++ later.definitions⟩
      | .error _ => ∃ e, parse file (source ++ "\n" ++ more) = .error e := by
  obtain ⟨ts, ⟨ns, inBlock, definitions, state⟩, hl, hs, top, outside, rfl⟩ := steps_of_parse h
  cases top
  cases outside
  refine ⟨ns, by simp [activeNamespace, lex, lexFrom_eq_ok_iff.mpr hl, hs, Except.toOption],
    fun more => ?_⟩
  have path : ns = "" ∨ IsPath ns := (Machine.wellFormed_of_steps hl.spelled hs).ns
  have alone : Machine.ending {}
      (if ns = "" then more else "namespace " ++ ns ++ ";" ++ "\n" ++ more).toList =
      Machine.ending { ns := ns } more.toList := by
    split
    · next hns => rw [hns]
    · next hns =>
      have statement := ending_statement (path.resolve_left hns) more.toList
      simpa [Item.text] using statement
  have joined : Machine.ending {} (source ++ "\n" ++ more).toList =
      (Machine.ending { ns := ns } more.toList).map (definitions ++ ·) := by
    rw [← Machine.ending_behind]
    simpa [Machine.behind] using Machine.ending_append_newline hl hs rfl more.toList
  have first := parse_of_ending file
    (if ns = "" then more else "namespace " ++ ns ++ ";" ++ "\n" ++ more)
  have both := parse_of_ending file (source ++ "\n" ++ more)
  rw [alone] at first
  rw [joined] at both
  cases hm : Machine.ending { ns := ns } more.toList with
  | none =>
    rw [hm] at first both
    obtain ⟨e, he⟩ := first
    rw [he]
    exact both
  | some later =>
    rw [hm] at first both
    rw [first]
    exact both

def shelfSource : String := "namespace Shop;\ndata Shelf = Shelf deriving (V); // to be filled"

def shelf : Definition := ⟨"Shop", "Shelf", ⟨"Shop\\Shelf", []⟩, .named "V", [], none⟩

def shopBox : Definition :=
  ⟨"Shop", "Box", ⟨"Shop\\Box", [⟨"x", "Shop\\Item", false, false⟩]⟩, .named "V", [], none⟩

theorem parse_append_newline_shelf :
    parse "shop" shelfSource = .ok ⟨"shop", [shelf]⟩ ∧ activeNamespace shelfSource = some "Shop" ∧
      parse "shop" (shelfSource ++ "\n" ++ boxText) = .ok ⟨"shop", [shelf, shopBox]⟩ ∧
      ∃ e, parse "shop" (shelfSource ++ "\n" ++ "\x7d") = .error e := by
  have accepted : parse "shop" shelfSource = .ok ⟨"shop", [shelf]⟩ := by decide +kernel
  have ended : activeNamespace shelfSource = some "Shop" := by decide +kernel
  have box : parse "shop" ("namespace " ++ "Shop" ++ ";" ++ "\n" ++ boxText) =
      .ok ⟨"shop", [shopBox]⟩ := by decide +kernel
  have brace : (parse "shop" ("namespace " ++ "Shop" ++ ";" ++ "\n" ++ "\x7d")).toOption = none := by
    decide +kernel
  obtain ⟨ns, hns, law⟩ := parse_append_newline accepted
  rw [ended] at hns
  cases hns
  have filled := law boxText
  have closed := law "\x7d"
  rw [if_neg (by decide), box] at filled
  rw [if_neg (by decide)] at closed
  refine ⟨accepted, ended, filled, ?_⟩
  cases hb : parse "shop" ("namespace " ++ "Shop" ++ ";" ++ "\n" ++ "\x7d") with
  | ok later => rw [hb] at brace; cases brace
  | error e =>
    rw [hb] at closed
    exact closed

end Datatypes.Declaration
