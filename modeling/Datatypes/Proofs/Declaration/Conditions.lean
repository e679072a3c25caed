import Datatypes.Proofs.Declaration.Clause

/-!
Where the conditions of a definition come from. The clause of a declaration stands behind the word
`where` in front of which the declaration could have ended without any condition. A definition has
the conditions of the clause in its declaration, and without a clause it has none.
-/

namespace Datatypes.Declaration

open Token

variable {ns : String} {d d' : Draft} {p p' : Place} {t : Token} {ts : List Token}
  {definition : Definition}

def HasClause (ns : String) (declaration : List Token) (groups : List Group) : Prop :=
  ∃ front keyword clause semicolon bare,
    declaration = front ++ keyword :: clause ∧ keyword.kind = .word "where" ∧
      Clause groups clause ∧ semicolon.kind = .symbol ';' ∧
      DeclaredAs ns (front ++ [semicolon]) bare ∧ bare.conditions = []

theorem ofParts_eq_ok_iff {name : String} {constructors : List Constructor}
    {derivings : List Deriving} {conditions : List Condition} {messageName : Option String} :
    Definition.ofParts ns name constructors derivings conditions messageName = .ok definition ↔
      constructors = [definition.constructor] ∧ derivings = [definition.deriv] ∧
        definition.ns = ns ∧ definition.name = name ∧ definition.conditions = conditions ∧
        definition.messageName = messageName := by
  obtain ⟨_, _, _, _, _, _⟩ := definition
  rw [Definition.ofParts.eq_def]
  split
  · simp_all
  · simp_all
  · simp_all
  · simp_all
  · simp only [Except.ok.injEq, Definition.mk.injEq, List.cons.injEq, and_true]
    grind

theorem conditions_of_ofParts {name : String} {constructors : List Constructor}
    {derivings : List Deriving} {conditions : List Condition} {messageName : Option String}
    (h : Definition.ofParts ns name constructors derivings conditions messageName =
      .ok definition) : definition.conditions = conditions :=
  (ofParts_eq_ok_iff.mp h).2.2.2.2.1

def Place.mayEnd : Place → Bool
  | .constructorTail _ | .constructorBody _ | .constructorEnd | .derivingEnd | .mappingEnd => true
  | _ => false

theorem Place.moves_where (hp : p.mayEnd = true) (ns : String) (d : Draft) :
    ∃ d', d'.conditions = d.conditions ∧
      p.Moves ns d (.word "where") d' (.groupStart anyConstructor) ∧
      ∀ t : Token, t.kind = .symbol ';' → p.rule ns d t = finish ns d' t := by
  cases p with
  | constructorTail r =>
    refine ⟨d.addConstructor ⟨r.resolve ns isScalarConstructor, []⟩, rfl, fun t ht => ?_,
      fun t ht => ?_⟩ <;>
    simp [rule, constructorTailRule, constructorBodyRule, constructorEndRule, spaced, isWhitespace,
      isSymbol, ht]
  | constructorBody name =>
    refine ⟨d.addConstructor ⟨name, []⟩, rfl, fun t ht => ?_, fun t ht => ?_⟩ <;>
    simp [rule, constructorBodyRule, constructorEndRule, spaced, isWhitespace, isSymbol, ht]
  | constructorEnd | derivingEnd | mappingEnd =>
    refine ⟨d, rfl, fun t ht => ?_, fun t ht => ?_⟩ <;>
    simp [rule, constructorEndRule, derivingEndRule, mappingEndRule, spaced, isWhitespace, ht]
  | _ => cases hp

theorem Place.stays {o : Progress} (hp : p.isGuarding = false) (hend : p.mayEnd = false)
    (ht : t.kind = .symbol ';' ∨ t.kind = .word "where") (h : p.rule ns d t = .ok o) :
    ∃ d' p', o = .reading d' p' ∧ p'.isGuarding = false := by
  cases p with
  | constructorTail | constructorBody | constructorEnd | derivingEnd | mappingEnd => cases hend
  | groupStart | scopeWord | scopeTail | scopeColon | guardOpen | guard | guardMessage
  | guardEnd => cases hp
  | _ =>
    rcases ht with ht | ht <;>
    simp [rule, symbolRule, wordRule, constructorStartRule, constructorBracketRule,
      argumentStartRule, nullableTypeRule, typeTailRule, typeBracketRule, typeGapRule,
      argumentNameRule, argumentEndRule, derivingItemRule, derivingTailRule, derivingItemEndRule,
      derivingMessageRule, mappingCaseRule, mappingValueRule, spaced, isWhitespace, isSymbol, ht,
      unexpected] at h
    all_goals exact ⟨_, _, h.symm, rfl⟩

theorem Place.mayEnd_of_declared (h : p.rule ns d t = .ok (.declared definition)) :
    p.mayEnd = true ∨ ∃ scope, p = .guardEnd scope := by
  by_cases hp : p.isGuarding = true
  · exact .inr (guardEnd_of_declared hp h)
  · left
    by_contra hend
    obtain ⟨d', p', ho, -⟩ :=
      stays (by simpa using hp) (by simpa using hend) (.inl (of_rule_declared h).1) h
    cases ho

theorem Outcome.where_of_guarding {o : Except Failure Progress} (h : Outcome ns t d p o)
    (ho : o = .ok (.reading d' p')) (hp : p.isGuarding = false) (hp' : p'.isGuarding = true) :
    t.kind = .word "where" ∧ p' = .groupStart anyConstructor := by
  induction h with
  | conditions ht => cases ho; exact ⟨ht, rfl⟩
  | space => cases ho; rw [hp] at hp'; cases hp'
  | constructorNamed _ ih | noArguments _ ih | derivingBare _ ih => exact ih ho rfl
  | groupSeparator | groupFirst | groupBar | scopeWord | scopeTail | scopeNamed | scopeColon
  | guardOpen | guardToken | guardArrow | guardMessage | guardNext | nextGroupSeparator
  | nextGroupFirst => cases hp
  | _ => cases ho <;> cases hp'

theorem Place.mayEnd_of_guarding (h : p.rule ns d t = .ok (.reading d' p'))
    (hp : p.isGuarding = false) (hp' : p'.isGuarding = true) :
    p.mayEnd = true ∧ t.kind = .word "where" ∧ p' = .groupStart anyConstructor := by
  obtain ⟨ht, rfl⟩ := (p.outcome ns d t).where_of_guarding h hp hp'
  refine ⟨?_, ht, rfl⟩
  by_contra hend
  obtain ⟨_, _, ho, hq⟩ := stays hp (by simpa using hend) (.inr ht) h
  cases ho
  cases hq

theorem Outcome.conditions_eq {o : Except Failure Progress} (h : Outcome ns t d p o)
    (ho : o = .ok (.reading d' p')) (hp : p.isGuarding = false) :
    d'.conditions = d.conditions := by
  induction h with
  | constructorNamed _ ih | noArguments _ ih | derivingBare _ ih => exact ih ho rfl
  | scopeNamed | guardMessage => cases hp
  | unexpected | declared | invalid | invalidCase => cases ho
  | _ => cases ho; rfl

theorem Outcome.declared_conditions {o : Except Failure Progress} (h : Outcome ns t d p o)
    (ho : o = .ok (.declared definition)) : definition.conditions = d.conditions := by
  induction h with
  | declared _ hparts =>
    cases ho
    exact conditions_of_ofParts hparts
  | constructorNamed _ ih | noArguments _ ih | derivingBare _ ih | scopeNamed _ ih => exact ih ho
  | _ => cases ho

def State.Guarded (s : State) : Prop :=
  ∀ d scope, s = .body d (.guardEnd scope) → d.conditions ≠ []

theorem Outcome.guarded {o : Except Failure Progress} (h : Outcome ns t d p o)
    (ho : o = .ok (.reading d' p')) (hp : (State.body d p).Guarded) :
    (State.body d' p').Guarded := by
  rintro _ scope ⟨⟩
  induction h with
  | space => cases ho; exact hp _ scope rfl
  | guardMessage => cases ho; simp [Draft.addCondition]
  | constructorNamed _ ih | noArguments _ ih | derivingBare _ ih | scopeNamed _ ih =>
    exact ih (fun _ _ same => by cases same) ho
  | _ => cases ho

theorem completes_nameGap_iff {line : Nat} (ht : t.kind = .whitespace) :
    Completes ns (.nameGap line) (t :: ts) definition ↔
      Completes ns (.name line) ts definition := by
  constructor
  · intro h
    cases h with
    | gap _ h => exact h
  · exact .gap ht

theorem completes_name_iff {line : Nat} {w : String} (ht : t.kind = .word w) :
    Completes ns (.name line) (t :: ts) definition ↔
      Completes ns (.body { line := line, name := w } .equals) ts definition := by
  constructor
  · intro h
    cases h with
    | name ht' h =>
      cases ht.symm.trans ht'
      exact h
  · exact .name ht

theorem Completes.exists_state {s : State} {us : List Token}
    (h : Completes ns s (ts ++ us) definition) (hne : us ≠ []) (hs : s.Guarded) :
    ∃ s', s'.Guarded ∧ ∀ vs definition',
      Completes ns s (ts ++ vs) definition' ↔ Completes ns s' vs definition' := by
  -- A run over the first tokens that goes on behind them has come to one state, since each token
  -- leaves the reader no choice.
  induction ts generalizing s with
  | nil => exact ⟨s, hs, fun _ _ => Iff.rfl⟩
  | cons t ts ih =>
    rw [List.cons_append] at h
    generalize hrest : ts ++ us = rest at h
    cases h with
    | gap ht h =>
      obtain ⟨s', guarded, same⟩ := ih (hrest ▸ h) fun _ _ same => by cases same
      exact ⟨s', guarded, fun vs _ => (completes_nameGap_iff ht).trans (same vs _)⟩
    | name ht h =>
      obtain ⟨s', guarded, same⟩ := ih (hrest ▸ h) fun _ _ same => by cases same
      exact ⟨s', guarded, fun vs _ => (completes_name_iff ht).trans (same vs _)⟩
    | @reading d d' p p' _ _ _ hr h =>
      obtain ⟨s', guarded, same⟩ := ih (hrest ▸ h) ((p.outcome ns d t).guarded hr hs)
      exact ⟨s', guarded, fun vs _ => (completes_cons_iff hr).trans (same vs _)⟩
    | declared => exact absurd (List.append_eq_nil_iff.mp hrest).2 hne

theorem Completes.meet {front : List Token} {s : State} {semicolon : Token} {us : List Token}
    {bare : Definition} (h : Completes ns s (front ++ [semicolon]) bare)
    (h' : Completes ns s (front ++ us) definition) (hs : s.Guarded) :
    ∃ d p, p.rule ns d semicolon = .ok (.declared bare) ∧ (State.body d p).Guarded ∧
      Completes ns (.body d p) us definition := by
  obtain ⟨s', guarded, same⟩ := h.exists_state (by simp) hs
  have last := (same _ _).mp h
  cases last with
  | gap _ h | name _ h | reading _ h => cases h
  | @declared d p _ _ hr => exact ⟨d, p, hr, guarded, (same _ _).mp h'⟩

theorem DeclaredAs.conditions_eq (h : DeclaredAs ns ts definition) {groups : List Group}
    (hc : HasClause ns ts groups) :
    definition.conditions = groups.flatMap (·.conditions ns) := by
  obtain ⟨front, keyword, clause, semicolon, bare, rfl, hk, hclause, hs, hbare, none⟩ := hc
  cases front with
  | nil => cases (declaredAs_cons_iff.mp hbare).2
  | cons first front =>
    obtain ⟨-, hbare⟩ := declaredAs_cons_iff.mp hbare
    obtain ⟨-, hd⟩ := declaredAs_cons_iff.mp h
    obtain ⟨d, p, hr, hp, hd⟩ := hbare.meet hd fun _ _ same => by cases same
    have kept : d.conditions = [] :=
      ((p.outcome ns d semicolon).declared_conditions hr).symm.trans none
    rcases Place.mayEnd_of_declared hr with hend | ⟨scope, rfl⟩
    · obtain ⟨d', same, moves, -⟩ := Place.moves_where hend ns d
      have parts := hclause.completes_iff.mp ((completes_cons_iff (moves keyword hk)).mp hd)
      rw [conditions_of_ofParts parts, same, kept, List.nil_append]
    · -- Behind a guard the word would be the head of a group, but there are conditions already.
      exact absurd kept (hp d scope rfl)

def LeadsToClause (ns : String) (s : State) (ts : List Token) : Prop :=
  ∃ front keyword clause, ts = front ++ keyword :: clause ∧ keyword.kind = .word "where" ∧
    (∃ groups, Clause groups clause) ∧
    ∀ semicolon : Token, semicolon.kind = .symbol ';' →
      ∃ bare, Completes ns s (front ++ [semicolon]) bare ∧ bare.conditions = []

theorem LeadsToClause.cons {s s' : State} (h : LeadsToClause ns s' ts)
    (hstep : ∀ us bare, Completes ns s' us bare → Completes ns s (t :: us) bare) :
    LeadsToClause ns s (t :: ts) := by
  obtain ⟨front, keyword, clause, rfl, hk, hc, ends⟩ := h
  refine ⟨t :: front, keyword, clause, rfl, hk, hc, fun semicolon hsemi => ?_⟩
  obtain ⟨bare, hb, none⟩ := ends semicolon hsemi
  exact ⟨bare, hstep _ bare hb, none⟩

theorem leadsToClause_of_guarding (hr : p.rule ns d t = .ok (.reading d' p'))
    (hp : p.isGuarding = false) (hp' : p'.isGuarding = true) (hnone : d'.conditions = [])
    (h : Completes ns (.body d' p') ts definition) : LeadsToClause ns (.body d p) (t :: ts) := by
  obtain ⟨hend, ht, rfl⟩ := Place.mayEnd_of_guarding hr hp hp'
  obtain ⟨d₁, -, moves, ends⟩ := Place.moves_where hend ns d
  cases (moves t ht).symm.trans hr
  obtain ⟨groups, hc⟩ := h.exists_clause
  refine ⟨[], t, ts, rfl, ht, ⟨groups, hc⟩, fun semicolon hsemi => ?_⟩
  obtain ⟨hcons, hder, hns, hname, -, hmessage⟩ := ofParts_eq_ok_iff.mp (hc.completes_iff.mp h)
  refine ⟨{ definition with conditions := [] }, ?_, rfl⟩
  refine (completes_finish_iff (ends semicolon hsemi)).mpr (ofParts_eq_ok_iff.mpr ?_)
  exact ⟨hcons, hder, hns, hname, hnone.symm, hmessage⟩

theorem Completes.leadsToClause {s : State} (h : Completes ns s ts definition)
    (hs : ∀ d p, s = .body d p → p.isGuarding = false ∧ d.conditions = [])
    (hne : definition.conditions ≠ []) : LeadsToClause ns s ts := by
  induction h with
  | gap ht _ ih => exact (ih (fun _ _ same => by cases same) hne).cons fun _ _ => .gap ht
  | name ht _ ih =>
    exact (ih (by rintro _ _ ⟨⟩; exact ⟨rfl, rfl⟩) hne).cons fun _ _ => .name ht
  | @reading d d' p p' t ts definition hr h ih =>
    obtain ⟨hp, none⟩ := hs d p rfl
    have kept : d'.conditions = [] := ((p.outcome ns d t).conditions_eq hr hp).trans none
    by_cases hp' : p'.isGuarding = true
    · exact leadsToClause_of_guarding hr hp hp' kept h
    · have before : p'.isGuarding = false := by simpa using hp'
      exact (ih (by rintro _ _ ⟨⟩; exact ⟨before, kept⟩) hne).cons fun _ _ => .reading hr
  | @declared d p t definition hr =>
    exact absurd (((p.outcome ns d t).declared_conditions hr).trans (hs d p rfl).2) hne

theorem DeclaredAs.exists_hasClause (h : DeclaredAs ns ts definition)
    (hne : definition.conditions ≠ []) : ∃ groups, HasClause ns ts groups := by
  cases h with
  | @intro data inner _ hdata hd =>
    obtain ⟨front, keyword, clause, rfl, hk, ⟨groups, hc⟩, ends⟩ :=
      hd.leadsToClause (fun _ _ same => by cases same) hne
    let semicolon : Token := ⟨.symbol ';', ";", 0⟩
    obtain ⟨bare, hb, none⟩ := ends semicolon rfl
    exact ⟨groups, data :: front, keyword, clause, semicolon, bare, rfl, hk, hc, rfl,
      .intro hdata hb, none⟩

theorem clauses_of_parse {file source : String} {c : Collection} (h : parse file source = .ok c)
    {P : List Token → Definition → List Group → Prop}
    (hP : ∀ declaration definition groups, Declares source declaration definition →
      HasClause definition.ns declaration groups → P declaration definition groups) :
    (∀ definition ∈ c.definitions, ∃ declaration, Declares source declaration definition) ∧
    ∀ declaration definition, Declares source declaration definition →
      definition ∈ c.definitions ∧
      (definition.conditions ≠ [] → ∃ groups, HasClause definition.ns declaration groups) ∧
      ∀ groups, HasClause definition.ns declaration groups →
        definition.conditions = groups.flatMap (·.conditions definition.ns) ∧
        P declaration definition groups := by
  refine ⟨fun definition hd => exists_declares h hd, fun declaration definition hd => ?_⟩
  have hread := hd.declaredAs
  exact ⟨hd.mem h, hread.exists_hasClause,
    fun groups hc => ⟨hread.conditions_eq hc, hP declaration definition groups hd hc⟩⟩

def blank : Token := ⟨.whitespace, " ", 0⟩

def wordToken (w : String) : Token := ⟨.word w, w, 0⟩

def symbolToken (c : Char) : Token := ⟨.symbol c, String.singleton c, 0⟩

def Guard.tokens (q : Guard) : List Token :=
  symbolToken '|' :: (q.span ++ [⟨.arrow, "=>", 0⟩, blank,
    ⟨.quoted q.message, "'" ++ q.message ++ "'", 0⟩])

theorem Guard.spelled_tokens {q : Guard} (h : RunsToArrow 0 q.span) : q.Spelled q.tokens :=
  .intro rfl h rfl (show Gap [blank] by decide) rfl gap_nil

def ageFront (w : String) : List Token :=
  [wordToken "data", blank, wordToken "Age", blank, symbolToken '=', blank, wordToken w, blank,
    wordToken "deriving", blank, symbolToken '(', wordToken "V", symbolToken ')', blank]

end Datatypes.Declaration
