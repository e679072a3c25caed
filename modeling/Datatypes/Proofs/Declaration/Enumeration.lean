import Datatypes.Proofs.Declaration.Concatenation
import Datatypes.Proofs.Declaration.Conditions
import Datatypes.Proofs.Declaration.Values

/-!
Declarations of enumerations. Behind the clause that derives an enumeration its values can be given:
the declaration is then read as before, with the values of the cases in its definition.
-/

namespace Datatypes.Declaration

open Token

variable {ns : String} {d d' : Draft} {p p' : Place} {s : State} {t : Token}
  {ts us gap : List Token} {definition : Definition}

/-- The tokens derive an enumeration and nothing else; behind its name a comma may stand. -/
def EnumClause (ts : List Token) : Prop :=
  ∃ comma ∈ [[], [TokenKind.symbol ',']], (visible ts).map (·.kind) =
    .word "deriving" :: .symbol '(' :: .word enumName :: (comma ++ [.symbol ')'])

def Place.refusesOpening : Place → Bool
  | .equals | .constructorTail _ | .constructorBody _ | .typeTail _ _ _ | .argumentName _ _ _ _
  | .derivingTail _ | .mappingColon _ _ _ | .scopeTail _ | .scopeColon _ => true
  | _ => false

def Place.collects : Place → Bool
  | .mappingValue _ _ _ _ _ | .guard _ _ _ => true
  | _ => false

theorem Outcome.behind_deriving {o : Except Failure Progress} (h : Outcome ns t d p o)
    (ht : t.kind = .word "deriving") (ho : o = .ok (.reading d' p')) :
    p' = .derivingOpen ∨ p'.collects = true ∨ p'.refusesOpening = true := by
  induction h with
  | derivings => cases ho; exact .inl rfl
  | mappingToken | guardToken => cases ho; exact .inr (.inl rfl)
  | constructorNamed _ ih | noArguments _ ih | derivingBare _ ih | scopeNamed _ ih => exact ih ho
  | constructorFirst | constructorWord | typeFirst | nullableFirst | typeWord | derivingName
  | mappingCase | groupFirst | scopeWord | nextGroupFirst => cases ho; exact .inr (.inr rfl)
  | _ => simp_all

theorem Place.exists_refusesOpening (hp : p.refusesOpening = true) (ht : t.kind = .whitespace) :
    ∃ p', p'.refusesOpening = true ∧ p.rule ns d t = .ok (.reading d p') := by
  cases p with
  | constructorTail r => exact ⟨_, rfl, moves_constructorTail_whitespace r ns d t ht⟩
  | typeTail c nullable r => exact ⟨_, rfl, moves_typeTail_whitespace c nullable r ns d t ht⟩
  | scopeTail r => exact ⟨_, rfl, moves_scopeTail_whitespace r ns d t ht⟩
  | equals | constructorBody | argumentName | derivingTail | mappingColon | scopeColon =>
    exact ⟨_, rfl, Place.moves_of_isSpaced rfl ns d t ht⟩
  | _ => cases hp

theorem Place.refuses_opening (hp : p.refusesOpening = true) (ht : t.kind = .symbol '(')
    (ns : String) (d : Draft) : ∃ e, p.rule ns d t = .error e := by
  cases p with
  | equals | constructorTail | constructorBody | typeTail | argumentName | derivingTail
  | mappingColon | scopeTail | scopeColon =>
    simp [rule, symbolRule, constructorTailRule, constructorBodyRule, constructorEndRule,
      typeTailRule, argumentNameRule, derivingTailRule, derivingItemEndRule, scopeTailRule, spaced,
      isWhitespace, isSymbol, unexpected, ht]
  | _ => cases hp

theorem not_completes_of_refusesOpening (hp : p.refusesOpening = true) (hgap : Gap gap)
    (ht : t.kind = .symbol '(') : ¬ Completes ns (.body d p) (gap ++ t :: ts) definition := by
  induction gap generalizing p with
  | nil =>
    intro h
    obtain ⟨e, he⟩ := p.refuses_opening hp ht ns d
    cases h with
    | reading hr | declared hr => cases he.symm.trans hr
  | cons u gap ih =>
    obtain ⟨p', hp', hr⟩ := p.exists_refusesOpening hp (hgap u (by simp))
    rw [List.cons_append, completes_cons_iff hr]
    exact ih hp' fun v hv => hgap v (by simp [hv])

theorem not_completes_of_collects (hp : p.collects = true) {comma : List TokenKind}
    (hcomma : comma ∈ [[], [TokenKind.symbol ',']])
    (hts : (visible ts).map (·.kind) =
      .symbol '(' :: .word enumName :: (comma ++ [.symbol ')', .symbol ';'])) :
    ¬ Completes ns (.body d p) ts definition := by
  intro h
  cases p with
  | mappingValue values case line span depth =>
    have inside : StaysInside depth (visible ts) ∧ balance (visible ts) = 0 := by
      rcases List.mem_pair.mp hcomma with rfl | rfl
      · simp only [List.nil_append, List.map_eq_cons_iff, List.map_eq_nil_iff] at hts
        obtain ⟨o, _, hv, ho, e, _, rfl, he, c, _, rfl, hc, s, _, rfl, hs, rfl⟩ := hts
        simp [hv, staysInside_cons, staysInside_nil, balance, isSymbol, ho, he, hc, hs]
      · simp only [List.cons_append, List.nil_append, List.map_eq_cons_iff,
          List.map_eq_nil_iff] at hts
        obtain ⟨o, _, hv, ho, e, _, rfl, he, k, _, rfl, hk, c, _, rfl, hc, s, _, rfl, hs, rfl⟩ :=
          hts
        simp [hv, staysInside_cons, staysInside_nil, balance, isSymbol, ho, he, hk, hc, hs]
    have reads : Reads ns d (.mappingValue values case line span depth) ts d _ :=
      Reads.value inside.1 (by rw [inside.2, Int.add_zero])
    have nothing := reads.completes_iff.mp ((List.append_nil ts).symm ▸ h)
    cases nothing
  | guard scope captured depth =>
    obtain ⟨span, arrow, rest, -, ha, -, rfl⟩ := h.shape rfl
    have seen : TokenKind.arrow ∈ (visible (span ++ arrow :: rest)).map (·.kind) :=
      List.mem_map.mpr ⟨arrow, by simp [visible, isWhitespace, ha], ha⟩
    rw [hts] at seen
    rcases List.mem_pair.mp hcomma with rfl | rfl <;> simp at seen
  | _ => cases hp

theorem Place.Moves.reads_visible {kind : TokenKind} {kinds : List TokenKind}
    (hm : p.Moves ns d kind d' p') (hp : p.isSpaced = true)
    (hts : (visible ts).map (·.kind) = kind :: kinds) :
    ∃ front rest, ts = front ++ rest ∧ (visible rest).map (·.kind) = kinds ∧
      Reads ns d p front d' p' := by
  obtain ⟨t, us, hus, ht, hkinds⟩ := List.map_eq_cons_iff.mp hts
  obtain ⟨gap, rest, rfl, hgap, hrest⟩ := exists_gap_of_visible hus
  exact ⟨gap ++ [t], rest, by simp, hrest ▸ hkinds, (Reads.gap hp hgap).append (hm.reads ht)⟩

theorem Reads.enumClause {comma : List TokenKind} (hcomma : comma ∈ [[], [TokenKind.symbol ',']])
    (hts : (visible ts).map (·.kind) = .symbol '(' :: .word enumName :: (comma ++ [.symbol ')'])) :
    Reads ns d .derivingOpen ts (d.addDeriving enumName) .derivingEnd := by
  have opened : Place.derivingOpen.Moves ns d (.symbol '(') d .derivingItem := by
    intro t ht
    simp [Place.rule, symbolRule, spaced, isWhitespace, isSymbol, ht]
  have named : Place.derivingItem.Moves ns d (.word enumName) (d.addDeriving enumName)
      (.derivingTail enumName) := by
    intro t ht
    simp [Place.rule, derivingItemRule, spaced, isWhitespace, ht]
  have next (d : Draft) : (Place.derivingTail enumName).Moves ns d (.symbol ',') d
      .derivingItem := by
    intro t ht
    simp [Place.rule, derivingTailRule, derivingItemEndRule, spaced, isWhitespace, isSymbol, ht]
  have closed (d : Draft) : (Place.derivingTail enumName).Moves ns d (.symbol ')') d
      .derivingEnd := by
    intro t ht
    simp [Place.rule, derivingTailRule, derivingItemEndRule, spaced, isWhitespace, isSymbol, ht]
  have closed' (d : Draft) : Place.derivingItem.Moves ns d (.symbol ')') d .derivingEnd := by
    intro t ht
    simp [Place.rule, derivingItemRule, spaced, isWhitespace, ht]
  obtain ⟨first, ts, rfl, hts, toItem⟩ := opened.reads_visible rfl hts
  obtain ⟨second, ts, rfl, hts, toTail⟩ := named.reads_visible rfl hts
  refine toItem.append (toTail.append ?_)
  rcases List.mem_pair.mp hcomma with rfl | rfl
  · obtain ⟨third, ts, rfl, hts, toEnd⟩ := (closed _).reads_visible rfl hts
    exact toEnd.append (.gap rfl (gap_of_visible (List.map_eq_nil_iff.mp hts)))
  · obtain ⟨third, ts, rfl, hts, again⟩ := (next _).reads_visible rfl hts
    obtain ⟨fourth, ts, rfl, hts, toEnd⟩ := (closed' _).reads_visible rfl hts
    exact again.append (toEnd.append (.gap rfl (gap_of_visible (List.map_eq_nil_iff.mp hts))))

theorem Completes.exists_derivingEnd {head clause : List Token} {semicolon : Token}
    {bare : Definition} (h : Completes ns s (head ++ clause ++ [semicolon]) bare)
    (hs : s.Guarded) (hsemi : semicolon.kind = .symbol ';') (hclause : EnumClause clause) :
    ∃ d, (∃ ds, d.derivings = ds ++ [.enum []]) ∧
      ∀ vs definition, Completes ns s (head ++ clause ++ vs) definition ↔
        Completes ns (.body d .derivingEnd) vs definition := by
  obtain ⟨comma, hcomma, hkinds⟩ := hclause
  obtain ⟨t, us, hus, ht, hkinds⟩ := List.map_eq_cons_iff.mp hkinds
  obtain ⟨gap, rest, rfl, hgap, rfl⟩ := exists_gap_of_visible hus
  have parts (vs : List Token) : head ++ (gap ++ t :: rest) ++ vs =
      head ++ gap ++ t :: (rest ++ vs) := by simp
  rw [parts] at h
  obtain ⟨s', -, same⟩ := h.exists_state (by simp) hs
  have behind := (same _ _).mp h
  -- In every other place the word is a name, and the bracket behind it is refused.
  have refused {d : Draft} {p : Place} (hp : p.refusesOpening = true) :
      ¬ Completes ns (.body d p) (rest ++ [semicolon]) bare := by
    obtain ⟨opening, vs, hvs, ho, -⟩ := List.map_eq_cons_iff.mp hkinds
    obtain ⟨gap', rest, rfl, hgap', -⟩ := exists_gap_of_visible hvs
    rw [List.append_assoc, List.cons_append]
    exact not_completes_of_refusesOpening hp hgap' ho
  generalize hrest : rest ++ [semicolon] = tail at behind
  cases behind with
  | gap ht' => cases ht.symm.trans ht'
  | name _ h => exact absurd (hrest ▸ h) (refused rfl)
  | @reading d d' p p' _ _ _ hr h =>
    rcases (p.outcome ns d t).behind_deriving ht hr with rfl | hp | hp
    · refine ⟨d'.addDeriving enumName, ⟨d'.derivings, rfl⟩, fun vs definition => ?_⟩
      rw [parts, same, completes_cons_iff hr]
      exact (Reads.enumClause hcomma hkinds).completes_iff
    · refine absurd (hrest ▸ h) (not_completes_of_collects hp hcomma ?_)
      have ended : (visible [semicolon]).map (·.kind) = [.symbol ';'] := by
        simp [visible, isWhitespace, hsemi]
      rw [visible, List.filter_append, List.map_append, ← visible, ← visible, hkinds, ended]
      simp
    · exact absurd (hrest ▸ h) (refused hp)
  | declared => simp at hrest

theorem ofParts_setValues {values : List (String × Constant)} {conditions : List Condition}
    (hd : ∃ ds, d.derivings = ds ++ [.enum []])
    (h : Definition.ofParts ns d.name d.constructors d.derivings conditions d.messageName =
      .ok definition) :
    Definition.ofParts ns (d.setValues values).name (d.setValues values).constructors
      (d.setValues values).derivings conditions (d.setValues values).messageName =
        .ok { definition with deriv := .enum values } := by
  obtain ⟨hcons, hder, hns, hname, hcond, hmessage⟩ := ofParts_eq_ok_iff.mp h
  obtain ⟨ds, hds⟩ := hd
  have filled : fillEnum values d.derivings = [.enum values] := by
    rw [hds] at hder
    obtain rfl : ds = [] := by simpa using congrArg List.length hder
    rw [hds]
    rfl
  exact ofParts_eq_ok_iff.mpr ⟨hcons, filled, hns, hname, hcond, hmessage⟩

theorem Completes.exists_ok (h : Completes ns (.body d p) (t :: ts) definition) :
    ∃ o, p.rule ns d t = .ok o := by
  cases h with
  | reading hr | declared hr => exact ⟨_, hr⟩

theorem of_rule_derivingEnd (hw : t.kind ≠ .whitespace) (hv : t.kind ≠ .word "with")
    (h : ∃ o, Place.derivingEnd.rule ns d t = .ok o) :
    t.kind = .symbol ';' ∨ t.kind = .word "where" := by
  obtain ⟨o, h⟩ := h
  have white : t.isWhitespace = false := by simpa [isWhitespace] using hw
  simp only [Place.rule, derivingEndRule, spaced, white, Bool.false_eq_true, if_false] at h
  split at h
  · next hs => exact .inl hs
  · next hk => exact absurd hk hv
  · next hk => exact .inr hk
  · cases h

theorem Completes.setValues (values : List (String × Constant))
    (hd : ∃ ds, d.derivings = ds ++ [.enum []])
    (h : Completes ns (.body d .derivingEnd) ts definition)
    (hts : ∀ t ∈ (visible ts).head?, t.kind ≠ .word "with") :
    Completes ns (.body (d.setValues values) .mappingEnd) ts
      { definition with deriv := .enum values } := by
  induction ts with
  | nil => cases h
  | cons t ts ih =>
    by_cases hw : t.kind = .whitespace
    · have hidden : visible (t :: ts) = visible ts := by simp [visible, isWhitespace, hw]
      rw [hidden] at hts
      rw [completes_cons_iff (Place.moves_of_isSpaced rfl ns d t hw)] at h
      rw [completes_cons_iff (Place.moves_of_isSpaced rfl ns _ t hw)]
      exact ih h hts
    · have unvalued : t.kind ≠ .word "with" := hts t (by simp [visible, isWhitespace, hw])
      rcases of_rule_derivingEnd hw unvalued h.exists_ok with hs | hk
      · have ended (d : Draft) : Place.derivingEnd.rule ns d t = finish ns d t := by
          simp [Place.rule, derivingEndRule, spaced, isWhitespace, hs]
        have ended' (d : Draft) : Place.mappingEnd.rule ns d t = finish ns d t := by
          simp [Place.rule, mappingEndRule, spaced, isWhitespace, hs]
        cases h with
        | reading hr => exact absurd (ended d ▸ hr) not_finish_reading
        | declared hr =>
          have parts := (completes_finish_iff (ended d)).mp (.declared hr)
          exact (completes_finish_iff (ended' _)).mpr (ofParts_setValues hd parts)
      · have opened (d : Draft) : Place.derivingEnd.rule ns d t =
            .ok (.reading d (.groupStart anyConstructor)) := by
          simp [Place.rule, derivingEndRule, spaced, isWhitespace, hk]
        have opened' (d : Draft) : Place.mappingEnd.rule ns d t =
            .ok (.reading d (.groupStart anyConstructor)) := by
          simp [Place.rule, mappingEndRule, spaced, isWhitespace, hk]
        rw [completes_cons_iff (opened d)] at h
        rw [completes_cons_iff (opened' _)]
        obtain ⟨groups, hc⟩ := h.exists_clause
        exact hc.completes_iff.mpr (ofParts_setValues hd (hc.completes_iff.mp h))

/-- The tokens `front` are a declaration, but for its semicolon, up to the clause that derives an
enumeration; with `back` behind them, where no values are given, they declare the definition. -/
structure Enumeration (ns : String) (front back : List Token) (definition : Definition) :
    Prop where
  clause : ∃ head clause, significant front = head ++ clause ∧ EnumClause clause
  complete : ∃ semicolon bare, semicolon.kind = .symbol ';' ∧
    DeclaredAs ns (significant front ++ [semicolon]) bare
  unvalued : ∀ t ∈ (visible (significant back)).head?, t.kind ≠ .word "with"
  declared : DeclaredAs ns (significant (front ++ back)) definition

section

variable {front back mapping : List Token} {keyword : Token} {ks : List Case}

theorem EnumClause.exists_cons {head clause : List Token} (hclause : EnumClause clause)
    (h : DeclaredAs ns (head ++ clause ++ us) definition) :
    ∃ first rest, head = first :: rest ∧ first.kind = .word "data" := by
  cases head with
  | cons first rest => exact ⟨first, rest, rfl, (declaredAs_cons_iff.mp h).1⟩
  | nil =>
    obtain ⟨comma, -, hkinds⟩ := hclause
    obtain ⟨t, ts, hts, ht, -⟩ := List.map_eq_cons_iff.mp hkinds
    obtain ⟨gap, rest, rfl, hgap, -⟩ := exists_gap_of_visible hts
    cases gap with
    | nil => exact absurd (ht.symm.trans (declaredAs_cons_iff.mp h).1) (by simp)
    | cons u gap => cases (hgap u (by simp)).symm.trans (declaredAs_cons_iff.mp h).1

theorem Enumeration.declaredAs (h : Enumeration ns front back definition)
    (hk : keyword.kind = .word "with") (hm : CasesListed ks (significant mapping)) :
    DeclaredAs ns (significant (front ++ keyword :: mapping ++ back))
      { definition with deriv := .enum (insertCases [] ks) } := by
  obtain ⟨head, clause, hfront, hclause⟩ := h.clause
  obtain ⟨semicolon, bare, hs, hbare⟩ := h.complete
  have declared := h.declared
  rw [significant_append, hfront] at declared
  rw [hfront] at hbare
  rw [List.append_assoc, significant_append, hfront, List.cons_append, significant_cons hk,
    significant_append]
  obtain ⟨first, rest, rfl, hfirst⟩ := hclause.exists_cons declared
  obtain ⟨-, hbare⟩ := declaredAs_cons_iff.mp hbare
  obtain ⟨-, declared⟩ := declaredAs_cons_iff.mp declared
  obtain ⟨d, hd, same⟩ := hbare.exists_derivingEnd (fun _ _ same => by cases same) hs hclause
  have opened : Place.derivingEnd.rule ns d keyword = .ok (.reading d .mappingOpen) := by
    obtain ⟨ds, hds⟩ := hd
    simp [Place.rule, derivingEndRule, mappingStart, spaced, isWhitespace, hk, hds,
      Deriving.isEnum]
  refine declaredAs_cons_iff.mpr ⟨hfirst, (same _ _).mpr ?_⟩
  rw [completes_cons_iff opened, (Reads.mapping hm).completes_iff]
  exact Completes.setValues _ hd ((same _ _).mp declared) h.unvalued

theorem Machine.steps_replaced {before declaration declaration' after : List Token}
    {m m' : Machine} {definition definition' : Definition}
    (hb : Machine.steps {} before = .ok m) (top : m.state = .topLevel)
    (h : DeclaredAs m.ns declaration definition) (h' : DeclaredAs m.ns declaration' definition')
    (hs : Machine.steps {} (before ++ declaration ++ after) = .ok m') :
    ∃ ds, m'.definitions = m.definitions ++ definition :: ds ∧
      Machine.steps {} (before ++ declaration' ++ after) =
        .ok { m' with definitions := m.definitions ++ definition' :: ds } := by
  let fresh : Machine := { m with definitions := [], state := .topLevel }
  have read {declaration : List Token} {definition : Definition}
      (h : DeclaredAs m.ns declaration definition) :
      Machine.steps {} (before ++ declaration ++ after) =
        (fresh.steps after).map (behind (m.definitions ++ [definition])) := by
    cases h with
    | intro kind hc =>
      have step := steps_declaration top kind hc
      rw [← steps_behind, List.append_assoc, steps_append, hb]
      simp only [Except.bind]
      rw [steps_append, step]
      simp [Except.bind, behind, fresh]
  rw [read h] at hs
  rw [read h']
  cases hafter : fresh.steps after with
  | error e => rw [hafter] at hs; cases hs
  | ok m₁ =>
    rw [hafter] at hs
    cases hs
    exact ⟨m₁.definitions, by simp [behind], by simp [Except.map, behind]⟩

end

/-- The values of an enumeration, given behind the clause that derives it, are those of its cases.
The count of the brackets that are open in a value is exact on every list of tokens. -/
theorem parse_enumeration :
    (∀ (file : String) (before front back after mapping : List Token) (keyword : Token)
      (m : Machine) (definition : Definition) (c : Collection) (ks : List Case),
      Machine.steps {} (significant before) = .ok m → m.state = .topLevel →
      Enumeration m.ns front back definition →
      parseStream (.ofTokens file (before ++ (front ++ back) ++ after)) = .ok c →
      keyword.kind = .word "with" → CasesListed ks (significant mapping) →
      ∃ ds ds' values, c.definitions = ds ++ definition :: ds' ∧ Tabulates ks values ∧
        ∀ source,
          lex source = .ok (before ++ (front ++ keyword :: mapping ++ back) ++ after) →
          parse file source =
            .ok ⟨file, ds ++ { definition with deriv := .enum values } :: ds'⟩) ∧
    ∀ ts m d values case line span depth,
      Machine.steps {} ts = .ok m →
      m.state = .body d (.mappingValue values case line span depth) →
      NeverBelow span ∧ balance span = depth ∧
        ∀ t m' d' values' case' line' span' depth', m.step t = .ok m' →
          m'.state = .body d' (.mappingValue values' case' line' span' depth') →
          (depth' : Int) = depth + balance [t] := by
  constructor
  · intro file before front back after mapping keyword m definition c ks hb top henum hc hk hm
    obtain ⟨last, hsteps, htop, outside, rfl⟩ := steps_of_parseStream hc
    rw [significant_append, significant_append] at hsteps
    obtain ⟨ds, hds, replaced⟩ :=
      Machine.steps_replaced hb top henum.declared (henum.declaredAs hk hm) hsteps
    refine ⟨m.definitions, ds, insertCases [] ks, hds, tabulates_insertCases ks, ?_⟩
    intro source hl
    rw [← significant_append, ← significant_append] at replaced
    exact parse_of_steps (lexFrom_eq_ok_iff.mp hl) replaced htop outside file
  · intro ts m d values case line span depth h hs
    obtain ⟨never, counted⟩ := Machine.counted_of_steps h hs
    exact ⟨never, counted, fun t m' d' values' case' line' span' depth' hstep hs' =>
      Machine.depth_of_step hstep hs hs'⟩

def intToken (n : Nat) : Token := ⟨.int n, n.repr, 0⟩

def suitSource : String :=
  "data Suit = Suit deriving (Enum) with (Low: (1 + 2) * 3, High: [4], /* again */ Low: -5,);"

def suitFront : List Token :=
  [wordToken "data", blank, wordToken "Suit", blank, symbolToken '=', blank, wordToken "Suit",
    blank, wordToken "deriving", blank, symbolToken '(', wordToken "Enum", symbolToken ')', blank]

def suitMapping : List Token :=
  [blank, symbolToken '(', wordToken "Low", symbolToken ':', blank, symbolToken '(', intToken 1,
    blank, symbolToken '+', blank, intToken 2, symbolToken ')', blank, symbolToken '*', blank,
    intToken 3, symbolToken ',', blank, wordToken "High", symbolToken ':', blank,
    symbolToken '[', intToken 4, symbolToken ']', symbolToken ',', blank,
    ⟨.comment, "/* again */", 0⟩, blank, wordToken "Low", symbolToken ':', blank,
    symbolToken '-', intToken 5, symbolToken ',', symbolToken ')']

def suitCases : List Case :=
  [⟨"Low", [symbolToken '(', intToken 1, symbolToken '+', intToken 2, symbolToken ')',
      symbolToken '*', intToken 3], .int 9, by decide +kernel⟩,
    ⟨"High", [symbolToken '[', intToken 4, symbolToken ']'], .int 4, by decide +kernel⟩,
    ⟨"Low", [symbolToken '-', intToken 5], .int (-5), by decide +kernel⟩]

def suit (values : List (String × Constant)) : Definition :=
  ⟨"", "Suit", ⟨"Suit", []⟩, .enum values, [], none⟩

theorem parse_enumeration_suit :
    ∃ values, values.map Prod.fst = ["Low", "High"] ∧ values.lookup "Low" = some (.int (-5)) ∧
      values.lookup "High" = some (.int 4) ∧
      parse "" suitSource = .ok ⟨"", [suit values]⟩ := by
  have declared : DeclaredAs "" (suitFront ++ [symbolToken ';']) (suit []) :=
    .intro rfl (completion_eq_some_iff.mp (by decide +kernel))
  have plain : significant suitFront = suitFront := by decide +kernel
  have enumeration : Enumeration "" suitFront [symbolToken ';'] (suit []) :=
    ⟨⟨suitFront.take 8, suitFront.drop 8, by decide +kernel, [], by simp, by decide +kernel⟩,
      ⟨symbolToken ';', suit [], rfl, by rw [plain]; exact declared⟩, by decide +kernel,
      declared⟩
  have listed : CasesListed suitCases (significant suitMapping) := by
    let inner := (visible (significant suitMapping)).tail.dropLast
    have spelled : CasesSpelled suitCases inner :=
      .cons rfl rfl rfl (.cons rfl rfl rfl (.cons rfl rfl rfl .nil))
    exact ⟨symbolToken '(', inner, symbolToken ')', by decide +kernel, rfl, spelled, rfl⟩
  have accepted : parseStream (.ofTokens "" ([] ++ (suitFront ++ [symbolToken ';']) ++ [])) =
      .ok ⟨"", [suit []]⟩ := by
    have steps : Machine.steps {} (significant ([] ++ (suitFront ++ [symbolToken ';']) ++ [])) =
        .ok { definitions := [suit []] } := by decide +kernel
    rw [parseStream_eq, steps]
    rfl
  obtain ⟨ds, ds', values, hds, ⟨names, lookup⟩, parses⟩ := parse_enumeration.1 "" [] suitFront
    [symbolToken ';'] [] suitMapping (wordToken "with") {} (suit []) _ suitCases rfl rfl
    enumeration accepted rfl listed
  obtain ⟨rfl, hds⟩ := List.append_eq_singleton_iff.mp hds.symm |>.resolve_right (by simp)
  obtain rfl : ds' = [] := by simpa using hds
  exact ⟨values, by rw [names]; decide +kernel, by rw [lookup]; decide +kernel,
    by rw [lookup]; decide +kernel, parses suitSource (by decide +kernel)⟩

end Datatypes.Declaration
