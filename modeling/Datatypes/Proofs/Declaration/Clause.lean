import Datatypes.Proofs.Declaration.Declared
import Datatypes.Proofs.Declaration.Scoping

/-!
Where clauses. A clause is a list of groups of guards, and only the first group can be without a
head. `Clause groups ts` says so of the tokens behind the word `where`, apart from the reader; the
reader takes exactly the clauses, and makes a condition of each guard, under the name to which the
head of its group resolves.
-/

namespace Datatypes.Declaration

open Token

def Gap (ts : List Token) : Prop := ∀ t ∈ ts, t.kind = .whitespace

instance (ts : List Token) : Decidable (Gap ts) :=
  inferInstanceAs (Decidable (∀ t ∈ ts, t.kind = .whitespace))

/-- Inside so many brackets the tokens reach the arrow that ends a guard: there all brackets are
closed again, and no arrow before it stands where they are. -/
structure RunsToArrow (depth : Int) (span : List Token) : Prop where
  closed : depth + balance span = 0
  arrows : ∀ before t after, span = before ++ t :: after → t.kind = .arrow →
    depth + balance before ≠ 0

structure Guard where
  span : List Token
  message : String

inductive Guard.Spelled : Guard → List Token → Prop
  | intro {q : Guard} {bar arrow quote : Token} {gap gap' : List Token} :
      bar.kind = .symbol '|' → RunsToArrow 0 q.span → arrow.kind = .arrow → Gap gap →
      quote.kind = .quoted q.message → Gap gap' →
      Guard.Spelled q (bar :: (q.span ++ arrow :: (gap ++ quote :: gap')))

def Reference.kinds (r : Reference) : List TokenKind :=
  (if r.absolute then [.separator] else []) ++ pathKinds r.words

inductive HeadSpelled (r : Reference) : List Token → Prop
  | intro {path gap gap' : List Token} {colon : Token} :
      r.words ≠ [] → path.map (·.kind) = r.kinds → Gap gap → colon.kind = .symbol ':' → Gap gap' →
      HeadSpelled r (path ++ gap ++ colon :: gap')

structure Group where
  head : Option Reference
  guards : List Guard

inductive Group.Spelled : Group → List Token → Prop
  | bare {qs : List Guard} {parts : List (List Token)} :
      qs ≠ [] → List.Forall₂ Guard.Spelled qs parts → Group.Spelled ⟨none, qs⟩ parts.flatten
  | headed {r : Reference} {head : List Token} {qs : List Guard} {parts : List (List Token)} :
      HeadSpelled r head → qs ≠ [] → List.Forall₂ Guard.Spelled qs parts →
      Group.Spelled ⟨some r, qs⟩ (head ++ parts.flatten)

inductive GroupsSpelled : List Group → List Token → Prop
  | nil {semicolon : Token} : semicolon.kind = .symbol ';' → GroupsSpelled [] [semicolon]
  | cons {g : Group} {gs : List Group} {part rest : List Token} :
      g.head ≠ none → g.Spelled part → GroupsSpelled gs rest →
      GroupsSpelled (g :: gs) (part ++ rest)

inductive Clause : List Group → List Token → Prop
  | intro {g : Group} {gs : List Group} {gap first rest : List Token} :
      Gap gap → g.Spelled first → GroupsSpelled gs rest →
      Clause (g :: gs) (gap ++ first ++ rest)

def Guard.condition (q : Guard) (scope : String) : Condition := ⟨scope, guardText q.span, q.message⟩

def Group.scope (ns : String) (g : Group) : String :=
  match g.head with
  | none => anyConstructor
  | some r => r.resolve ns (· = anyConstructor)

def Group.conditions (ns : String) (g : Group) : List Condition :=
  g.guards.map (·.condition (g.scope ns))

def Draft.addConditions (d : Draft) (cs : List Condition) : Draft :=
  { d with conditions := d.conditions ++ cs }

theorem Draft.addConditions_append (d : Draft) (cs cs' : List Condition) :
    d.addConditions (cs ++ cs') = (d.addConditions cs).addConditions cs' := by
  simp [addConditions]

theorem RunsToArrow.nil {depth : Int} : RunsToArrow depth [] ↔ depth = 0 := by
  constructor
  · intro h
    simpa [balance] using h.closed
  · rintro rfl
    exact ⟨by simp [balance], fun before t after h => by simp at h⟩

theorem runsToArrow_cons {depth : Int} {t : Token} {span : List Token} :
    RunsToArrow depth (t :: span) ↔
      (t.kind = .arrow → depth ≠ 0) ∧ RunsToArrow (depth + balance [t]) span := by
  constructor
  · rintro ⟨closed, arrows⟩
    obtain ⟨first, rest⟩ := (forall_split_cons (Q := (· ≠ 0))).mp arrows
    rw [balance_cons, ← Int.add_assoc] at closed
    exact ⟨first, closed, rest⟩
  · rintro ⟨first, closed, rest⟩
    rw [Int.add_assoc, ← balance_cons] at closed
    exact ⟨closed, (forall_split_cons (Q := (· ≠ 0))).mpr ⟨first, rest⟩⟩

instance decidableRunsToArrow : ∀ depth span, Decidable (RunsToArrow depth span)
  | depth, [] => decidable_of_iff (depth = 0) RunsToArrow.nil.symm
  | depth, t :: span =>
    have := decidableRunsToArrow (depth + balance [t]) span
    decidable_of_iff _ runsToArrow_cons.symm

inductive Reads (ns : String) : Draft → Place → List Token → Draft → Place → Prop
  | nil {d : Draft} {p : Place} : Reads ns d p [] d p
  | cons {d d₁ d' : Draft} {p p₁ p' : Place} {t : Token} {ts : List Token} :
      p.rule ns d t = .ok (.reading d₁ p₁) → Reads ns d₁ p₁ ts d' p' → Reads ns d p (t :: ts) d' p'

section Reads

variable {ns : String} {d d' d'' : Draft} {p p' p'' : Place} {ts us : List Token}

theorem Reads.append (h : Reads ns d p ts d' p') (h' : Reads ns d' p' us d'' p'') :
    Reads ns d p (ts ++ us) d'' p'' := by
  induction h with
  | nil => exact h'
  | cons hr _ ih => exact .cons hr (ih h')

theorem Place.Moves.reads {kind : TokenKind} {t : Token} (h : p.Moves ns d kind d' p')
    (ht : t.kind = kind) : Reads ns d p [t] d' p' :=
  .cons (h t ht) .nil

theorem completes_cons_iff {t : Token} (hr : p.rule ns d t = .ok (.reading d' p'))
    {definition : Definition} :
    Completes ns (.body d p) (t :: ts) definition ↔ Completes ns (.body d' p') ts definition := by
  constructor
  · intro hc
    cases hc with
    | reading hr' hc =>
      rw [hr] at hr'
      cases hr'
      exact hc
    | declared hr' => rw [hr] at hr'; cases hr'
  · exact .reading hr

theorem Reads.completes_iff (h : Reads ns d p ts d' p') {definition : Definition} :
    Completes ns (.body d p) (ts ++ us) definition ↔ Completes ns (.body d' p') us definition := by
  induction h with
  | nil => rfl
  | cons hr _ ih => exact (completes_cons_iff hr).trans ih

theorem Reads.gap (hp : p.isSpaced = true) (h : Gap ts) : Reads ns d p ts d p := by
  induction ts with
  | nil => exact .nil
  | cons t ts ih =>
    exact .cons (p.moves_of_isSpaced hp ns d t (h t (by simp))) (ih fun u hu => h u (by simp [hu]))

theorem Reads.span {scope : String} {depth : Int} {span : List Token} (h : RunsToArrow depth span)
    (captured : List Token) :
    Reads ns d (.guard scope captured depth) span d (.guard scope (captured ++ span) 0) := by
  induction span generalizing depth captured with
  | nil =>
    obtain rfl := RunsToArrow.nil.mp h
    rw [List.append_nil]
    exact .nil
  | cons t span ih =>
    obtain ⟨first, rest⟩ := runsToArrow_cons.mp h
    have behind := ih rest (captured ++ [t])
    rw [List.append_assoc] at behind
    exact .cons (Machine.rule_guard first ns d) behind

theorem Reads.guard {scope : String} {q : Guard} (h : q.Spelled ts)
    (hbar : p.Moves ns d (.symbol '|') d (.guard scope [] 0)) :
    Reads ns d p ts (d.addCondition (q.condition scope)) (.guardEnd scope) := by
  cases h with
  | @intro bar arrow quote gap gap' hb hspan ha hgap hq hgap' =>
    have arrived : (Place.guard scope q.span 0).rule ns d arrow =
        .ok (.reading d (.guardMessage scope (guardText q.span))) := by
      rw [Place.rule, guardRule, if_pos ⟨ha, rfl⟩]
    have told : (Place.guardMessage scope (guardText q.span)).rule ns d quote =
        .ok (.reading (d.addCondition (q.condition scope)) (.guardEnd scope)) := by
      simp [Place.rule, guardMessageRule, spaced, isWhitespace, hq, Guard.condition]
    exact .cons (hbar bar hb) ((Reads.span hspan []).append (.cons arrived
      ((Reads.gap rfl hgap).append (.cons told (.gap rfl hgap')))))

theorem moves_guardEnd_bar (scope : String) :
    (Place.guardEnd scope).Moves ns d (.symbol '|') d (.guard scope [] 0) := by
  intro t ht
  simp [Place.rule, guardEndRule, spaced, isWhitespace, ht]

theorem Reads.guards {scope : String} {qs : List Guard} {parts : List (List Token)}
    (hne : qs ≠ []) (h : List.Forall₂ Guard.Spelled qs parts)
    (hbar : p.Moves ns d (.symbol '|') d (.guard scope [] 0)) :
    Reads ns d p parts.flatten (d.addConditions (qs.map (·.condition scope)))
      (.guardEnd scope) := by
  induction h generalizing d p with
  | nil => exact absurd rfl hne
  | @cons q part qs parts hq hqs ih =>
    have first := Reads.guard hq hbar
    rw [List.flatten_cons, ← List.singleton_append, List.map_append, Draft.addConditions_append]
    cases hqs with
    | nil => simpa [Draft.addConditions, Draft.addCondition] using first
    | cons hq' hqs' => exact first.append (ih (by simp) (moves_guardEnd_bar scope))

theorem pathKinds_cons (w : String) (words : List String) :
    pathKinds (w :: words) = .word w :: words.flatMap fun v => [.separator, .word v] := by
  induction words generalizing w with
  | nil => rfl
  | cons v words ih => rw [pathKinds, ih v] <;> simp

structure Heads (ns : String) (d : Draft) (start : Place) (word tail : Reference → Place) :
    Prop where
  separator : start.Moves ns d .separator d (word ⟨true, []⟩)
  first : ∀ w, start.Moves ns d (.word w) d (tail ⟨false, [w]⟩)
  next : ∀ r w, (word r).Moves ns d (.word w) d (tail (r.push w))
  again : ∀ r, (tail r).Moves ns d .separator d (word r)

theorem Heads.reads_words {word tail : Reference → Place} (h : Heads ns d p word tail)
    {words : List String} (hts : ts.map (·.kind) = words.flatMap fun v => [.separator, .word v])
    (r : Reference) : Reads ns d (tail r) ts d (tail { r with words := r.words ++ words }) := by
  induction words generalizing ts r with
  | nil =>
    obtain rfl : ts = [] := by simpa using hts
    rw [List.append_nil]
    exact .nil
  | cons w words ih =>
    obtain ⟨t, us, rfl, ht, hus⟩ := List.map_eq_cons_iff.mp hts
    obtain ⟨u, vs, rfl, hu, hvs⟩ := List.map_eq_cons_iff.mp hus
    have rest := ih hvs (r.push w)
    rw [Reference.push, List.append_assoc] at rest
    exact .cons (h.again r t ht) (.cons (h.next r w u hu) rest)

theorem Heads.reads {word tail : Reference → Place} (h : Heads ns d p word tail) {r : Reference}
    (hne : r.words ≠ []) (hts : ts.map (·.kind) = r.kinds) : Reads ns d p ts d (tail r) := by
  obtain ⟨absolute, words⟩ := r
  obtain ⟨w, words, rfl⟩ := List.exists_cons_of_ne_nil hne
  simp only [Reference.kinds, pathKinds_cons] at hts
  cases absolute with
  | false =>
    obtain ⟨t, us, rfl, ht, hus⟩ := List.map_eq_cons_iff.mp hts
    exact .cons (h.first w t ht) (h.reads_words hus ⟨false, [w]⟩)
  | true =>
    obtain ⟨t, us, rfl, ht, hus⟩ := List.map_eq_cons_iff.mp hts
    obtain ⟨u, vs, rfl, hu, hvs⟩ := List.map_eq_cons_iff.mp hus
    exact .cons (h.separator t ht) (.cons (h.next _ w u hu) (h.reads_words hvs ⟨true, [w]⟩))

theorem heads_scope {start : Place}
    (hstart : ∃ scope, start = .groupStart scope ∨ start = .guardEnd scope) :
    Heads ns d start .scopeWord .scopeTail := by
  obtain ⟨scope, hstart⟩ := hstart
  constructor
  · rcases hstart with rfl | rfl <;> intro t ht <;>
      simp [Place.rule, groupStartRule, guardEndRule, spaced, isWhitespace, ht]
  · rcases hstart with rfl | rfl <;> intro w t ht <;>
      simp [Place.rule, groupStartRule, guardEndRule, spaced, isWhitespace, ht]
  · intro r w t ht
    simp [Place.rule, wordRule, ht]
  · intro r t ht
    simp [Place.rule, scopeTailRule, ht]

theorem Reads.head (h : Heads ns d p .scopeWord .scopeTail) {r : Reference}
    (hts : HeadSpelled r ts) :
    Reads ns d p ts d (.guardOpen (r.resolve ns (· = anyConstructor))) := by
  cases hts with
  | @intro path gap gap' colon hne hpath hgap hc hgap' =>
    have colonMove : (Place.scopeColon (r.resolve ns (· = anyConstructor))).Moves ns d
        (.symbol ':') d (.guardOpen (r.resolve ns (· = anyConstructor))) := by
      intro t ht
      simp [Place.rule, symbolRule, spaced, isWhitespace, isSymbol, ht]
    -- The first token behind the name resolves it, be it white space or the colon.
    have named : Reads ns d (.scopeTail r) (gap ++ [colon]) d
        (.guardOpen (r.resolve ns (· = anyConstructor))) := by
      cases gap with
      | nil =>
        refine .cons ?_ .nil
        simp [Place.rule, scopeTailRule, symbolRule, spaced, isWhitespace, isSymbol, hc]
      | cons t gap =>
        exact .cons (moves_scopeTail_whitespace r ns d t (hgap t (by simp)))
          ((Reads.gap rfl fun u hu => hgap u (by simp [hu])).append (colonMove.reads hc))
    have whole := ((h.reads hne hpath).append named).append (Reads.gap rfl hgap')
    simpa using whole

theorem Reads.group {g : Group} (hts : g.Spelled ts) (h : Heads ns d p .scopeWord .scopeTail)
    (hbar : g.head = none → p.Moves ns d (.symbol '|') d (.guard anyConstructor [] 0)) :
    Reads ns d p ts (d.addConditions (g.conditions ns)) (.guardEnd (g.scope ns)) := by
  cases hts with
  | bare hne hqs => exact .guards hne hqs (hbar rfl)
  | @headed r head qs parts hhead hne hqs =>
    refine (Reads.head h hhead).append (.guards hne hqs fun t ht => ?_)
    simp [Place.rule, symbolRule, spaced, isWhitespace, isSymbol, ht, Group.scope]

theorem completes_finish_iff {t : Token} (hr : p.rule ns d t = finish ns d' t)
    {definition : Definition} :
    Completes ns (.body d p) [t] definition ↔
      Definition.ofParts ns d'.name d'.constructors d'.derivings d'.conditions d'.messageName =
        .ok definition := by
  rw [finish] at hr
  constructor
  · intro hc
    cases hc with
    | reading _ hc => cases hc
    | declared hr' =>
      rw [hr'] at hr
      split at hr
      · next hparts => cases hr; exact hparts
      · cases hr
  · intro hparts
    rw [hparts] at hr
    exact .declared hr

theorem GroupsSpelled.completes_iff {gs : List Group} (h : GroupsSpelled gs ts) (d : Draft)
    (scope : String) {definition : Definition} :
    Completes ns (.body d (.guardEnd scope)) ts definition ↔
      Definition.ofParts ns d.name d.constructors d.derivings
        (d.conditions ++ gs.flatMap (·.conditions ns)) d.messageName = .ok definition := by
  induction h generalizing d scope with
  | @nil semicolon hs =>
    have ended : (Place.guardEnd scope).rule ns d semicolon = finish ns d semicolon := by
      simp [Place.rule, guardEndRule, spaced, isWhitespace, hs]
    simpa using completes_finish_iff ended
  | @cons g gs part rest hhead hg _ ih =>
    have first : Reads ns d (.guardEnd scope) part _ _ :=
      .group hg (heads_scope ⟨scope, .inr rfl⟩) fun none => absurd none hhead
    rw [first.completes_iff, ih]
    simp [Draft.addConditions]

theorem Clause.completes_iff {groups : List Group} (h : Clause groups ts)
    {definition : Definition} :
    Completes ns (.body d (.groupStart anyConstructor)) ts definition ↔
      Definition.ofParts ns d.name d.constructors d.derivings
        (d.conditions ++ groups.flatMap (·.conditions ns)) d.messageName = .ok definition := by
  cases h with
  | @intro g gs gap first rest hgap hg hrest =>
    have bar : (Place.groupStart anyConstructor).Moves ns d (.symbol '|') d
        (.guard anyConstructor [] 0) := by
      intro t ht
      simp [Place.rule, groupStartRule, spaced, isWhitespace, ht]
    have start := Reads.group hg (heads_scope ⟨anyConstructor, .inl rfl⟩) fun _ => bar
    rw [((Reads.gap rfl hgap).append start).completes_iff, hrest.completes_iff]
    simp [Draft.addConditions]

end Reads

theorem gap_nil : Gap [] := fun t ht => by simp at ht

theorem Gap.cons {t : Token} {ts : List Token} (ht : t.kind = .whitespace) (h : Gap ts) :
    Gap (t :: ts) := by
  intro u hu
  rcases List.mem_cons.mp hu with rfl | hu
  · exact ht
  · exact h u hu

def GuardsSpelled (ts : List Token) : Prop :=
  ∃ qs parts gs rest, qs ≠ [] ∧ List.Forall₂ Guard.Spelled qs parts ∧ GroupsSpelled gs rest ∧
    ts = parts.flatten ++ rest

def BehindGuard (ts : List Token) : Prop :=
  ∃ gap qs parts gs rest, Gap gap ∧ List.Forall₂ Guard.Spelled qs parts ∧ GroupsSpelled gs rest ∧
    ts = gap ++ parts.flatten ++ rest

def BehindArrow (ts : List Token) : Prop :=
  ∃ gap quote message rest, Gap gap ∧ quote.kind = .quoted message ∧ BehindGuard rest ∧
    ts = gap ++ quote :: rest

def InGuard (depth : Int) (ts : List Token) : Prop :=
  ∃ span arrow rest, RunsToArrow depth span ∧ arrow.kind = .arrow ∧ BehindArrow rest ∧
    ts = span ++ arrow :: rest

def BehindColon (ts : List Token) : Prop :=
  ∃ gap rest, Gap gap ∧ GuardsSpelled rest ∧ ts = gap ++ rest

def BehindName (ts : List Token) : Prop :=
  ∃ gap colon rest, Gap gap ∧ colon.kind = .symbol ':' ∧ BehindColon rest ∧
    ts = gap ++ colon :: rest

def BehindWord (ts : List Token) : Prop :=
  ∃ path, ∃ words : List String, ∃ rest,
    path.map (·.kind) = words.flatMap (fun v => [.separator, .word v]) ∧
    BehindName rest ∧ ts = path ++ rest

def BehindSeparator (ts : List Token) : Prop :=
  ∃ t w rest, t.kind = .word w ∧ BehindWord rest ∧ ts = t :: rest

def HeadedGuards (ts : List Token) : Prop :=
  ∃ r head rest, HeadSpelled r head ∧ GuardsSpelled rest ∧ ts = head ++ rest

section Shapes

variable {t : Token} {ts : List Token}

theorem guardsSpelled_of_bar (ht : t.kind = .symbol '|') (h : InGuard 0 ts) :
    GuardsSpelled (t :: ts) := by
  obtain ⟨span, arrow, _, hspan, ha, ⟨gap, quote, message, _, hgap, hq, behind, rfl⟩, rfl⟩ := h
  obtain ⟨gap', qs, parts, gs, rest, hgap', hqs, hgs, rfl⟩ := behind
  have first : Guard.Spelled ⟨span, message⟩ (t :: (span ++ arrow :: (gap ++ quote :: gap'))) :=
    .intro ht hspan ha hgap hq hgap'
  exact ⟨_, _, gs, rest, by simp, .cons first hqs, hgs, by simp⟩

theorem headedGuards_of_word {w : String} (ht : t.kind = .word w) (h : BehindWord ts) :
    HeadedGuards (t :: ts) := by
  obtain ⟨path, words, _, hpath, ⟨gap, colon, _, hgap, hc, ⟨gap', rest, hgap', hrest, rfl⟩, rfl⟩,
    rfl⟩ := h
  have kinds : (t :: path).map (·.kind) = (⟨false, w :: words⟩ : Reference).kinds := by
    simp [Reference.kinds, pathKinds_cons, ht, hpath]
  exact ⟨_, _, rest, .intro (by simp) kinds hgap hc hgap', hrest, by simp⟩

theorem headedGuards_of_separator (ht : t.kind = .separator) (h : BehindSeparator ts) :
    HeadedGuards (t :: ts) := by
  obtain ⟨u, w, _, hu, ⟨path, words, _, hpath, ⟨gap, colon, _, hgap, hc,
    ⟨gap', rest, hgap', hrest, rfl⟩, rfl⟩, rfl⟩, rfl⟩ := h
  have kinds : (t :: u :: path).map (·.kind) = (⟨true, w :: words⟩ : Reference).kinds := by
    simp [Reference.kinds, pathKinds_cons, ht, hu, hpath]
  exact ⟨_, _, rest, .intro (by simp) kinds hgap hc hgap', hrest, by simp⟩

theorem GuardsSpelled.behindGuard (h : GuardsSpelled ts) : BehindGuard ts := by
  obtain ⟨qs, parts, gs, rest, -, hqs, hgs, rfl⟩ := h
  exact ⟨[], qs, parts, gs, rest, gap_nil, hqs, hgs, rfl⟩

theorem HeadedGuards.exists_groups (h : HeadedGuards ts) :
    ∃ (g : Group) (gs : List Group) (part rest : List Token),
      g.Spelled part ∧ g.head ≠ none ∧ GroupsSpelled gs rest ∧ ts = part ++ rest := by
  obtain ⟨r, head, _, hhead, ⟨qs, parts, gs, rest, hne, hqs, hgs, rfl⟩, rfl⟩ := h
  exact ⟨⟨some r, qs⟩, gs, head ++ parts.flatten, rest, .headed hhead hne hqs, by simp, hgs,
    by simp⟩

theorem HeadedGuards.behindGuard (h : HeadedGuards ts) : BehindGuard ts := by
  obtain ⟨g, gs, part, rest, hg, hhead, hgs, rfl⟩ := h.exists_groups
  exact ⟨[], [], [], _, _, gap_nil, .nil, .cons hhead hg hgs, by simp⟩

def Place.Shape (ts : List Token) : Place → Prop
  | .groupStart _ => ∃ groups, Clause groups ts
  | .scopeWord _ => BehindSeparator ts
  | .scopeTail _ => BehindWord ts
  | .scopeColon _ => BehindName ts
  | .guardOpen _ => BehindColon ts
  | .guard _ _ depth => InGuard depth ts
  | .guardMessage _ _ => BehindArrow ts
  | .guardEnd _ => BehindGuard ts
  | _ => True

variable {ns scope : String} {d d' : Draft} {p p' : Place}

theorem HeadedGuards.exists_clause (h : HeadedGuards ts) : ∃ groups, Clause groups ts := by
  obtain ⟨g, gs, part, rest, hg, -, hgs, rfl⟩ := h.exists_groups
  exact ⟨g :: gs, .intro gap_nil hg hgs⟩

theorem of_spaced {rule : Rule} {o : Progress} (h : spaced d p rule t = .ok o) :
    (t.kind = .whitespace ∧ o = .reading d p) ∨ rule t = .ok o := by
  rw [spaced] at h
  split at h
  · next hw =>
    cases h
    exact .inl ⟨by simpa [isWhitespace] using hw, rfl⟩
  · exact .inr h

theorem of_symbolRule {c : Char} {next : Place} {o : Progress}
    (h : symbolRule d p c next t = .ok o) :
    (t.kind = .whitespace ∧ o = .reading d p) ∨ (t.kind = .symbol c ∧ o = .reading d next) := by
  rcases of_spaced h with hw | h
  · exact .inl hw
  · split at h
    · next hc =>
      cases h
      exact .inr ⟨by simpa [isSymbol] using hc, rfl⟩
    · cases h

theorem shape_groupStart (h : (Place.groupStart scope).rule ns d t = .ok (.reading d' p))
    (hp : p.Shape ts) : (Place.groupStart scope).Shape (t :: ts) := by
  rw [Place.rule, groupStartRule] at h
  rcases of_spaced h with ⟨ht, ho⟩ | h
  · cases ho
    obtain ⟨groups, hg⟩ := hp
    cases hg with
    | intro hgap hg hgs => exact ⟨_, .intro (hgap.cons ht) hg hgs⟩
  · split at h
    · next ht =>
      cases h
      exact (headedGuards_of_separator ht hp).exists_clause
    · next ht =>
      cases h
      exact (headedGuards_of_word ht hp).exists_clause
    · next ht =>
      cases h
      obtain ⟨qs, parts, gs, rest, hne, hqs, hgs, heq⟩ := guardsSpelled_of_bar ht hp
      rw [Place.Shape, heq]
      exact ⟨_, .intro gap_nil (.bare hne hqs) hgs⟩
    · cases h

theorem shape_scopeWord {r : Reference}
    (h : (Place.scopeWord r).rule ns d t = .ok (.reading d' p)) (hp : p.Shape ts) :
    (Place.scopeWord r).Shape (t :: ts) := by
  simp only [Place.rule, wordRule] at h
  split at h
  · next w ht =>
    cases h
    exact ⟨t, w, ts, ht, hp, rfl⟩
  · cases h

theorem behindName_cons
    (h : symbolRule d (.scopeColon scope) ':' (.guardOpen scope) t = .ok (.reading d' p))
    (hp : p.Shape ts) : BehindName (t :: ts) := by
  rcases of_symbolRule h with ⟨ht, ho⟩ | ⟨ht, ho⟩
  · cases ho
    obtain ⟨gap, colon, rest, hgap, hc, behind, rfl⟩ := hp
    exact ⟨t :: gap, colon, rest, hgap.cons ht, hc, behind, rfl⟩
  · cases ho
    exact ⟨[], t, ts, gap_nil, ht, hp, rfl⟩

theorem shape_scopeTail {r : Reference}
    (h : (Place.scopeTail r).rule ns d t = .ok (.reading d' p)) (hp : p.Shape ts) :
    (Place.scopeTail r).Shape (t :: ts) := by
  simp only [Place.rule, scopeTailRule] at h
  split at h
  · next ht =>
    cases h
    obtain ⟨u, w, _, hu, ⟨path, words, rest, hpath, behind, rfl⟩, rfl⟩ := hp
    exact ⟨t :: u :: path, w :: words, rest, by simp [ht, hu, hpath], behind, rfl⟩
  · exact ⟨[], [], t :: ts, rfl, behindName_cons h hp, rfl⟩

theorem shape_guardOpen (h : (Place.guardOpen scope).rule ns d t = .ok (.reading d' p))
    (hp : p.Shape ts) : (Place.guardOpen scope).Shape (t :: ts) := by
  rcases of_symbolRule h with ⟨ht, ho⟩ | ⟨ht, ho⟩
  · cases ho
    obtain ⟨gap, rest, hgap, behind, rfl⟩ := hp
    exact ⟨t :: gap, rest, hgap.cons ht, behind, rfl⟩
  · cases ho
    exact ⟨[], t :: ts, gap_nil, guardsSpelled_of_bar ht hp, rfl⟩

theorem shape_guard {captured : List Token} {depth : Int}
    (h : (Place.guard scope captured depth).rule ns d t = .ok (.reading d' p)) (hp : p.Shape ts) :
    (Place.guard scope captured depth).Shape (t :: ts) := by
  by_cases harrow : t.kind = .arrow ∧ depth = 0
  · obtain ⟨ht, rfl⟩ := harrow
    rw [Place.rule, guardRule, if_pos ⟨ht, rfl⟩] at h
    cases h
    exact ⟨[], t, ts, RunsToArrow.nil.mpr rfl, ht, hp, rfl⟩
  · have inside : t.kind = .arrow → depth ≠ 0 := fun ht hd => harrow ⟨ht, hd⟩
    rw [Machine.rule_guard inside] at h
    cases h
    obtain ⟨span, arrow, rest, hspan, ha, behind, rfl⟩ := hp
    exact ⟨t :: span, arrow, rest, runsToArrow_cons.mpr ⟨inside, hspan⟩, ha, behind, rfl⟩

theorem shape_guardMessage {expression : String}
    (h : (Place.guardMessage scope expression).rule ns d t = .ok (.reading d' p))
    (hp : p.Shape ts) : (Place.guardMessage scope expression).Shape (t :: ts) := by
  rw [Place.rule, guardMessageRule] at h
  rcases of_spaced h with ⟨ht, ho⟩ | h
  · cases ho
    obtain ⟨gap, quote, message, rest, hgap, hq, behind, rfl⟩ := hp
    exact ⟨t :: gap, quote, message, rest, hgap.cons ht, hq, behind, rfl⟩
  · split at h
    · next message ht =>
      cases h
      exact ⟨[], t, message, ts, gap_nil, ht, hp, rfl⟩
    · cases h

theorem not_finish_reading : finish ns d t ≠ .ok (.reading d' p) := by
  rw [finish]
  split <;> simp

theorem shape_guardEnd (h : (Place.guardEnd scope).rule ns d t = .ok (.reading d' p))
    (hp : p.Shape ts) : (Place.guardEnd scope).Shape (t :: ts) := by
  rw [Place.rule, guardEndRule] at h
  rcases of_spaced h with ⟨ht, ho⟩ | h
  · cases ho
    obtain ⟨gap, qs, parts, gs, rest, hgap, hqs, hgs, rfl⟩ := hp
    exact ⟨t :: gap, qs, parts, gs, rest, hgap.cons ht, hqs, hgs, rfl⟩
  · split at h
    · next ht =>
      cases h
      exact (guardsSpelled_of_bar ht hp).behindGuard
    · next ht =>
      cases h
      exact (headedGuards_of_separator ht hp).behindGuard
    · next ht =>
      cases h
      exact (headedGuards_of_word ht hp).behindGuard
    · exact absurd h not_finish_reading
    · cases h

theorem Place.shape_cons (h : p.rule ns d t = .ok (.reading d' p')) (hp : p'.Shape ts) :
    p.Shape (t :: ts) := by
  cases p with
  | groupStart => exact shape_groupStart h hp
  | scopeWord => exact shape_scopeWord h hp
  | scopeTail => exact shape_scopeTail h hp
  | scopeColon => exact behindName_cons h hp
  | guardOpen => exact shape_guardOpen h hp
  | guard => exact shape_guard h hp
  | guardMessage => exact shape_guardMessage h hp
  | guardEnd => exact shape_guardEnd h hp
  | _ => trivial

def Place.isGuarding : Place → Bool
  | .groupStart _ | .scopeWord _ | .scopeTail _ | .scopeColon _ | .guardOpen _ | .guard _ _ _
  | .guardMessage _ _ | .guardEnd _ => true
  | _ => false

theorem Place.guardEnd_of_declared {definition : Definition} (hp : p.isGuarding = true)
    (h : p.rule ns d t = .ok (.declared definition)) : ∃ scope, p = .guardEnd scope := by
  have ht := (of_rule_declared h).1
  cases p with
  | guardEnd scope => exact ⟨scope, rfl⟩
  | groupStart | scopeWord | scopeTail | scopeColon | guardOpen | guardMessage =>
    simp [Place.rule, groupStartRule, wordRule, scopeTailRule, symbolRule, guardMessageRule, spaced,
      isWhitespace, isSymbol, ht, unexpected] at h
  | guard => rw [Machine.rule_guard (by simp [ht])] at h; cases h
  | _ => cases hp

theorem Place.shape_semicolon {definition : Definition}
    (h : p.rule ns d t = .ok (.declared definition)) : p.Shape [t] := by
  cases p with
  | guardEnd => exact ⟨[], [], [], [], [t], gap_nil, .nil, .nil (of_rule_declared h).1, rfl⟩
  | groupStart | scopeWord | scopeTail | scopeColon | guardOpen | guard | guardMessage =>
    obtain ⟨_, other⟩ := guardEnd_of_declared rfl h
    cases other
  | _ => trivial

theorem Completes.shape {definition : Definition} {s : State} (h : Completes ns s ts definition)
    (hs : s = .body d p) : p.Shape ts := by
  induction h generalizing d p with
  | gap | name => cases hs
  | reading hr _ ih =>
    cases hs
    exact Place.shape_cons hr (ih rfl)
  | declared hr =>
    cases hs
    exact Place.shape_semicolon hr

theorem Completes.exists_clause {definition : Definition}
    (h : Completes ns (.body d (.groupStart scope)) ts definition) : ∃ groups, Clause groups ts :=
  h.shape rfl

end Shapes

end Datatypes.Declaration
