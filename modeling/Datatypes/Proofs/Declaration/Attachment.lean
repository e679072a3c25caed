import Datatypes.Proofs.Declaration.Conditions

/-!
Guards and the constructor they are about. The name of the constructor and the head of a group of
guards are spelled alike, but each is resolved by a rule of its own: no namespace qualifies a
constructor that is a scalar, while of the heads only that for any constructor stays as it is. So a
group that repeats the name of the constructor is attached to it, unless it is a scalar that is
spelled without a leading separator, inside a namespace.
-/

namespace Datatypes.Declaration

open Token

variable {ns name : String} {d d' : Draft} {p p' : Place} {t : Token} {ts : List Token}
  {definition : Definition}

/-- The declaration calls its constructor by this name, which is no list and goes no further. -/
inductive NamesConstructor (r : Reference) : List Token → Prop
  | intro {data space name equals next : Token} {gap gap' path rest : List Token} :
      Gap gap → equals.kind = .symbol '=' → Gap gap' → r.words ≠ [] →
      path.map (·.kind) = r.kinds → next.kind ≠ .separator → next.kind ≠ .symbol '[' →
      NamesConstructor r
        (data :: space :: name :: (gap ++ equals :: (gap' ++ (path ++ next :: rest))))

def Place.constructorName? : Place → Option String
  | .constructorBody name => some name
  | .argumentStart c | .nullableType c | .typeWord c _ _ | .typeTail c _ _ | .typeBracket c _ _
  | .typeGap c _ _ | .argumentName c _ _ _ | .argumentEnd c => some c.name
  | _ => none

def Named (name : String) (d : Draft) (p : Place) : Prop :=
  (d.constructors = [] ∧ p.constructorName? = some name) ∨
    ∃ c cs, d.constructors = c :: cs ∧ c.name = name

theorem Outcome.constructors_kept {o : Except Failure Progress} (h : Outcome ns t d p o)
    (ho : o = .ok (.reading d' p')) : d.constructors <+: d'.constructors := by
  induction h with
  | constructorNamed _ ih | derivingBare _ ih | scopeNamed _ ih => exact ih ho
  | noArguments _ ih => exact (List.prefix_append _ _).trans (ih ho)
  | argumentsEnd | argumentEnd => cases ho; exact List.prefix_append _ _
  | unexpected | declared | invalid | invalidCase => cases ho
  | _ => cases ho; exact List.prefix_rfl

theorem Place.named_of_rule (hp : p.constructorName? = some name)
    (h : p.rule ns d t = .ok (.reading d' p')) :
    (d'.constructors = d.constructors ∧ p'.constructorName? = some name) ∨
      ∃ c, c.name = name ∧ d.constructors ++ [c] <+: d'.constructors := by
  cases p with
  | constructorBody =>
    cases hp
    rw [rule, constructorBodyRule] at h
    rcases of_spaced h with ⟨-, ho⟩ | h
    · cases ho; exact .inl ⟨rfl, rfl⟩
    · split at h
      · cases h; exact .inl ⟨rfl, rfl⟩
      · exact .inr ⟨_, rfl, outcome_constructorEndRule.constructors_kept h⟩
  | argumentStart c =>
    rw [rule, argumentStartRule] at h
    rcases of_spaced h with ⟨-, ho⟩ | h
    · cases ho; exact .inl ⟨rfl, hp⟩
    · split at h <;> cases h
      · exact .inr ⟨c, Option.some.inj hp, List.prefix_rfl⟩
      all_goals exact .inl ⟨rfl, hp⟩
  | argumentEnd c =>
    rw [rule, argumentEndRule] at h
    rcases of_spaced h with ⟨-, ho⟩ | h
    · cases ho; exact .inl ⟨rfl, hp⟩
    · split at h <;> cases h
      · exact .inr ⟨c, Option.some.inj hp, List.prefix_rfl⟩
      · exact .inl ⟨rfl, hp⟩
  | nullableType | argumentName =>
    simp only [rule, nullableTypeRule, argumentNameRule] at h
    rcases of_spaced h with ⟨-, ho⟩ | h
    · cases ho; exact .inl ⟨rfl, hp⟩
    · split at h <;> cases h <;> exact .inl ⟨rfl, hp⟩
  | typeWord | typeTail | typeBracket | typeGap =>
    simp only [rule, wordRule, typeTailRule, typeBracketRule, typeGapRule] at h
    split at h <;> cases h <;> exact .inl ⟨rfl, hp⟩
  | _ => cases hp

theorem Named.step (h : Named name d p) (hr : p.rule ns d t = .ok (.reading d' p')) :
    Named name d' p' := by
  rcases h with ⟨none, hp⟩ | ⟨c, cs, hd, hc⟩
  · rcases Place.named_of_rule hp hr with ⟨same, hp'⟩ | ⟨c, hc, cs, hd'⟩
    · exact .inl ⟨same.trans none, hp'⟩
    · rw [none] at hd'
      exact .inr ⟨c, cs, hd'.symm, hc⟩
  · obtain ⟨more, hd'⟩ := (p.outcome ns d t).constructors_kept hr
    rw [hd] at hd'
    exact .inr ⟨c, cs ++ more, hd'.symm, hc⟩

theorem Outcome.named {o : Except Failure Progress} (h : Outcome ns t d p o)
    (ho : o = .ok (.declared definition)) (hn : Named name d p) :
    definition.constructor.name = name := by
  induction h with
  | declared _ hparts =>
    cases ho
    obtain ⟨only, -⟩ := ofParts_eq_ok_iff.mp hparts
    rcases hn with ⟨none, -⟩ | ⟨c, cs, hd, hc⟩
    · rw [none] at only
      cases only
    · rw [hd] at only
      cases only
      exact hc
  | @noArguments d bare _ _ ih =>
    rcases hn with ⟨none, hp⟩ | ⟨c, cs, hd, hc⟩
    · have same : bare = name := Option.some.inj hp
      exact ih ho (.inr ⟨⟨bare, []⟩, [], by rw [Draft.addConstructor, none]; rfl, same⟩)
    · exact ih ho (.inr ⟨c, _, by rw [Draft.addConstructor, hd]; rfl, hc⟩)
  | constructorNamed _ ih | derivingBare _ ih | scopeNamed _ ih =>
    rcases hn with ⟨-, hp⟩ | read
    · cases hp
    · exact ih ho (.inr read)
  | _ => cases ho

theorem Completes.constructor_name {s : State} (h : Completes ns s ts definition)
    (hs : s = .body d p) (hn : Named name d p) : definition.constructor.name = name := by
  induction h generalizing d p with
  | gap | name => cases hs
  | reading hr _ ih =>
    cases hs
    exact ih rfl (hn.step hr)
  | @declared d p t definition hr =>
    cases hs
    exact (p.outcome ns d t).named hr hn

theorem heads_constructor : Heads ns d .constructorStart .constructorWord .constructorTail := by
  constructor
  · intro t ht
    simp [Place.rule, constructorStartRule, spaced, isWhitespace, ht]
  · intro w t ht
    simp [Place.rule, constructorStartRule, spaced, isWhitespace, ht]
  · intro r w t ht
    simp [Place.rule, wordRule, ht]
  · intro r t ht
    simp [Place.rule, constructorTailRule, ht]

theorem rule_constructorTail {r : Reference} (hs : t.kind ≠ .separator)
    (hb : t.kind ≠ .symbol '[') :
    (Place.constructorTail r).rule ns d t =
      (Place.constructorBody (r.resolve ns isScalarConstructor)).rule ns d t := by
  have noList : (t.isSymbol '[' && !r.absolute && scalarConstructors.contains r.name) = false := by
    simp [isSymbol, hb]
  simp only [Place.rule, constructorTailRule, noList, Bool.false_eq_true, if_false]

theorem completes_of_rule_eq (hr : p.rule ns d t = p'.rule ns d t)
    (h : Completes ns (.body d p) (t :: ts) definition) :
    Completes ns (.body d p') (t :: ts) definition := by
  cases h with
  | reading hp hc => exact .reading (hr.symm.trans hp) hc
  | declared hp => exact .declared (hr.symm.trans hp)

theorem DeclaredAs.constructor_name {r : Reference} (h : DeclaredAs ns ts definition)
    (hn : NamesConstructor r ts) :
    definition.constructor.name = r.resolve ns isScalarConstructor := by
  cases hn with
  | @intro data space name equals next gap gap' path rest hgap he hgap' hne hpath hs hb =>
    obtain ⟨-, h⟩ := declaredAs_cons_iff.mp h
    have opens : ∀ d, Place.equals.Moves ns d (.symbol '=') d .constructorStart := by
      intro d t ht
      simp [Place.rule, symbolRule, spaced, isWhitespace, isSymbol, ht]
    cases h with
    | gap _ h =>
      cases h with
      | name _ h =>
        rw [(Reads.gap rfl hgap).completes_iff, completes_cons_iff (opens _ equals he),
          (Reads.gap rfl hgap').completes_iff,
          (heads_constructor.reads hne hpath).completes_iff] at h
        exact (completes_of_rule_eq (rule_constructorTail hs hb) h).constructor_name rfl
          (.inl ⟨rfl, rfl⟩)

theorem qualify_ne_self (hns : ns ≠ "") (name : String) : qualify ns name ≠ name := by
  intro h
  rw [qualify, if_neg hns] at h
  have lengths := congrArg String.length h
  simp only [String.length_append] at lengths
  have separator : "\\".length = 1 := rfl
  omega

theorem Reference.resolve_eq_iff {r : Reference}
    (hr : r.absolute = true ∨ r.name ≠ anyConstructor) :
    r.resolve ns (· = anyConstructor) = r.resolve ns isScalarConstructor ↔
      ns = "" ∨ r.absolute = true ∨ isScalarConstructor r.name = false := by
  by_cases habs : r.absolute = true
  · simp [resolve, habs]
  · have other : r.name ≠ anyConstructor := hr.resolve_left habs
    by_cases hscalar : isScalarConstructor r.name = true
    · by_cases hns : ns = ""
      · simp [resolve, qualify, hns]
      · simp [resolve, habs, hscalar, other, hns, qualify_ne_self hns r.name]
    · simp [resolve, habs, hscalar, other]

theorem Group.Spelled.guards_ne_nil {g : Group} (h : g.Spelled ts) : g.guards ≠ [] := by
  cases h with
  | bare hne | headed _ hne => exact hne

theorem Clause.guards_ne_nil {groups : List Group} (h : Clause groups ts) :
    ∀ g ∈ groups, g.guards ≠ [] := by
  have later : ∀ {gs us}, GroupsSpelled gs us → ∀ g ∈ gs, g.guards ≠ [] := by
    intro gs us hgs
    induction hgs with
    | nil => simp
    | cons _ hg _ ih => exact List.forall_mem_cons.mpr ⟨hg.guards_ne_nil, ih⟩
  cases h with
  | intro _ hg hgs => exact List.forall_mem_cons.mpr ⟨hg.guards_ne_nil, later hgs⟩

theorem Group.scope_iff {g : Group} (hne : g.guards ≠ []) (scope : String) :
    (∀ q ∈ g.conditions ns, q.scope = scope) ↔ g.scope ns = scope := by
  constructor
  · intro h
    obtain ⟨q, qs, hq⟩ := List.exists_cons_of_ne_nil hne
    exact h (q.condition (g.scope ns)) (by simp [conditions, hq])
  · rintro rfl c hc
    obtain ⟨q, -, rfl⟩ := List.mem_map.mp hc
    rfl

def ageSource (w : String) : String :=
  "namespace App; data Age = " ++ w ++ " deriving (V) where " ++ w ++
    ": | $value < 0 => 'negative';"

def namespaceApp : List Token :=
  [wordToken "namespace", blank, wordToken "App", symbolToken ';', blank]

def negative : Guard :=
  ⟨[blank, ⟨.var "value", "$value", 0⟩, blank, symbolToken '<', blank, ⟨.int 0, "0", 0⟩, blank],
    "negative"⟩

def ageClause (w : String) : List Token :=
  blank :: wordToken w :: symbolToken ':' :: blank :: (negative.tokens ++ [symbolToken ';'])

def ageTokens (w : String) : List Token := ageFront w ++ wordToken "where" :: ageClause w

def age (name scope : String) : Definition :=
  ⟨"App", "Age", ⟨name, []⟩, .named "V", [⟨scope, "$value < 0", "negative"⟩], none⟩

def ageGroup (w : String) : Group := ⟨some ⟨false, [w]⟩, [negative]⟩

theorem clause_age (w : String) : Clause [ageGroup w] (ageClause w) := by
  have head : HeadSpelled ⟨false, [w]⟩ ([wordToken w] ++ [] ++ symbolToken ':' :: [blank]) :=
    .intro (by simp) rfl (by decide) rfl (by decide)
  have group : (ageGroup w).Spelled _ :=
    .headed head (by simp) (.cons (Guard.spelled_tokens (by decide)) .nil)
  exact .intro (show Gap [blank] by decide) group (.nil (show (symbolToken ';').kind = _ from rfl))

theorem namesConstructor_age (w : String) : NamesConstructor ⟨false, [w]⟩ (ageTokens w) :=
  .intro (show Gap [blank] by decide) (show (symbolToken '=').kind = _ from rfl)
    (show Gap [blank] by decide) (by simp) (show [wordToken w].map (·.kind) = _ from rfl)
    (show blank.kind ≠ _ by decide) (by decide)

theorem hasClause_age {w name : String}
    (h : completion "App" (.nameGap 0) ((ageFront w).tail ++ [symbolToken ';']) =
      some { age name "" with conditions := [] }) :
    HasClause "App" (ageTokens w) [ageGroup w] :=
  ⟨ageFront w, wordToken "where", ageClause w, symbolToken ';', _, rfl, rfl, clause_age w, rfl,
    .intro rfl (completion_eq_some_iff.mp h), rfl⟩

theorem declares_age {w name scope : String}
    (hl : lex (ageSource w) = .ok (namespaceApp ++ ageTokens w))
    (h : completion "App" (.nameGap 0) (ageTokens w).tail = some (age name scope)) :
    Declares (ageSource w) (ageTokens w) (age name scope) := by
  refine ⟨_, namespaceApp, [], { ns := "App" }, hl, ?_, rfl, rfl,
    .intro rfl (completion_eq_some_iff.mp h)⟩
  rw [List.append_nil]
  rfl

/-- Each group that has the name of the constructor at its head is attached to the constructor,
unless that is a scalar which the namespace would qualify. -/
theorem parse_attached {file source : String} {c : Collection} (h : parse file source = .ok c) :
    (∀ definition ∈ c.definitions, ∃ declaration, Declares source declaration definition) ∧
    ∀ declaration definition, Declares source declaration definition →
      definition ∈ c.definitions ∧
      (definition.conditions ≠ [] → ∃ groups, HasClause definition.ns declaration groups) ∧
      ∀ groups, HasClause definition.ns declaration groups →
        definition.conditions = groups.flatMap (·.conditions definition.ns) ∧
        ∀ r, NamesConstructor r declaration → r.absolute = true ∨ r.name ≠ anyConstructor →
          ∀ g ∈ groups, g.head = some r →
            ((∀ q ∈ g.conditions definition.ns, q.scope = definition.constructor.name) ↔
              definition.ns = "" ∨ r.absolute = true ∨ isScalarConstructor r.name = false) := by
  refine clauses_of_parse h fun declaration definition groups hd hc => ?_
  intro r hname hr g hg hhead
  have guarded : g.guards ≠ [] := by
    obtain ⟨_, _, _, _, _, -, -, hclause, -⟩ := hc
    exact hclause.guards_ne_nil g hg
  rw [Group.scope_iff guarded, hd.declaredAs.constructor_name hname, ← Reference.resolve_eq_iff hr,
    Group.scope, hhead]

theorem parse_attached_age :
    parse "" (ageSource "Age") = .ok ⟨"", [age "App\\Age" "App\\Age"]⟩ ∧
      Declares (ageSource "Age") (ageTokens "Age") (age "App\\Age" "App\\Age") ∧
      HasClause "App" (ageTokens "Age") [ageGroup "Age"] ∧
      NamesConstructor ⟨false, ["Age"]⟩ (ageTokens "Age") ∧
      ∀ q ∈ (ageGroup "Age").conditions "App", q.scope = "App\\Age" := by
  have lexed : lex (ageSource "Age") = .ok (namespaceApp ++ ageTokens "Age") := by decide +kernel
  have accepted : parse "" (ageSource "Age") = .ok ⟨"", [age "App\\Age" "App\\Age"]⟩ :=
    (parse_of_lexes (lexFrom_eq_ok_iff.mp lexed) "").trans (by decide +kernel)
  have declared : Declares (ageSource "Age") (ageTokens "Age") (age "App\\Age" "App\\Age") :=
    declares_age lexed (by decide +kernel)
  have clause : HasClause "App" (ageTokens "Age") [ageGroup "Age"] :=
    hasClause_age (by decide +kernel : _ = some { age "App\\Age" "" with conditions := [] })
  obtain ⟨-, -, conditions⟩ := (parse_attached accepted).2 _ _ declared
  exact ⟨accepted, declared, clause, namesConstructor_age "Age",
    (((conditions _ clause).2 _ (namesConstructor_age "Age") (.inr (by decide)) _
      (List.mem_singleton.mpr rfl) rfl).mpr (.inr (.inr (by decide +kernel))))⟩

/-- The guard names a scalar, and is about a constructor that does not exist. -/
theorem detached_int :
    ∃ declaration definition groups, ∃ r : Reference, ∃ g ∈ groups,
      parse "" (ageSource "Int") = .ok ⟨"", [definition]⟩ ∧
      Declares (ageSource "Int") declaration definition ∧
      HasClause definition.ns declaration groups ∧ NamesConstructor r declaration ∧
      r.name ≠ anyConstructor ∧ g.head = some r ∧
      ∃ q ∈ g.conditions definition.ns, q.scope ≠ definition.constructor.name := by
  have lexed : lex (ageSource "Int") = .ok (namespaceApp ++ ageTokens "Int") := by decide +kernel
  have accepted : parse "" (ageSource "Int") = .ok ⟨"", [age "Int" "App\\Int"]⟩ :=
    (parse_of_lexes (lexFrom_eq_ok_iff.mp lexed) "").trans (by decide +kernel)
  refine ⟨ageTokens "Int", age "Int" "App\\Int", [ageGroup "Int"], ⟨false, ["Int"]⟩, ageGroup "Int",
    by simp, accepted, declares_age lexed (by decide +kernel),
    hasClause_age (by decide +kernel : _ = some { age "Int" "" with conditions := [] }),
    namesConstructor_age "Int", by decide, rfl, ?_⟩
  decide +kernel

end Datatypes.Declaration
