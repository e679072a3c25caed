import Datatypes.Proofs.Declaration.Conditions
import Datatypes.Proofs.Token.Gluing

/-!
The text of a condition. It is put together from the tokens of its guard, and is read again as these
tokens unless one of them clings to what stands behind it. Tokens that stand side by side do not do
so; comments inside a guard leave nothing behind, and can so bring together what they kept apart.
-/

namespace Datatypes.Declaration

open Token

variable {ts : List Token}

theorem Guard.Spelled.subset {q : Guard} (h : q.Spelled ts) : q.span ⊆ ts := by
  cases h with
  | intro => simp

theorem exists_part_of_forall₂ {qs : List Guard} {parts : List (List Token)}
    (h : List.Forall₂ Guard.Spelled qs parts) :
    ∀ q ∈ qs, ∃ part, part <:+: parts.flatten ∧ q.Spelled part := by
  induction h with
  | nil => simp
  | @cons _ part _ parts hq _ ih =>
    rw [List.flatten_cons]
    refine List.forall_mem_cons.mpr ⟨⟨part, List.infix_append [] part _, hq⟩, fun q hq => ?_⟩
    obtain ⟨later, inside, spelled⟩ := ih q hq
    exact ⟨later, inside.trans (List.suffix_append _ _).isInfix, spelled⟩

theorem Group.Spelled.exists_part {g : Group} (h : g.Spelled ts) :
    ∀ q ∈ g.guards, ∃ part, part <:+: ts ∧ q.Spelled part := by
  cases h with
  | bare _ hqs => exact exists_part_of_forall₂ hqs
  | headed _ _ hqs =>
    intro q hq
    obtain ⟨part, inside, spelled⟩ := exists_part_of_forall₂ hqs q hq
    exact ⟨part, inside.trans (List.suffix_append _ _).isInfix, spelled⟩

theorem GroupsSpelled.exists_part {gs : List Group} (h : GroupsSpelled gs ts) :
    ∀ g ∈ gs, ∀ q ∈ g.guards, ∃ part, part <:+: ts ∧ q.Spelled part := by
  induction h with
  | nil => simp
  | cons _ hg _ ih =>
    refine List.forall_mem_cons.mpr ⟨fun q hq => ?_, fun g hg q hq => ?_⟩
    · obtain ⟨part, inside, spelled⟩ := hg.exists_part q hq
      exact ⟨part, inside.trans (List.prefix_append _ _).isInfix, spelled⟩
    · obtain ⟨part, inside, spelled⟩ := ih g hg q hq
      exact ⟨part, inside.trans (List.suffix_append _ _).isInfix, spelled⟩

theorem Clause.exists_part {groups : List Group} (h : Clause groups ts) :
    ∀ g ∈ groups, ∀ q ∈ g.guards, ∃ part, part <:+: ts ∧ q.Spelled part := by
  cases h with
  | @intro g gs gap first rest _ hg hgs =>
    refine List.forall_mem_cons.mpr ⟨fun q hq => ?_, fun g hg q hq => ?_⟩
    · obtain ⟨part, inside, spelled⟩ := hg.exists_part q hq
      exact ⟨part, inside.trans (List.infix_append gap first rest), spelled⟩
    · obtain ⟨part, inside, spelled⟩ := hgs.exists_part g hg q hq
      exact ⟨part, inside.trans (List.suffix_append _ _).isInfix, spelled⟩

theorem HasClause.exists_part {ns : String} {groups : List Group} (h : HasClause ns ts groups) :
    ∀ g ∈ groups, ∀ q ∈ g.guards, ∃ part, part <:+: ts ∧ q.Spelled part := by
  obtain ⟨front, keyword, clause, -, -, rfl, -, hc, -⟩ := h
  intro g hg q hq
  obtain ⟨part, inside, spelled⟩ := hc.exists_part g hg q hq
  have behind : clause <:+: front ++ keyword :: clause :=
    (List.suffix_cons keyword clause).isInfix.trans (List.suffix_append _ _).isInfix
  exact ⟨part, inside.trans behind, spelled⟩

theorem HasClause.subset {ns : String} {groups : List Group} (h : HasClause ns ts groups) :
    ∀ g ∈ groups, ∀ q ∈ g.guards, q.span ⊆ ts := by
  intro g hg q hq
  obtain ⟨part, inside, spelled⟩ := h.exists_part g hg q hq
  exact List.Subset.trans spelled.subset inside.subset

theorem Declares.isWhole {source : String} {declaration : List Token} {definition : Definition}
    (h : Declares source declaration definition) : ∀ t ∈ declaration, t.IsWhole := by
  obtain ⟨ts, before, after, -, hl, hts, -⟩ := h
  intro t ht
  have kept : t ∈ significant ts := by simp [hts, ht]
  obtain ⟨mem, hk⟩ := List.mem_filter.mp kept
  exact (lexFrom_eq_ok_iff.mp hl).isWhole t mem (by simpa [isComment] using hk)

theorem not_clings_of_lex {source : String} {before span after : List Token}
    (h : lex source = .ok (before ++ span ++ after)) : ¬ Clings span := by
  obtain ⟨_, _, -, front, -⟩ := (lexFrom_eq_ok_iff.mp h).split
  obtain ⟨_, _, -, -, own⟩ := front.split
  exact own.not_clings

def boundSource (guard : String) : String :=
  "data Age = Age deriving (V) where |" ++ guard ++ "=> 'large';"

def boundTokens (span : List Token) : List Token :=
  ageFront "Age" ++ wordToken "where" :: blank ::
    ((Guard.mk span "large").tokens ++ [symbolToken ';'])

def bound (expression : String) : Definition :=
  ⟨"", "Age", ⟨"Age", []⟩, .named "V", [⟨anyConstructor, expression, "large"⟩], none⟩

section Bound

variable {guard expression : String} {ts span : List Token}
  (hl : lex (boundSource guard) = .ok ts) (hts : significant ts = boundTokens span)
  (h : completion "" (.nameGap 0) (boundTokens span).tail = some (bound expression))

include hl hts h

theorem parse_bound : parse "" (boundSource guard) = .ok ⟨"", [bound expression]⟩ := by
  have steps : Machine.steps {} (boundTokens span) = .ok { definitions := [bound expression] } :=
    Machine.steps_declaration rfl rfl (completion_eq_some_iff.mp h)
  rw [parse_of_lexes (lexFrom_eq_ok_iff.mp hl), parseStream_eq, hts, steps]
  rfl

theorem declares_bound : Declares (boundSource guard) (boundTokens span) (bound expression) :=
  ⟨ts, [], [], {}, hl, by simpa using hts, rfl, rfl, .intro rfl (completion_eq_some_iff.mp h)⟩

end Bound

theorem hasClause_bound {span : List Token} (h : RunsToArrow 0 span) :
    HasClause "" (boundTokens span) [⟨none, [⟨span, "large"⟩]⟩] := by
  have clause : Clause [⟨none, [⟨span, "large"⟩]⟩]
      ([blank] ++ [(Guard.mk span "large").tokens].flatten ++ [symbolToken ';']) :=
    .intro (by decide) (.bare (by simp) (.cons (Guard.spelled_tokens h) .nil)) (.nil rfl)
  have bare : Completes "" (.nameGap 0) ((ageFront "Age").tail ++ [symbolToken ';'])
      { bound "" with conditions := [] } := completion_eq_some_iff.mp (by decide +kernel)
  exact ⟨ageFront "Age", wordToken "where", _, symbolToken ';', _, by simp [boundTokens], rfl,
    clause, rfl, .intro rfl bare, rfl⟩

def variableToken (v : String) : Token := ⟨.var v, "$" ++ v, 0⟩

def comparison : List Token :=
  [blank, symbolToken '[', variableToken "a", blank, ⟨.arrow, "=>", 0⟩, blank, ⟨.int 1, "1", 0⟩,
    symbolToken ']', blank, blank, symbolToken '<', blank, variableToken "b", blank]

/-- The text of each condition is read as the tokens of its guard, up to white space, exactly if
none of them clings to what stands behind it when the comments are gone. -/
theorem parse_captured {file source : String} {c : Collection} (h : parse file source = .ok c) :
    (∀ definition ∈ c.definitions, ∃ declaration, Declares source declaration definition) ∧
    ∀ declaration definition, Declares source declaration definition →
      definition ∈ c.definitions ∧
      (definition.conditions ≠ [] → ∃ groups, HasClause definition.ns declaration groups) ∧
      ∀ groups, HasClause definition.ns declaration groups →
        definition.conditions = groups.flatMap (·.conditions definition.ns) ∧
        ∀ g ∈ groups, ∀ q ∈ g.guards,
          ((∃ ts, lex (q.condition (g.scope definition.ns)).expression = .ok ts ∧
            ts.map (·.kind) = squeeze (q.span.map (·.kind))) ↔ ¬ Clings q.span) ∧
          ∀ before after, lex source = .ok (before ++ q.span ++ after) → ¬ Clings q.span := by
  refine clauses_of_parse h fun declaration definition groups hd hc => ?_
  intro g hg q hq
  have whole : ∀ t ∈ q.span, t.IsWhole := fun t ht => hd.isWhole t (hc.subset g hg q hq ht)
  exact ⟨lex_trim_iff whole, fun before after => not_clings_of_lex⟩

theorem parse_captured_comparison :
    parse "" (boundSource " [$a => 1] /* or */ < $b ") = .ok ⟨"", [bound "[$a => 1]  < $b"]⟩ ∧
      ¬ Clings comparison ∧
      ∃ ts, lex "[$a => 1]  < $b" = .ok ts ∧
        ts.map (·.kind) = squeeze (comparison.map (·.kind)) := by
  have apart : ¬ Clings comparison := by decide +kernel
  obtain ⟨ts, hl, hts⟩ : ∃ ts, lex (boundSource " [$a => 1] /* or */ < $b ") = .ok ts ∧
      significant ts = boundTokens comparison :=
    ⟨(lex (boundSource " [$a => 1] /* or */ < $b ")).toOption.getD [], by decide +kernel⟩
  have completed : completion "" (.nameGap 0) (boundTokens comparison).tail =
      some (bound "[$a => 1]  < $b") := by decide +kernel
  have accepted := parse_bound hl hts completed
  obtain ⟨-, -, captured⟩ := (parse_captured accepted).2 _ _ (declares_bound hl hts completed)
  have read := ((captured _ (hasClause_bound (by decide))).2 _ (List.mem_singleton.mpr rfl) _
    (List.mem_singleton.mpr rfl)).1.mpr apart
  have text : guardText comparison = "[$a => 1]  < $b" := by decide +kernel
  exact ⟨accepted, apart, text ▸ read⟩

/-- Without the comment between them the variable and the word are one variable. -/
theorem glued_conjunction :
    ∃ declaration definition, ∃ groups : List Group, ∃ g ∈ groups, ∃ q ∈ g.guards,
      parse "" (boundSource " $a/**/and $b ") = .ok ⟨"", [definition]⟩ ∧
      Declares (boundSource " $a/**/and $b ") declaration definition ∧
      HasClause definition.ns declaration groups ∧
      ¬ ∃ ts, lex (q.condition (g.scope definition.ns)).expression = .ok ts ∧
        ts.map (·.kind) = squeeze (q.span.map (·.kind)) := by
  let span := [blank, variableToken "a", wordToken "and", blank, variableToken "b", blank]
  obtain ⟨ts, hl, hts⟩ : ∃ ts, lex (boundSource " $a/**/and $b ") = .ok ts ∧
      significant ts = boundTokens span :=
    ⟨(lex (boundSource " $a/**/and $b ")).toOption.getD [], by decide +kernel⟩
  have completed : completion "" (.nameGap 0) (boundTokens span).tail =
      some (bound "$aand $b") := by decide +kernel
  refine ⟨boundTokens span, bound "$aand $b", [⟨none, [⟨span, "large"⟩]⟩], _,
    List.mem_singleton.mpr rfl, _, List.mem_singleton.mpr rfl, parse_bound hl hts completed,
    declares_bound hl hts completed, hasClause_bound (by decide), ?_⟩
  rintro ⟨us, hus, kinds⟩
  have read : lex "$aand $b" = .ok [variableToken "aand", blank, variableToken "b"] := by
    decide +kernel
  have text : guardText span = "$aand $b" := by decide +kernel
  change lex (guardText span) = .ok us at hus
  rw [text, read] at hus
  cases hus
  exact absurd kinds (by decide +kernel)

end Datatypes.Declaration
