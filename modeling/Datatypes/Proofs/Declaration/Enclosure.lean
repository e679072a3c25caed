import Datatypes.Proofs.Declaration.Brackets
import Datatypes.Proofs.Declaration.Capture

/-!
Guards and their own arrows. A guard shall end at the first arrow that is not enclosed in brackets
which the guard opens. The reader counts brackets instead, and also those that close nothing: behind
such a bracket an arrow that is not enclosed need not end the guard, which then goes on over the
message and the guards that follow.
-/

namespace Datatypes.Declaration

open Token

variable {span own : List Token}

/-- The arrow behind these tokens is the first one that no bracket among them encloses. -/
structure ReachesOwnArrow (span : List Token) : Prop where
  free : ¬ Encloses span
  arrows : ∀ before t after, span = before ++ t :: after → t.kind = .arrow → Encloses before

def HoldsGuard (span : List Token) : Prop :=
  ∃ before arrow gap quote message after, span = before ++ arrow :: (gap ++ quote :: after) ∧
    arrow.kind = .arrow ∧ ¬ Encloses before ∧ Gap gap ∧ quote.kind = .quoted message

theorem ReachesOwnArrow.not_holdsGuard (h : ReachesOwnArrow span) : ¬ HoldsGuard span := by
  rintro ⟨before, arrow, gap, quote, message, after, hspan, harrow, free, -⟩
  exact free (h.arrows before arrow _ hspan harrow)

theorem RunsToArrow.reachesOwnArrow_iff (h : RunsToArrow 0 span) :
    ReachesOwnArrow span ↔ NeverBelow span := by
  have closed : balance span = 0 := by simpa using h.closed
  constructor
  · intro own part hp
    by_contra below
    exact own.free (encloses_iff.mpr ⟨part, hp, by omega⟩)
  · intro never
    refine ⟨fun enclosed => ?_, fun before t after hspan ht => ?_⟩
    · obtain ⟨part, hp, hlt⟩ := encloses_iff.mp enclosed
      have := never part hp
      omega
    · have inside : balance before ≠ 0 := by simpa using h.arrows before t after hspan ht
      have kept : 0 ≤ balance before := never before (hspan ▸ List.prefix_append _ _)
      have start : balance [] = 0 := rfl
      exact encloses_iff.mpr ⟨[], List.nil_prefix, by omega⟩

theorem ReachesOwnArrow.runsToArrow (h : ReachesOwnArrow own) (never : NeverBelow own) :
    RunsToArrow 0 own := by
  have start : balance [] = 0 := rfl
  constructor
  · have kept := never own List.prefix_rfl
    have : ¬ balance [] < balance own := fun lt =>
      h.free (encloses_iff.mpr ⟨[], List.nil_prefix, lt⟩)
    omega
  · intro before t after hown ht
    obtain ⟨part, hp, hlt⟩ := encloses_iff.mp (h.arrows before t after hown ht)
    have := never part (hp.trans (hown ▸ List.prefix_append _ _))
    omega

theorem RunsToArrow.unique (h : RunsToArrow 0 span) (h' : RunsToArrow 0 own) {arrow arrow' : Token}
    {rest rest' : List Token} (ha : arrow.kind = .arrow) (ha' : arrow'.kind = .arrow)
    (same : span ++ arrow :: rest = own ++ arrow' :: rest') : span = own := by
  have longer : ∀ {ts us : List Token} {t : Token} {vs ws : List Token}, RunsToArrow 0 ts →
      RunsToArrow 0 (ts ++ us) → t.kind = .arrow → t :: vs = us ++ ws → us = [] := by
    intro ts us t vs ws hts hus ht heq
    cases us with
    | nil => rfl
    | cons u us =>
      obtain ⟨rfl, -⟩ := List.cons.inj heq
      exact absurd hts.closed (hus.arrows ts t us rfl ht)
  rcases List.append_eq_append_iff.mp same with ⟨us, rfl, heq⟩ | ⟨us, rfl, heq⟩
  · simp [longer h h' ha heq]
  · simp [longer h' h ha' heq]

theorem Guard.Spelled.runsToArrow {q : Guard} {ts : List Token} (h : q.Spelled ts) :
    RunsToArrow 0 q.span ∧
      ∃ bar arrow rest, ts = bar :: (q.span ++ arrow :: rest) ∧ bar.kind = .symbol '|' ∧
        arrow.kind = .arrow := by
  cases h with
  | intro hbar hspan harrow => exact ⟨hspan, _, _, _, rfl, hbar, harrow⟩

/-- A guard ends at its own arrow, and holds no other guard, exactly if no bracket in front of that
arrow closes more than is open. -/
theorem parse_enclosed {file source : String} {c : Collection} (h : parse file source = .ok c) :
    (∀ definition ∈ c.definitions, ∃ declaration, Declares source declaration definition) ∧
    ∀ declaration definition, Declares source declaration definition →
      definition ∈ c.definitions ∧
      (definition.conditions ≠ [] → ∃ groups, HasClause definition.ns declaration groups) ∧
      ∀ groups, HasClause definition.ns declaration groups →
        definition.conditions = groups.flatMap (·.conditions definition.ns) ∧
        ∀ g ∈ groups, ∀ q ∈ g.guards,
          (ReachesOwnArrow q.span ↔ NeverBelow q.span) ∧
          (NeverBelow q.span → ¬ HoldsGuard q.span) ∧
          ∃ front bar arrow rest, declaration = front ++ bar :: (q.span ++ arrow :: rest) ∧
            bar.kind = .symbol '|' ∧ arrow.kind = .arrow ∧
            ∀ own arrow' rest', q.span ++ arrow :: rest = own ++ arrow' :: rest' →
              arrow'.kind = .arrow → ReachesOwnArrow own → (q.span = own ↔ NeverBelow own) := by
  refine clauses_of_parse h fun declaration definition groups hd hc => ?_
  intro g hg q hq
  obtain ⟨part, ⟨front, back, hpart⟩, spelled⟩ := hc.exists_part g hg q hq
  obtain ⟨runs, bar, arrow, rest, rfl, hbar, harrow⟩ := spelled.runsToArrow
  refine ⟨runs.reachesOwnArrow_iff, fun never => ?_, front, bar, arrow, rest ++ back, ?_, hbar,
    harrow, ?_⟩
  · exact (runs.reachesOwnArrow_iff.mpr never).not_holdsGuard
  · simp [← hpart]
  · intro own arrow' rest' same harrow' reaches
    constructor
    · rintro rfl
      exact runs.reachesOwnArrow_iff.mp reaches
    · intro never
      exact runs.unique (reaches.runsToArrow never) harrow harrow' same

def membership : List Token :=
  [blank, wordToken "in", symbolToken '(', variableToken "a", symbolToken ',', blank,
    symbolToken '[', variableToken "b", blank, ⟨.arrow, "=>", 0⟩, blank, symbolToken '(',
    ⟨.int 1, "1", 0⟩, symbolToken ')', symbolToken ']', symbolToken ')', blank]

theorem parse_enclosed_membership :
    parse "" (boundSource " in($a, [$b => (1)]) ") = .ok ⟨"", [bound "in($a, [$b => (1)])"]⟩ ∧
      NeverBelow membership ∧ ReachesOwnArrow membership ∧ ¬ HoldsGuard membership := by
  have never : NeverBelow membership := by decide +kernel
  obtain ⟨ts, hl, hts⟩ : ∃ ts, lex (boundSource " in($a, [$b => (1)]) ") = .ok ts ∧
      significant ts = boundTokens membership :=
    ⟨(lex (boundSource " in($a, [$b => (1)]) ")).toOption.getD [], by decide +kernel⟩
  have completed : completion "" (.nameGap 0) (boundTokens membership).tail =
      some (bound "in($a, [$b => (1)])") := by decide +kernel
  have accepted := parse_bound hl hts completed
  obtain ⟨-, -, guards⟩ := (parse_enclosed accepted).2 _ _ (declares_bound hl hts completed)
  obtain ⟨reaches, holds, -⟩ := (guards _ (hasClause_bound (by decide))).2 _
    (List.mem_singleton.mpr rfl) _ (List.mem_singleton.mpr rfl)
  exact ⟨accepted, never, reaches.mpr never, holds never⟩

/-- The bracket that closes nothing lets the guard go on over the message and the next bar. -/
theorem swallowed_guard :
    ∃ declaration definition, ∃ groups : List Group, ∃ g ∈ groups, ∃ q ∈ g.guards,
      parse "" (boundSource " $a) => 'small' | ($b ") = .ok ⟨"", [definition]⟩ ∧
      Declares (boundSource " $a) => 'small' | ($b ") declaration definition ∧
      HasClause definition.ns declaration groups ∧
      ¬ ReachesOwnArrow q.span ∧ ¬ NeverBelow q.span ∧ HoldsGuard q.span := by
  let front := [blank, variableToken "a", symbolToken ')', blank]
  let back := [blank, symbolToken '|', blank, symbolToken '(', variableToken "b", blank]
  let arrow : Token := ⟨.arrow, "=>", 0⟩
  let quote : Token := ⟨.quoted "small", "'small'", 0⟩
  let span := front ++ arrow :: ([blank] ++ quote :: back)
  obtain ⟨ts, hl, hts⟩ : ∃ ts, lex (boundSource " $a) => 'small' | ($b ") = .ok ts ∧
      significant ts = boundTokens span :=
    ⟨(lex (boundSource " $a) => 'small' | ($b ")).toOption.getD [], by decide +kernel⟩
  have completed : completion "" (.nameGap 0) (boundTokens span).tail =
      some (bound "$a) => 'small' | ($b") := by decide +kernel
  have holds : HoldsGuard span :=
    ⟨front, arrow, [blank], quote, "small", back, rfl, rfl, by decide +kernel, by decide, rfl⟩
  exact ⟨boundTokens span, _, [⟨none, [⟨span, "large"⟩]⟩], _, List.mem_singleton.mpr rfl, _,
    List.mem_singleton.mpr rfl, parse_bound hl hts completed, declares_bound hl hts completed,
    hasClause_bound (by decide), fun reaches => reaches.not_holdsGuard holds, by decide +kernel,
    holds⟩

end Datatypes.Declaration
