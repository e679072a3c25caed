import Datatypes.Proofs.Constant.Evaluation
import Datatypes.Proofs.Declaration.Brackets
import Datatypes.Proofs.Declaration.Clause

/-!
The values of an enumeration, from the opening bracket to the closing one. The reader cuts the value
of a case out of the tokens by counting brackets of both kinds, and the evaluator matches each kind
by itself; a constant expression closes what it opens, so both end it at the same token. A case that
is written again keeps its place and takes the later value.
-/

namespace Datatypes

open Token

namespace Constant

variable {t : Token} {ts : List Token}

theorem closed_operator {op : Operator} (ht : t.kind = .symbol op.symbol) : Closed [t] := by
  refine .singleton ?_
  cases op <;> simp [ht, Operator.symbol]

theorem Tree.closed {l : Level} (e : Tree l) (h : ts.map (·.kind) = e.spelling) : Closed ts := by
  induction e generalizing ts with
  | int | decimal | text =>
    obtain ⟨t, us, rfl, ht, hus⟩ := List.map_eq_cons_iff.mp h
    obtain rfl : us = [] := by simpa using hus
    exact .singleton (by simp [ht])
  | group bracket inner ih =>
    obtain ⟨opening, us, rfl, ho, hus⟩ := List.map_eq_cons_iff.mp h
    obtain ⟨vs, ws, rfl, hvs, hws⟩ := List.map_eq_append_iff.mp hus
    obtain ⟨closing, xs, rfl, hc, hxs⟩ := List.map_eq_cons_iff.mp hws
    obtain rfl : xs = [] := by simpa using hxs
    refine (ih hvs).brackets ?_ ?_
    · cases bracket <;> simp [opens, isSymbol, ho, Bracket.opening]
    · cases bracket <;> simp [hc, Bracket.closing]
  | signed sign inner ih =>
    obtain ⟨t, us, rfl, ht, hus⟩ := List.map_eq_cons_iff.mp h
    exact (closed_operator ht).append (ih hus)
  | factor inner ih | term inner ih => exact ih h
  | product left op right ihl ihr | sum left op right ihl ihr =>
    obtain ⟨us, vs, rfl, hus, hvs⟩ := List.map_eq_append_iff.mp h
    obtain ⟨t, ws, rfl, ht, hws⟩ := List.map_eq_cons_iff.mp hvs
    exact (ihl hus).append ((closed_operator ht).append (ihr hws))

theorem closed_of_evaluate {v : Constant} (h : evaluate ts = .ok v) : Closed ts := by
  obtain ⟨e, spelled, -⟩ := exists_tree_of_evaluate h
  exact e.closed spelled

end Constant

namespace Declaration

variable {t : Token} {ts us vs : List Token}

theorem exists_gap_of_visible (h : visible ts = t :: us) :
    ∃ gap rest, ts = gap ++ t :: rest ∧ Gap gap ∧ visible rest = us := by
  obtain ⟨gap, rest, rfl, blank, -, hrest⟩ := List.filter_eq_cons_iff.mp h
  exact ⟨gap, rest, rfl, fun u hu => by simpa [isWhitespace] using blank u hu, hrest⟩

theorem gap_of_visible (h : visible ts = []) : Gap ts := by
  intro u hu
  simpa [isWhitespace] using List.filter_eq_nil_iff.mp h u hu

section Reads

variable {ns : String} {d : Draft} {p : Place} {values : List (String × Constant)}
  {case : String} {line : Nat} {span : List Token}

theorem exists_rule_mappingValue {depth : Nat} (hw : t.isWhitespace = false)
    (h : depth = 0 → ∀ c ∈ [',', ')', ']'], t.kind ≠ .symbol c) :
    ∃ depth' : Nat, (depth' : Int) = depth + balance [t] ∧
      (Place.mappingValue values case line span depth).rule ns d t =
        .ok (.reading d (.mappingValue values case line (span ++ [t]) depth')) := by
  refine ⟨_, depth_mappingValueRule h, ?_⟩
  simp only [List.mem_cons, List.not_mem_nil, or_false, forall_eq_or_imp, forall_eq] at h
  have goesOn : ¬ (depth = 0 ∧ (t.isSymbol ',' = true ∨ t.isSymbol ')' = true)) := by
    simp only [isSymbol, decide_eq_true_eq]
    tauto
  have bracket : ¬ (depth = 0 ∧ t.isSymbol ']' = true) := by
    simp only [isSymbol, decide_eq_true_eq]
    tauto
  simp only [Place.rule, mappingValueRule, spaced, hw, Bool.false_eq_true, if_false, if_neg goesOn,
    if_neg bracket]

theorem Reads.value {depth depth' : Nat} (h : StaysInside depth (visible ts))
    (hd : (depth' : Int) = depth + balance (visible ts)) :
    Reads ns d (.mappingValue values case line span depth) ts d
      (.mappingValue values case line (span ++ visible ts) depth') := by
  induction ts generalizing span depth with
  | nil =>
    have same : (depth' : Int) = depth := by simpa [visible, balance] using hd
    obtain rfl : depth' = depth := by omega
    simpa [visible] using Reads.nil
  | cons t ts ih =>
    by_cases hw : t.isWhitespace = true
    · have hidden : visible (t :: ts) = visible ts := by simp [visible, hw]
      rw [hidden] at h hd ⊢
      exact .cons (if_pos hw) (ih h hd)
    -- A token that could end the value stands inside a bracket, so the count is cut off nowhere.
    · have seen : visible (t :: ts) = t :: visible ts := by simp [visible, hw]
      rw [seen] at h hd ⊢
      obtain ⟨first, rest⟩ := staysInside_cons.mp h
      have goesOn : depth = 0 → ∀ c ∈ [',', ')', ']'], t.kind ≠ .symbol c := by
        rintro rfl c hc ht
        exact absurd (first ⟨c, hc, ht⟩) (by simp)
      obtain ⟨depth₁, hdepth, hr⟩ := exists_rule_mappingValue (by simpa using hw) goesOn
      have left : (depth' : Int) = depth₁ + balance (visible ts) := by
        rw [hd, hdepth, balance_cons]
        omega
      rw [← hdepth] at rest
      have behind : Reads ns d (.mappingValue values case line (span ++ [t]) depth₁) ts d _ :=
        ih rest left
      rw [List.append_assoc] at behind
      exact .cons hr behind

theorem Reads.closed_value (h : Closed (visible ts)) :
    Reads ns d (.mappingValue values case line [] 0) ts d
      (.mappingValue values case line (visible ts) 0) :=
  Reads.value (h.inside _ (Int.le_refl 0)) (by rw [h.balanced]; rfl)

end Reads

structure Case where
  name : String
  span : List Token
  value : Constant
  evaluated : Constant.evaluate span = .ok value

inductive CasesSpelled : List Case → List Token → Prop
  | nil : CasesSpelled [] []
  | last {k : Case} {name colon : Token} :
      name.kind = .word k.name → colon.kind = .symbol ':' →
      CasesSpelled [k] (name :: colon :: k.span)
  | cons {k : Case} {ks : List Case} {name colon comma : Token} {ts : List Token} :
      name.kind = .word k.name → colon.kind = .symbol ':' → comma.kind = .symbol ',' →
      CasesSpelled ks ts → CasesSpelled (k :: ks) (name :: colon :: (k.span ++ comma :: ts))

def CasesListed (ks : List Case) (ts : List Token) : Prop :=
  ∃ opening inner closing, visible ts = opening :: (inner ++ [closing]) ∧
    opening.kind = .symbol '(' ∧ CasesSpelled ks inner ∧ closing.kind = .symbol ')'

def insertCases (values : List (String × Constant)) (ks : List Case) : List (String × Constant) :=
  ks.foldl (fun values k => insertCase values k.name k.value) values

section Reads

variable {ns : String} {d : Draft} {values : List (String × Constant)} {k : Case}

theorem Reads.case {name colon ending : Token} {d' : Draft} {p' : Place}
    (hn : name.kind = .word k.name) (hc : colon.kind = .symbol ':')
    (hts : visible ts = name :: colon :: (k.span ++ ending :: us))
    (hend : ∀ line, (Place.mappingValue values k.name line k.span 0).rule ns d ending =
      .ok (.reading d' p')) :
    ∃ front rest, ts = front ++ rest ∧ visible rest = us ∧
      Reads ns d (.mappingCase values) front d' p' := by
  obtain ⟨gap, rest, rfl, hgap, hrest⟩ := exists_gap_of_visible hts
  obtain ⟨gap', rest', rfl, hgap', hrest'⟩ := exists_gap_of_visible hrest
  obtain ⟨value, tail, rfl, hvalue, htail⟩ := List.filter_eq_append_iff.mp hrest'
  obtain ⟨gap'', rest, rfl, hgap'', hrest⟩ := exists_gap_of_visible htail
  have named : (Place.mappingCase values).rule ns d name =
      .ok (.reading d (.mappingColon values k.name name.line)) := by
    simp [Place.rule, mappingCaseRule, spaced, isWhitespace, hn]
  have opened : (Place.mappingColon values k.name name.line).rule ns d colon =
      .ok (.reading d (.mappingValue values k.name name.line [] 0)) := by
    simp [Place.rule, symbolRule, spaced, isWhitespace, isSymbol, hc]
  have closed : Closed (visible value) := by
    rw [visible, hvalue]
    exact Constant.closed_of_evaluate k.evaluated
  have valued : Reads ns d (.mappingValue values k.name name.line [] 0) value d
      (.mappingValue values k.name name.line k.span 0) := by
    simpa [visible, hvalue] using Reads.closed_value closed
  refine ⟨gap ++ name :: (gap' ++ colon :: (value ++ (gap'' ++ [ending]))), rest, by simp,
    hrest, ?_⟩
  exact (Reads.gap rfl hgap).append (.cons named ((Reads.gap rfl hgap').append
    (.cons opened (valued.append ((Reads.gap rfl hgap'').append (.cons (hend _) .nil))))))

theorem Reads.cases {ks : List Case} (h : CasesSpelled ks us) {closing : Token}
    (hc : closing.kind = .symbol ')') (hts : visible ts = us ++ [closing]) :
    Reads ns d (.mappingCase values) ts (d.setValues (insertCases values ks)) .mappingEnd := by
  induction h generalizing ts values with
  | nil =>
    obtain ⟨gap, rest, rfl, hgap, hrest⟩ := exists_gap_of_visible hts
    have closed : (Place.mappingCase values).rule ns d closing =
        .ok (.reading (d.setValues values) .mappingEnd) := by
      simp [Place.rule, mappingCaseRule, spaced, isWhitespace, hc]
    exact (Reads.gap rfl hgap).append (.cons closed (.gap rfl (gap_of_visible hrest)))
  | @last k name colon hn hcolon =>
    have ends : ∀ line, (Place.mappingValue values k.name line k.span 0).rule ns d closing =
        .ok (.reading (d.setValues (insertCase values k.name k.value)) .mappingEnd) := by
      simp [Place.rule, mappingValueRule, spaced, isWhitespace, isSymbol, hc, k.evaluated]
    obtain ⟨front, rest, rfl, hrest, reads⟩ := Reads.case hn hcolon hts ends
    exact reads.append (.gap rfl (gap_of_visible hrest))
  | @cons k ks name colon comma us hn hcolon hcomma _ ih =>
    have split : visible ts = name :: colon :: (k.span ++ comma :: (us ++ [closing])) := by
      rw [hts]
      simp
    have ends : ∀ line, (Place.mappingValue values k.name line k.span 0).rule ns d comma =
        .ok (.reading d (.mappingCase (insertCase values k.name k.value))) := by
      simp [Place.rule, mappingValueRule, spaced, isWhitespace, isSymbol, hcomma, k.evaluated]
    obtain ⟨front, rest, rfl, hrest, reads⟩ := Reads.case hn hcolon split ends
    exact reads.append (ih hrest)

theorem Reads.mapping {ks : List Case} (h : CasesListed ks ts) :
    Reads ns d .mappingOpen ts (d.setValues (insertCases [] ks)) .mappingEnd := by
  obtain ⟨opening, inner, closing, hts, ho, hinner, hc⟩ := h
  obtain ⟨gap, rest, rfl, hgap, hrest⟩ := exists_gap_of_visible hts
  have opened : Place.mappingOpen.rule ns d opening = .ok (.reading d (.mappingCase [])) := by
    simp [Place.rule, symbolRule, spaced, isWhitespace, isSymbol, ho]
  exact (Reads.gap rfl hgap).append (.cons opened (.cases hinner hc hrest))

end Reads

/-- One entry for each name, in the order in which the names come first, with the value that was
written last for it. -/
structure Tabulates (ks : List Case) (values : List (String × Constant)) : Prop where
  names : values.map Prod.fst = (ks.map (·.name)).eraseDups
  lookup : ∀ name, values.lookup name = (ks.reverse.find? (·.name = name)).map (·.value)

theorem names_insertCase (values : List (String × Constant)) (case : String) (value : Constant) :
    (insertCase values case value).map Prod.fst =
      values.map Prod.fst ++ if case ∈ values.map Prod.fst then [] else [case] := by
  induction values with
  | nil => simp [insertCase]
  | cons entry values ih =>
    obtain ⟨key, old⟩ := entry
    rw [insertCase]
    by_cases h : key = case
    · simp [h]
    · have other : case ≠ key := Ne.symm h
      simp only [if_neg h, List.map_cons, ih, List.cons_append, List.mem_cons, other, false_or]

theorem lookup_insertCase (values : List (String × Constant)) (case : String) (value : Constant)
    (name : String) : (insertCase values case value).lookup name =
      if case = name then some value else values.lookup name := by
  induction values with
  | nil =>
    by_cases h : case = name
    · simp [insertCase, h]
    · have other : (name == case) = false := beq_eq_false_iff_ne.mpr fun same => h same.symm
      simp [insertCase, List.lookup_cons, other, h]
  | cons entry values ih =>
    obtain ⟨key, old⟩ := entry
    rw [insertCase]
    by_cases hn : key = name
    · subst hn
      by_cases h : key = case
      · simp [h]
      · have differs : case ≠ key := Ne.symm h
        simp [h, differs]
    · have other : (name == key) = false := beq_eq_false_iff_ne.mpr fun same => hn same.symm
      by_cases h : key = case
      · simp [h ▸ hn, h, List.lookup_cons, h ▸ other]
      · simp [h, List.lookup_cons, other, ih]

theorem tabulates_insertCases (ks : List Case) : Tabulates ks (insertCases [] ks) := by
  induction ks using List.reverseRecOn with
  | nil => exact ⟨by simp [insertCases], by simp [insertCases]⟩
  | append_singleton ks k ih =>
    have last : insertCases [] (ks ++ [k]) = insertCase (insertCases [] ks) k.name k.value := by
      simp [insertCases]
    rw [last]
    constructor
    · rw [names_insertCase, ih.names, List.map_append, List.eraseDups_append, List.map_cons,
        List.map_nil, List.removeAll]
      simp only [List.mem_eraseDups]
      by_cases h : k.name ∈ ks.map (·.name)
      · rw [if_pos h, List.filter_cons_of_neg (by simpa using h)]
        rfl
      · rw [if_neg h, List.filter_cons_of_pos (by simpa using h)]
        rfl
    · intro name
      rw [lookup_insertCase, ih.lookup, List.reverse_append]
      by_cases h : k.name = name <;> simp [h]

def Place.Counted : Place → Prop
  | .mappingValue _ _ _ span depth => NeverBelow span ∧ balance span = depth
  | _ => True

section Count

variable {ns : String} {d d' : Draft} {p p' : Place} {o : Except Failure Progress}

theorem Outcome.counted (h : Outcome ns t d p o) (hp : p.Counted)
    (ho : o = .ok (.reading d' p')) : p'.Counted := by
  induction h with
  | space => cases ho; exact hp
  | mappingColon =>
    cases ho
    exact ⟨fun part hpart => by simp [List.prefix_nil.mp hpart, balance], rfl⟩
  | @mappingToken _ _ _ _ span _ _ _ _ hdepth =>
    cases ho
    obtain ⟨never, counted⟩ := hp
    have next := balance_append span [t]
    rw [counted, ← hdepth] at next
    exact ⟨never.concat (by rw [next]; omega), next⟩
  | constructorNamed _ ih | noArguments _ ih | derivingBare _ ih | scopeNamed _ ih =>
    exact ih trivial ho
  | _ => cases ho <;> trivial

theorem Outcome.depth_eq {values values' : List (String × Constant)} {case case' : String}
    {line line' : Nat} {span span' : List Token} {depth depth' : Nat}
    (h : Outcome ns t d (.mappingValue values case line span depth) o)
    (ho : o = .ok (.reading d' (.mappingValue values' case' line' span' depth'))) :
    (depth' : Int) = depth + balance [t] := by
  cases h with
  | space _ hw =>
    cases ho
    simp [balance, isSymbol, hw]
  | mappingToken _ _ hdepth => cases ho; exact hdepth
  | _ => cases ho

namespace Machine

variable {m m' : Machine}

theorem counted_of_steps (h : Machine.steps {} ts = .ok m) (hs : m.state = .body d p) :
    p.Counted := by
  have start : ∀ d p, State.topLevel = .body d p → p.Counted := by rintro _ _ ⟨⟩
  refine steps_invariant (I := fun m => ∀ d p, m.state = .body d p → p.Counted)
    (P := fun _ => True) ?_ start (fun _ _ => trivial) h d p hs
  intro m m' t hm _ hstep d' p' hs'
  cases outcome_of_step hstep with
  | name => cases hs'; trivial
  | reading hs move =>
    cases hs'
    exact move.counted (hm _ _ hs) rfl
  | space top => exact absurd hs' (by simp [top])
  | _ => cases hs'

theorem depth_of_step {values values' : List (String × Constant)} {case case' : String}
    {line line' : Nat} {span span' : List Token} {depth depth' : Nat} (h : m.step t = .ok m')
    (hs : m.state = .body d (.mappingValue values case line span depth))
    (hs' : m'.state = .body d' (.mappingValue values' case' line' span' depth')) :
    (depth' : Int) = depth + balance [t] := by
  cases outcome_of_step h with
  | reading hs₀ move =>
    cases hs.symm.trans hs₀
    cases hs'
    exact move.depth_eq rfl
  | space top => cases hs.symm.trans top
  | name => cases hs'
  | _ => cases hs'

end Machine

end Count

end Declaration

end Datatypes
