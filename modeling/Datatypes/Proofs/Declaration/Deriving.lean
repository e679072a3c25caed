import Datatypes.Proofs.Constant.Evaluation
import Datatypes.Proofs.Declaration.Acceptance

/-!
Derivings: their names and message names, and the values of an enumeration. The tokens of a value
are collected up to the comma or bracket after it, and what was printed for it is evaluated to
the value itself.
-/

namespace Datatypes.Declaration

open Text Token

namespace Machine

attribute [local simp] Place.Moves Place.rule symbolRule wordRule spaced isWhitespace isSymbol
  Reference.push

variable {m : Machine} {ds : List Definition} {rest : List Char} {d : Draft}

section Values

variable {values : List (String × Constant)} {case : String} {line : Nat} {span : List Token}

theorem Accepts.valueToken {kind : TokenKind} {text : List Char} (hl : Lexeme kind text rest)
    (hw : kind ≠ .whitespace) (hc : kind ≠ .comment)
    (hk : ∀ c ∈ [',', '(', ')', '[', ']'], kind ≠ .symbol c)
    (h : ∀ t : Token, t.kind = kind →
      (m.reading d (.mappingValue values case line (span ++ [t]) 0)).Accepts rest ds) :
    (m.reading d (.mappingValue values case line span 0)).Accepts (text ++ rest) ds := by
  refine .token hl hc fun t ht _ => ⟨_, step_reading ?_, h t ht⟩
  simp only [List.mem_cons, List.not_mem_nil, or_false, forall_eq_or_imp, forall_eq] at hk
  simp [mappingValueRule, ht, hw, hk]

theorem Accepts.integer {n : Nat} (hn : (n : Int) ≤ maxInt) (hr : Halts Char.isDigit rest)
    (hf : startsFraction rest = false)
    (h : ∀ t : Token, t.kind = .int n →
      (m.reading d (.mappingValue values case line (span ++ [t]) 0)).Accepts rest ds) :
    (m.reading d (.mappingValue values case line span 0)).Accepts (n.repr.toList ++ rest) ds :=
  .valueToken (lexeme_repr hn hr hf) (by simp) (by simp) (by simp) h

theorem Accepts.minus
    (h : ∀ t : Token, t.kind = .symbol '-' →
      (m.reading d (.mappingValue values case line (span ++ [t]) 0)).Accepts rest ds) :
    (m.reading d (.mappingValue values case line span 0)).Accepts ('-' :: rest) ds :=
  .valueToken (lexeme_symbol (by decide) rest) (by simp) (by simp) (by simp) h

theorem evaluate_of_spelling {v : Constant} {e : Constant.Tree .sum}
    (hs : span.map (·.kind) = e.spelling) (hd : e.depth < Constant.maxDepth)
    (hv : e.value = .ok v) : Constant.evaluate span = .ok v := by
  rw [Constant.evaluate_eq_valueWithin hs, Constant.Tree.valueWithin_eq_value e hd, hv]

theorem value_negative {k : Int} (hk : Constant.InRange (-k)) :
    (Constant.Tree.term (.factor (.signed .minus (.int k)))).value = .ok (.int (-k)) := by
  simp only [Constant.Tree.value, Except.bind]
  rw [Constant.applySign, if_pos hk]

theorem Accepts.leastInteger (hr : Halts Char.isDigit rest) (hf : startsFraction rest = false)
    (h : ∀ span, Constant.evaluate span = .ok (.int (-9223372036854775808)) →
      (m.reading d (.mappingValue values case line span 0)).Accepts rest ds) :
    (m.reading d (.mappingValue values case line [] 0)).Accepts
      ("-9223372036854775807 - 1".toList ++ rest) ds := by
  have split : "-9223372036854775807 - 1" =
      "-" ++ (9223372036854775807).repr ++ " - " ++ (1).repr := by decide
  have text : "-9223372036854775807 - 1".toList ++ rest =
      '-' :: ((9223372036854775807).repr.toList ++
        ' ' :: '-' :: ' ' :: ((1).repr.toList ++ rest)) := by
    rw [split]
    simp only [String.toList_append, List.append_assoc]
    rfl
  rw [text]
  refine .minus fun t ht => .integer (by decide) (halts_cons.mpr (by decide)) rfl fun u hu => ?_
  refine .skip rfl (.minus fun v hv => .skip rfl (.integer (by decide) hr hf fun w hw => h _ ?_))
  let e : Constant.Tree .sum :=
    .sum (.term (.factor (.signed .minus (.int 9223372036854775807)))) .minus (.factor (.int 1))
  have spelled : [t, u, v, w].map (·.kind) = e.spelling := by
    simp [e, ht, hu, hv, hw, Constant.Tree.spelling, Constant.Sign.operator, Operator.symbol]
  exact evaluate_of_spelling spelled (by decide) (by decide)

theorem Accepts.signedInteger {n : Int} (hn : Constant.InRange n) (hmin : n ≠ -9223372036854775808)
    (hr : Halts Char.isDigit rest) (hf : startsFraction rest = false)
    (h : ∀ span, Constant.evaluate span = .ok (.int n) →
      (m.reading d (.mappingValue values case line span 0)).Accepts rest ds) :
    (m.reading d (.mappingValue values case line [] 0)).Accepts
      ((toString n).toList ++ rest) ds := by
  cases n with
  | ofNat n =>
    refine .integer hn.2 hr hf fun t ht => h _ ?_
    have spelled : [t].map (·.kind) = (Constant.Tree.term (.factor (.int n))).spelling := by
      simp [ht, Constant.Tree.spelling]
    exact evaluate_of_spelling spelled (Nat.zero_lt_succ _) rfl
  | negSucc n =>
    have text : (toString (Int.negSucc n)).toList ++ rest =
        '-' :: ((n + 1).repr.toList ++ rest) := by
      have spelled : toString (Int.negSucc n) = "-" ++ (n + 1).repr := rfl
      rw [spelled, String.toList_append]
      rfl
    have bound : ((n + 1 : Nat) : Int) ≤ maxInt := by
      have := hn.1
      rw [maxInt]
      omega
    rw [text]
    refine .minus fun t ht => .integer bound hr hf fun u hu => h _ ?_
    have spelled : [t, u].map (·.kind) =
        (Constant.Tree.term (.factor (.signed .minus (.int (n + 1 : Nat))))).spelling := by
      simp [ht, hu, Constant.Tree.spelling, Constant.Sign.operator, Operator.symbol]
    rw [← Int.neg_ofNat_succ] at hn ⊢
    exact evaluate_of_spelling spelled (Nat.succ_lt_succ (Nat.zero_lt_succ _)) (value_negative hn)

theorem Accepts.constant {v : Constant} (hv : v.Printable) {c : Char} (hc : c = ',' ∨ c = ')')
    (h : ∀ span, Constant.evaluate span = .ok v →
      (m.reading d (.mappingValue values case line span 0)).Accepts (c :: rest) ds) :
    (m.reading d (.mappingValue values case line [] 0)).Accepts
      ((printConstant v).toList ++ c :: rest) ds := by
  have halts : Halts Char.isDigit (c :: rest) := by
    rcases hc with rfl | rfl <;> exact halts_cons.mpr (by decide)
  have whole : startsFraction (c :: rest) = false := by
    rcases hc with rfl | rfl <;> rfl
  cases v with
  | float x => exact absurd hv id
  | text content =>
    have text : (printConstant (.text content)).toList ++ c :: rest =
        '"' :: (content.toList ++ ['"']) ++ c :: rest := by simp [printConstant, quote]
    rw [text]
    refine .valueToken (lexeme_quoted hv _) (by simp) (by simp) (by simp) fun t ht => h _ ?_
    have spelled : [t].map (·.kind) = (Constant.Tree.term (.factor (.text content))).spelling := by
      simp [ht, Constant.Tree.spelling]
    exact evaluate_of_spelling spelled (Nat.zero_lt_succ _) rfl
  | int n =>
    rw [printConstant]
    split
    · next hmin =>
      subst hmin
      exact .leastInteger halts whole h
    · next hmin => exact .signedInteger hv hmin halts whole h

theorem insertCase_of_not_mem {v : Constant} (h : case ∉ values.map Prod.fst) :
    insertCase values case v = values ++ [(case, v)] := by
  induction values with
  | nil => rfl
  | cons value values ih =>
    rw [List.map_cons, List.mem_cons, not_or] at h
    rw [insertCase, if_neg (Ne.symm h.1), ih h.2, List.cons_append]

theorem Accepts.enumCase {v : String × Constant} (hw : isWord v.1 = true) (hv : v.2.Printable)
    {c : Char} (hc : c = ',' ∨ c = ')')
    (h : ∀ line span, Constant.evaluate span = .ok v.2 →
      (m.reading d (.mappingValue values v.1 line span 0)).Accepts (c :: rest) ds) :
    (m.reading d (.mappingCase values)).Accepts ((printCase v).toList ++ c :: rest) ds := by
  have text : (printCase v).toList ++ c :: rest =
      v.1.toList ++ ':' :: ' ' :: ((printConstant v.2).toList ++ c :: rest) := by
    simp [printCase]
  have colon (line : Nat) : (Place.mappingColon values v.1 line).Moves m.ns d (.symbol ':') d
      (.mappingValue values v.1 line [] 0) := by
    simp +contextual
  rw [text]
  refine .token (lexeme_word hw (halts_cons.mpr (by decide))) (by simp) fun t ht _ =>
    ⟨m.reading d (.mappingColon values v.1 t.line), step_reading ?_, ?_⟩
  · simp [mappingCaseRule, ht]
  · exact .symbol (by decide) (colon t.line) (.skip rfl (.constant hv hc (h t.line)))

theorem Accepts.enumCases {cases : List (String × Constant)}
    (hall : ∀ v ∈ cases, isWord v.1 = true ∧ v.2.Printable)
    (hnodup : ((values ++ cases).map Prod.fst).Nodup)
    (h : (m.reading (d.setValues (values ++ cases)) .mappingEnd).Accepts rest ds) :
    (m.reading d (.mappingCase values)).Accepts
      ((", ".intercalate (cases.map printCase)).toList ++ ')' :: rest) ds := by
  induction cases generalizing values with
  | nil =>
    have closing : (Place.mappingCase values).Moves m.ns d (.symbol ')')
        (d.setValues (values ++ [])) .mappingEnd := by
      simp +contextual [mappingCaseRule]
    exact .symbol (by decide) closing h
  | cons v cases ih =>
    obtain ⟨hw, hv⟩ := hall v (by simp)
    have fresh : v.1 ∉ values.map Prod.fst := by
      rw [List.map_append] at hnodup
      exact fun hmem => (List.nodup_append.mp hnodup).2.2 _ hmem _ List.mem_cons_self rfl
    cases cases with
    | nil =>
      have text : (", ".intercalate ([v].map printCase)).toList ++ ')' :: rest =
          (printCase v).toList ++ ')' :: rest := by simp
      rw [text]
      refine .enumCase hw hv (.inr rfl) fun line span hspan => .symbol (by decide) ?_ h
      simp +contextual [mappingValueRule, hspan, insertCase_of_not_mem fresh]
    | cons u cases =>
      have text : (", ".intercalate ((v :: u :: cases).map printCase)).toList ++ ')' :: rest =
          (printCase v).toList ++ ',' :: ' ' ::
            ((", ".intercalate ((u :: cases).map printCase)).toList ++ ')' :: rest) := by simp
      have comma (line : Nat) (span : List Token) (hspan : Constant.evaluate span = .ok v.2) :
          (Place.mappingValue values v.1 line span 0).Moves m.ns d (.symbol ',') d
            (.mappingCase (values ++ [v])) := by
        simp +contextual [mappingValueRule, hspan, insertCase_of_not_mem fresh]
      have further : (m.reading d (.mappingCase (values ++ [v]))).Accepts
          ((", ".intercalate ((u :: cases).map printCase)).toList ++ ')' :: rest) ds :=
        ih (fun x hx => hall x (by simp [hx])) (by simpa using hnodup) (by simpa using h)
      rw [text]
      exact .enumCase hw hv (.inl rfl) fun line span hspan =>
        .symbol (by decide) (comma line span hspan) (.skip rfl further)

end Values

theorem Accepts.derivingClause {name : String} {message : Option String}
    (hname : isWord name = true) (hcarries : message ≠ none → name ∈ messageDerivings)
    (hquote : ∀ s ∈ message, Quotable '"' s.toList) (hd : d.messageName = none)
    (h : (m.reading { d.addDeriving name with messageName := message } .derivingEnd).Accepts
      rest ds) :
    (m.reading d .constructorEnd).Accepts (' ' :: ("deriving".toList ++
      ' ' :: '(' :: (name.toList ++ ((printMessage message).toList ++ ')' :: rest)))) ds := by
  have keyword : Place.constructorEnd.Moves m.ns d (.word "deriving") d .derivingOpen := by
    simp +contextual [constructorEndRule]
  have opening : Place.derivingOpen.Moves m.ns d (.symbol '(') d .derivingItem := by
    simp +contextual
  have item : Place.derivingItem.Moves m.ns d (.word name) (d.addDeriving name)
      (.derivingTail name) := by
    simp +contextual [derivingItemRule]
  have halts : Halts isWordChar ((printMessage message).toList ++ ')' :: rest) := by
    have closing : isWordChar ')' = false := by decide
    have colon : isWordChar ':' = false := by decide
    cases message <;> simp [printMessage, halts_cons, closing, colon]
  refine .skip rfl (.word (by decide) (halts_cons.mpr (by decide)) keyword (.skip rfl
    (.symbol (by decide) opening (.word hname halts item ?_))))
  cases message with
  | none =>
    have kept : ({ d.addDeriving name with messageName := none } : Draft) = d.addDeriving name := by
      rw [← hd]
      rfl
    rw [kept] at h
    refine .symbol (by decide) ?_ h
    simp +contextual [derivingTailRule, derivingItemEndRule]
  | some s =>
    have text : (printMessage (some s)).toList ++ ')' :: rest =
        ':' :: ' ' :: '"' :: (s.toList ++ '"' :: ')' :: rest) := by
      simp [printMessage, quote]
    have colon : (Place.derivingTail name).Moves m.ns (d.addDeriving name) (.symbol ':')
        (d.addDeriving name) .derivingMessage := by
      simp +contextual [derivingTailRule, hcarries]
    have quoted : Place.derivingMessage.Moves m.ns (d.addDeriving name) (.quoted s)
        { d.addDeriving name with messageName := some s } .derivingItemEnd := by
      simp +contextual [derivingMessageRule, Draft.setMessage]
    rw [text]
    refine .symbol (by decide) colon (.skip rfl (.quoted (hquote s rfl) quoted
      (.symbol (by decide) ?_ h)))
    simp +contextual [derivingItemEndRule]

theorem Accepts.mapping {values : List (String × Constant)} (hd : d.derivings.any (·.isEnum) = true)
    (hall : ∀ v ∈ values, isWord v.1 = true ∧ v.2.Printable) (hnodup : (values.map Prod.fst).Nodup)
    (h : (m.reading (d.setValues values) .mappingEnd).Accepts rest ds) :
    (m.reading d .derivingEnd).Accepts ((printValues (.enum values)).toList ++ rest) ds := by
  have text : (printValues (.enum values)).toList ++ rest = ' ' :: ("with".toList ++ ' ' :: '(' ::
      ((", ".intercalate (values.map printCase)).toList ++ ')' :: rest)) := by
    simp [printValues]
  have keyword : Place.derivingEnd.Moves m.ns d (.word "with") d .mappingOpen := by
    simp +contextual [derivingEndRule, mappingStart, hd]
  have opening : Place.mappingOpen.Moves m.ns d (.symbol '(') d (.mappingCase []) := by
    simp +contextual
  rw [text]
  exact .skip rfl (.word (by decide) (halts_cons.mpr (by decide)) keyword (.skip rfl
    (.symbol (by decide) opening (.enumCases hall hnodup h))))

end Machine

end Datatypes.Declaration
