import Datatypes.Proofs.Declaration.Acceptance

/-!
Conditions: the scopes of guards, and guards between their bar and their arrow. The reader
collects the tokens of an expression up to the arrow that belongs to the guard.
-/

namespace Datatypes

namespace Token

theorem balance_cons (t : Token) (ts : List Token) :
    balance (t :: ts) = balance [t] + balance ts := by
  simp only [balance, List.countP_cons, List.countP_nil]
  omega

theorem balance_append (ts us : List Token) : balance (ts ++ us) = balance ts + balance us := by
  simp only [balance, List.countP_append]
  omega

theorem forall_split_cons {P : Token → Prop} {Q : Int → Prop} {depth : Int} {t : Token}
    {ts : List Token} :
    (∀ before u after, t :: ts = before ++ u :: after → P u → Q (depth + balance before)) ↔
      (P t → Q depth) ∧ ∀ before u after, ts = before ++ u :: after → P u →
        Q (depth + balance [t] + balance before) := by
  constructor
  · intro h
    refine ⟨fun ht => by simpa [balance] using h [] t ts rfl ht, ?_⟩
    intro before u after hts hu
    have := h (t :: before) u after (by rw [hts]; rfl) hu
    rwa [balance_cons, ← Int.add_assoc] at this
  · rintro ⟨first, rest⟩ before u after hts hu
    cases before with
    | nil =>
      obtain ⟨rfl, -⟩ := List.cons.inj hts
      simpa [balance] using first hu
    | cons v before =>
      obtain ⟨rfl, behind⟩ := List.cons.inj hts
      rw [balance_cons, ← Int.add_assoc]
      exact rest before u after behind hu

theorem balance_singleton_congr {t u : Token} (h : t.kind = u.kind) :
    balance [t] = balance [u] := by
  simp [balance, isSymbol, h]

theorem add_balance_singleton (depth : Int) (t : Token) :
    depth + balance [t] =
      if t.isSymbol '(' ∨ t.isSymbol '[' then depth + 1
      else if t.isSymbol ')' ∨ t.isSymbol ']' then depth - 1
      else depth := by
  by_cases opened : t.isSymbol '(' ∨ t.isSymbol '['
  · have kind : t.kind = .symbol '(' ∨ t.kind = .symbol '[' := by simpa [isSymbol] using opened
    rw [if_pos opened]
    rcases kind with kind | kind <;> simp [balance, isSymbol, kind]
  · rw [if_neg opened]
    rw [not_or, Bool.not_eq_true, Bool.not_eq_true] at opened
    by_cases closed : t.isSymbol ')' ∨ t.isSymbol ']'
    · rcases closed with closed | closed <;> simp [balance, opened, closed, Int.sub_eq_add_neg]
    · rw [if_neg closed]
      rw [not_or, Bool.not_eq_true, Bool.not_eq_true] at closed
      simp [balance, opened, closed]

end Token

namespace Declaration

open Text Token

namespace Machine

attribute [local simp] Place.Moves Place.rule symbolRule wordRule spaced isWhitespace isSymbol
  Reference.push

variable {m : Machine} {ds : List Definition} {rest : List Char} {d : Draft} {scope : String}

theorem rule_guard {captured : List Token} {depth : Int} {t : Token}
    (h : t.kind = .arrow → depth ≠ 0) (ns : String) (d : Draft) :
    (Place.guard scope captured depth).rule ns d t =
      .ok (.reading d (.guard scope (captured ++ [t]) (depth + balance [t]))) := by
  rw [Place.rule, guardRule, if_neg (by simpa using h), add_balance_singleton]

theorem Accepts.guardTokens {line : Nat} {e : List Char} {ts : List Token}
    (hl : Lexes line e ts) (hc : ∀ t ∈ ts, t.kind ≠ .comment) (hend : Halts isBlank e.reverse)
    {captured : List Token} {depth : Int}
    (harrow : ∀ before t after, ts = before ++ t :: after → t.kind = .arrow →
      depth + balance before ≠ 0)
    (h : ∀ us : List Token, String.join (us.map (·.text)) = String.ofList e →
      (m.reading d (.guard scope (captured ++ us) (depth + balance ts))).Accepts (' ' :: rest) ds) :
    (m.reading d (.guard scope captured depth)).Accepts (e ++ ' ' :: rest) ds := by
  induction hl generalizing captured depth with
  | nil => simpa [balance] using h [] rfl
  | @cons line kind text more ts hl hts ih =>
    have last : more = [] → kind ≠ .whitespace := by
      rintro rfl
      exact hl.ne_whitespace_of_end (by simpa using hend)
    have plain : kind ≠ .comment := hc _ List.mem_cons_self
    have ended := hl.append_blank isBlank_space (absurd · plain) last rest
    rw [List.append_assoc]
    refine .token ended plain fun t ht htext => ?_
    have same : balance [t] = balance [⟨kind, String.ofList text, line⟩] :=
      balance_singleton_congr ht
    have first : t.kind = .arrow → depth ≠ 0 := by
      intro hk
      have := harrow [] _ ts rfl (ht ▸ hk)
      simpa [balance] using this
    refine ⟨_, step_reading (rule_guard first m.ns d), ih ?_ ?_ ?_ ?_⟩
    · exact fun u hu => hc u (by simp [hu])
    · rw [List.reverse_append] at hend
      exact hend.of_append
    · intro before u after heq hk
      have := harrow (_ :: before) u after (by rw [heq]; rfl) hk
      rwa [balance_cons, ← same, ← Int.add_assoc] at this
    · intro us hus
      have := h (t :: us) (by simp [String.join_cons, htext, hus])
      rw [balance_cons, ← same, ← Int.add_assoc] at this
      simpa using this

theorem Accepts.guardSpace {captured : List Token} {depth : Int} {text : List Char}
    (hl : Lexeme .whitespace text rest)
    (h : ∀ t : Token, t.text = String.ofList text →
      (m.reading d (.guard scope (captured ++ [t]) depth)).Accepts rest ds) :
    (m.reading d (.guard scope captured depth)).Accepts (text ++ rest) ds := by
  refine .token hl (by simp) fun t ht htext =>
    ⟨_, step_reading (rule_guard (by simp [ht]) m.ns d), ?_⟩
  have level : balance [t] = 0 := by simp [balance, isSymbol, ht]
  rw [level, Int.add_zero]
  exact h t htext

theorem Accepts.guardArrow {captured : List Token} {e : String} (he : guardText captured = e)
    (h : (m.reading d (.guardMessage scope e)).Accepts rest ds) :
    (m.reading d (.guard scope captured 0)).Accepts ('=' :: '>' :: rest) ds := by
  subst he
  refine .move .arrow (by simp) (fun t ht => ?_) h
  rw [Place.rule, guardRule, if_pos ⟨ht, rfl⟩]

theorem Accepts.guard {e : String} {tokens : List Token} (hg : GuardText e tokens)
    (htrim : trim e = e) (h : (m.reading d (.guardMessage scope e)).Accepts rest ds) :
    (m.reading d (.guard scope [] 0)).Accepts
      (' ' :: (e.toList ++ ' ' :: '=' :: '>' :: rest)) ds := by
  have arrow : Halts isBlank ('=' :: '>' :: rest) := halts_cons.mpr (by decide)
  obtain ⟨front, back⟩ := halts_of_strip_eq_self htrim
  by_cases hempty : e.toList = []
  · -- The spaces on both sides of an empty expression are one token.
    have spaces : Lexeme .whitespace [' ', ' '] ('=' :: '>' :: rest) :=
      .whitespace (by simpa using isBlank_space) arrow
    have he : e = "" := by simpa using hempty
    subst he
    refine .guardSpace spaces fun t ht => .guardArrow ?_ h
    have text : String.join [String.ofList [' ', ' ']] = " " ++ "" ++ " " := by decide
    rw [guardText, List.nil_append, List.map_singleton, ht, text, trim_surrounded htrim]
  · have start : Halts isBlank (e.toList ++ ' ' :: '=' :: '>' :: rest) := by
      obtain ⟨c, cs, hc⟩ := List.exists_cons_of_ne_nil hempty
      rw [hc] at front ⊢
      exact halts_cons.mpr (halts_cons.mp front)
    have lexed : Lexes 0 e.toList tokens := lexFrom_eq_ok_iff.mp hg.lex
    refine .guardSpace (lexeme_space start) fun t ht =>
      .guardTokens lexed hg.noComment back ?_ fun us hus => ?_
    · simpa using hg.arrows
    · rw [hg.balanced, Int.add_zero]
      refine .guardSpace (lexeme_space arrow) fun u hu => .guardArrow ?_ h
      simp only [guardText, List.nil_append, List.map_append, List.map_singleton, ht, hu]
      rw [String.join_append, String.join_append, hus, String.ofList_toList]
      exact trim_surrounded htrim

def OpensScope (ns : String) (p : Place) : Prop :=
  ∀ d, p.Moves ns d .separator d (.scopeWord ⟨true, []⟩) ∧
    ∀ w, p.Moves ns d (.word w) d (.scopeTail ⟨false, [w]⟩)

theorem Accepts.condition {start : Place} (hstart : OpensScope m.ns start) {c : Condition}
    (hw : c.WellFormed) (hc : c.Printable)
    (h : (m.reading (d.addCondition c) (.guardEnd c.scope)).Accepts rest ds) :
    (m.reading d start).Accepts ((printCondition c).toList ++ rest) ds := by
  have text : (printCondition c).toList ++ rest =
      (Declaration.printName (· = anyConstructor) c.scope).toList ++ ':' :: ' ' :: '|' :: ' ' ::
        (c.expression.toList ++
          ' ' :: '=' :: '>' :: ' ' :: '"' :: (c.message.toList ++ '"' :: rest)) := by
    simp [printCondition, quote]
  have bare : decide (c.scope = anyConstructor) = true → isWord c.scope = true := by
    intro hb
    rw [of_decide_eq_true hb]
    decide
  have bar : (Place.guardOpen c.scope).Moves m.ns d (.symbol '|') d (.guard c.scope [] 0) := by
    simp +contextual
  have quoted : (Place.guardMessage c.scope c.expression).Moves m.ns d (.quoted c.message)
      (d.addCondition c) (.guardEnd c.scope) := by
    simp +contextual [guardMessageRule]
  obtain ⟨tokens, hguard⟩ := hc.guard
  rw [text]
  refine .printName .scopeWord .scopeTail (hstart d).1 (hstart d).2 ?_ ?_ hw.scope bare
    (halts_cons.mpr (by decide)) fun r hr => ?_
  · simp +contextual
  · simp +contextual [scopeTailRule]
  · have colon : (Place.scopeTail r).Moves m.ns d (.symbol ':') d (.guardOpen c.scope) := by
      simp +contextual [scopeTailRule, hr]
    exact .symbol (by decide) colon (.skip rfl (.symbol (by decide) bar
      (.guard hguard hw.expression (.skip rfl (.quoted hc.message quoted h)))))

theorem Accepts.conditions {start : Place} (hstart : OpensScope m.ns start) {cs : List Condition}
    (hne : cs ≠ []) (hall : ∀ c ∈ cs, c.WellFormed ∧ c.Printable)
    (h : ∀ scope, (m.reading { d with conditions := d.conditions ++ cs } (.guardEnd scope)).Accepts
      rest ds) :
    (m.reading d start).Accepts ((" ".intercalate (cs.map printCondition)).toList ++ rest) ds := by
  induction cs generalizing start d with
  | nil => exact absurd rfl hne
  | cons c cs ih =>
    obtain ⟨hw, hc⟩ := hall c (by simp)
    cases cs with
    | nil => simpa using Accepts.condition hstart hw hc (h c.scope)
    | cons b cs =>
      have text : (" ".intercalate ((c :: b :: cs).map printCondition)).toList ++ rest =
          (printCondition c).toList ++
            ' ' :: ((" ".intercalate ((b :: cs).map printCondition)).toList ++ rest) := by simp
      have next : OpensScope m.ns (.guardEnd c.scope) := by
        simp +contextual [OpensScope, guardEndRule]
      rw [text]
      refine .condition hstart hw hc (.skip rfl (ih next (by simp) ?_ ?_))
      · exact fun x hx => hall x (by simp [hx])
      · simpa [Draft.addCondition] using h

end Machine

end Declaration

end Datatypes
