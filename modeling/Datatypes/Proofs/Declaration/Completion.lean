import Datatypes.Proofs.Declaration.Relocation
import Datatypes.Proofs.Declaration.Shape

/-!
Declarations from their keyword to their end. The tokens between lead the reader to one
definition, whatever was read before and wherever they stand; a text that is one declaration has
such tokens and no others.
-/

namespace Datatypes.Declaration

open Text Token

variable {f : String → String}

/-- From the state, which is inside a declaration, the tokens lead to its end: the last one, and
none before it, completes the definition. -/
inductive Completes (ns : String) : State → List Token → Definition → Prop
  | gap {line : Nat} {t : Token} {ts : List Token} {definition : Definition} :
      t.kind = .whitespace → Completes ns (.name line) ts definition →
      Completes ns (.nameGap line) (t :: ts) definition
  | name {line : Nat} {w : String} {t : Token} {ts : List Token} {definition : Definition} :
      t.kind = .word w → Completes ns (.body { line := line, name := w } .equals) ts definition →
      Completes ns (.name line) (t :: ts) definition
  | reading {d d' : Draft} {p p' : Place} {t : Token} {ts : List Token}
      {definition : Definition} :
      p.rule ns d t = .ok (.reading d' p') → Completes ns (.body d' p') ts definition →
      Completes ns (.body d p) (t :: ts) definition
  | declared {d : Draft} {p : Place} {t : Token} {definition : Definition} :
      p.rule ns d t = .ok (.declared definition) → Completes ns (.body d p) [t] definition

def State.erase (f : String → String) : State → State
  | .nameGap _ => .nameGap 0
  | .name _ => .name 0
  | .body d p => .body (d.erase f) (p.erase f)
  | s => s

theorem Outcome.of_declared {ns : String} {d : Draft} {p : Place} {t : Token}
    {o : Except Failure Progress} {definition : Definition} (h : Outcome ns t d p o)
    (ho : o = .ok (.declared definition)) : t.kind = .symbol ';' ∧ definition.ns = ns := by
  induction h with
  | declared ht hparts =>
    cases ho
    refine ⟨ht, ?_⟩
    rw [Definition.ofParts.eq_def] at hparts
    split at hparts <;> cases hparts
    rfl
  | constructorNamed _ ih | noArguments _ ih | derivingBare _ ih | scopeNamed _ ih => exact ih ho
  | _ => cases ho

theorem of_rule_declared {ns : String} {d : Draft} {p : Place} {t : Token}
    {definition : Definition} (h : p.rule ns d t = .ok (.declared definition)) :
    t.kind = .symbol ';' ∧ definition.ns = ns :=
  (p.outcome ns d t).of_declared h

namespace Completes

variable {ns ns' : String} {s s' : State} {ts ts' : List Token} {definition : Definition}

theorem ns_eq (h : Completes ns s ts definition) : definition.ns = ns := by
  induction h with
  | gap _ _ ih | name _ _ ih | reading _ _ ih => exact ih
  | declared hr => exact (of_rule_declared hr).2

theorem steps (h : Completes ns s ts definition) {m : Machine} (hns : m.ns = ns)
    (hs : m.state = s) :
    m.steps ts =
      .ok { m with definitions := m.definitions ++ [definition], state := .topLevel } := by
  induction h generalizing m with
  | gap ht _ ih =>
    have step := ih (m := { m with state := .name _ }) hns rfl
    rw [Machine.steps_cons, Machine.step, hs]
    simpa [Token.isWhitespace, ht, Except.bind] using step
  | @name line w _ _ _ ht _ ih =>
    have step := ih (m := { m with state := .body { line := line, name := w } .equals }) hns rfl
    rw [Machine.steps_cons, Machine.step, hs]
    simpa [ht, Except.bind] using step
  | @reading d d' p p' _ _ _ hr _ ih =>
    have step := ih (m := { m with state := .body d' p' }) hns rfl
    rw [Machine.steps_cons, Machine.step, hs]
    simpa [hns, hr, Except.bind] using step
  | declared hr =>
    rw [Machine.steps_cons, Machine.step, hs]
    simp [hns, hr, Except.bind, Machine.steps_nil]

end Completes

def State.isInside : State → Bool
  | .nameGap _ | .name _ | .body _ _ => true
  | _ => false

theorem Machine.step_inside {m m' : Machine} {t : Token} (hm : m.state.isInside = true)
    (h : m.step t = .ok m') :
    (m'.ns = m.ns ∧ m'.definitions = m.definitions ∧ m'.state.isInside = true ∧
      ∀ ts definition,
        Completes m.ns m'.state ts definition → Completes m.ns m.state (t :: ts) definition) ∨
    ∃ definition, Completes m.ns m.state [t] definition := by
  obtain ⟨ns, inBlock, definitions, state⟩ := m
  cases state with
  | topLevel | namespaceGap | namespaceWord | namespaceTail | namespaceEnd => cases hm
  | nameGap line =>
    simp only [step] at h
    split at h
    · next hw =>
      cases h
      exact .inl ⟨rfl, rfl, rfl, fun _ _ => .gap (by simpa [Token.isWhitespace] using hw)⟩
    · cases h
  | name line =>
    simp only [step] at h
    split at h
    · next w hw =>
      cases h
      exact .inl ⟨rfl, rfl, rfl, fun _ _ => .name hw⟩
    · cases h
  | body d p =>
    simp only [step] at h
    split at h
    · cases h
    · next d' p' hr =>
      cases h
      exact .inl ⟨rfl, rfl, rfl, fun _ _ => .reading hr⟩
    · next definition hr => exact .inr ⟨definition, .declared hr⟩

theorem parse_of_lexes {source : String} {ts : List Token} (h : Lexes 0 source.toList ts)
    (file : String) : parse file source = parseStream (.ofTokens file ts) := by
  have lexed : lex source = .ok ts := lexFrom_eq_ok_iff.mpr h
  simp only [parse, TokenStream.ofSource, TokenStream.tokens, lexed, Except.mapError, Except.map]

theorem parse_of_steps {source : String} {ts : List Token} (h : Lexes 0 source.toList ts)
    {m : Machine} (hm : Machine.steps {} (significant ts) = .ok m) (top : m.state = .topLevel)
    (outside : m.inBlock = false) (file : String) :
    parse file source = .ok ⟨file, m.definitions⟩ := by
  simp [parse_of_lexes h, parseStream_eq, hm, Machine.finish, top, outside]

theorem significant_cons {t : Token} {w : String} (h : t.kind = .word w) (ts : List Token) :
    significant (t :: ts) = t :: significant ts :=
  List.filter_cons_of_pos (by simp [isComment, h])

theorem significant_unlined (ts : List Token) :
    (significant ts).map unlined = significant (ts.map unlined) := by
  rw [significant, significant, List.filter_map]
  rfl

theorem Machine.run_append (m : Machine) (file : String) (line : Nat) (ts us : List Token) :
    m.run ⟨file, line, ts ++ us⟩ = (m.steps (significant ts)).bind fun m' =>
      m'.run ⟨file, lastLine line (significant ts), us⟩ := by
  rw [run_eq_steps, significant_append, steps_append, lastLine_append]
  cases m.steps (significant ts) with
  | error e => rfl
  | ok m' => exact (run_eq_steps ..).symm

/-- A text that is one declaration and no more: no proper part of it from its start is a
source. -/
structure IsDeclaration (text : String) : Prop where
  keyword : "data".toList <+: text.toList
  accepted : ∃ definition, parse "" text = .ok ⟨"", [definition]⟩
  whole : ∀ part : String, part ≠ "" → part ≠ text → part.toList <+: text.toList →
    ∃ e, parse "" part = .error e

theorem Machine.steps_declaration {m : Machine} (hm : m.state = .topLevel) {keyword : Token}
    (hk : keyword.kind = .word "data") {inner : List Token} {definition : Definition}
    (h : Completes m.ns (.nameGap keyword.line) inner definition) :
    m.steps (keyword :: inner) =
      .ok { m with definitions := m.definitions ++ [definition], state := .topLevel } := by
  have start : m.step keyword = .ok { m with state := .nameGap keyword.line } := by
    simp [step, stepTopLevel, hm, hk]
  rw [steps_cons, start]
  exact h.steps rfl rfl

structure DeclarationTokens (text : String) (ts : List Token) (keyword : Token)
    (inner : List Token) : Prop where
  lexes : Lexes 0 text.toList ts
  significant : significant ts = keyword :: inner
  kind : keyword.kind = .word "data"
  line : keyword.line = 0
  alone : EndsAlone ts

namespace DeclarationTokens

variable {text : String} {ts us inner inner' : List Token} {keyword keyword' : Token}
  {definition : Definition}

theorem parse (h : DeclarationTokens text ts keyword inner)
    (hc : Completes "" (.nameGap 0) inner definition) (file : String) :
    parse file text = .ok ⟨file, [definition]⟩ := by
  have steps : Machine.steps {} (keyword :: inner) = .ok { definitions := [definition] } :=
    Machine.steps_declaration rfl h.kind (by rwa [h.line])
  rw [parse_of_lexes h.lexes, parseStream_eq, h.significant, steps]
  rfl

theorem ne_empty (h : DeclarationTokens text ts keyword inner) : text ≠ "" := by
  rintro rfl
  have none := Lexes.eq_nil h.lexes
  have kept := h.significant
  rw [none] at kept
  cases kept

theorem unique (h : DeclarationTokens text ts keyword inner)
    (h' : DeclarationTokens text us keyword' inner') : inner = inner' := by
  have lexed := lexFrom_eq_ok_iff.mpr h.lexes
  rw [lexFrom_eq_ok_iff.mpr h'.lexes] at lexed
  cases lexed
  exact (List.cons.inj (h.significant.symm.trans h'.significant)).2

end DeclarationTokens

theorem Completes.unique {ns : String} {s : State} {ts : List Token}
    {definition definition' : Definition} (h : Completes ns s ts definition)
    (h' : Completes ns s ts definition') : definition = definition' := by
  let m : Machine := { ns := ns, state := s }
  have steps : m.steps ts = _ := h.steps rfl rfl
  have steps' : m.steps ts = _ := h'.steps rfl rfl
  simpa [steps] using steps'

def Denotes (ns text : String) (definition : Definition) : Prop :=
  ∃ ts keyword inner, DeclarationTokens text ts keyword inner ∧
    Completes ns (.nameGap 0) inner definition

theorem Denotes.unique {ns text : String} {definition definition' : Definition}
    (h : Denotes ns text definition) (h' : Denotes ns text definition') :
    definition = definition' := by
  obtain ⟨ts, keyword, inner, hts, hc⟩ := h
  obtain ⟨us, keyword', inner', hus, hc'⟩ := h'
  rw [← hts.unique hus] at hc'
  exact hc.unique hc'

end Datatypes.Declaration
