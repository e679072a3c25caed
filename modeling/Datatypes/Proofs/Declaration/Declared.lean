import Datatypes.Proofs.Declaration.Completion

/-!
The declarations of a source. Every definition that is read has tokens of its own between a word
`data` and a semicolon, and every such stretch of tokens gives one of the definitions.
-/

namespace Datatypes.Declaration

open Token

/-- The tokens are a declaration, from its keyword to its semicolon, which is read as the definition
in the namespace. -/
inductive DeclaredAs (ns : String) : List Token → Definition → Prop
  | intro {keyword : Token} {inner : List Token} {definition : Definition} :
      keyword.kind = .word "data" → Completes ns (.nameGap keyword.line) inner definition →
      DeclaredAs ns (keyword :: inner) definition

theorem declaredAs_cons_iff {ns : String} {t : Token} {ts : List Token} {definition : Definition} :
    DeclaredAs ns (t :: ts) definition ↔
      t.kind = .word "data" ∧ Completes ns (.nameGap t.line) ts definition := by
  constructor
  · rintro ⟨kind, hc⟩
    exact ⟨kind, hc⟩
  · rintro ⟨kind, hc⟩
    exact .intro kind hc

theorem DeclaredAs.ns_eq {ns : String} {ts : List Token} {definition : Definition}
    (h : DeclaredAs ns ts definition) : definition.ns = ns := by
  cases h with
  | intro _ hc => exact hc.ns_eq

def completion (ns : String) : State → List Token → Option Definition
  | .nameGap line, t :: ts => if t.kind = .whitespace then completion ns (.name line) ts else none
  | .name line, t :: ts =>
    match t.kind with
    | .word w => completion ns (.body { line := line, name := w } .equals) ts
    | _ => none
  | .body d p, t :: ts =>
    match p.rule ns d t with
    | .ok (.reading d' p') => completion ns (.body d' p') ts
    | .ok (.declared definition) => if ts = [] then some definition else none
    | .error _ => none
  | _, _ => none

theorem completion_eq_some_iff {ns : String} {s : State} {ts : List Token}
    {definition : Definition} :
    completion ns s ts = some definition ↔ Completes ns s ts definition := by
  constructor
  · intro h
    fun_induction completion ns s ts with
    | case1 line t ts ht ih => exact .gap ht (ih h)
    | case3 line t ts w ht ih => exact .name ht (ih h)
    | case5 d p t ts d' p' hr ih => exact .reading hr (ih h)
    | case6 d p t other hr => cases h; exact .declared hr
    | _ => cases h
  · intro h
    induction h with
    | gap ht _ ih => rw [completion, if_pos ht, ih]
    | name ht _ ih => simp [completion, ht, ih]
    | reading hr _ ih => simp [completion, hr, ih]
    | declared hr => simp [completion, hr]

/-- Among the tokens of the source, comments apart, these ones are a declaration in the namespace
that is active there. -/
def Declares (source : String) (declaration : List Token) (definition : Definition) : Prop :=
  ∃ ts before after m,
    lex source = .ok ts ∧ significant ts = before ++ declaration ++ after ∧
      Machine.steps {} before = .ok m ∧ m.state = .topLevel ∧
      DeclaredAs m.ns declaration definition

theorem Declares.declaredAs {source : String} {declaration : List Token} {definition : Definition}
    (h : Declares source declaration definition) :
    DeclaredAs definition.ns declaration definition := by
  obtain ⟨-, -, -, m, -, -, -, -, hd⟩ := h
  rwa [hd.ns_eq]

namespace Machine

variable {m m' : Machine} {t : Token} {ts : List Token}

def Declared (ts : List Token) (definition : Definition) : Prop :=
  ∃ before declaration after m,
    ts = before ++ declaration ++ after ∧ Machine.steps {} before = .ok m ∧
      m.state = .topLevel ∧ DeclaredAs m.ns declaration definition

theorem Declared.append {definition : Definition} (h : Declared ts definition)
    (us : List Token) : Declared (ts ++ us) definition := by
  obtain ⟨before, declaration, after, m, rfl, rest⟩ := h
  exact ⟨before, declaration, after ++ us, m, by simp, rest⟩

def Opened (ts : List Token) (m : Machine) : Prop :=
  ∃ before keyword inner m₀,
    ts = before ++ keyword :: inner ∧ Machine.steps {} before = .ok m₀ ∧ m₀.state = .topLevel ∧
      keyword.kind = .word "data" ∧ m.ns = m₀.ns ∧
      ∀ us definition, Completes m₀.ns m.state us definition →
        Completes m₀.ns (.nameGap keyword.line) (inner ++ us) definition

theorem step_outside (hm : m.state.isInside = false) (h : m.step t = .ok m') :
    m'.definitions = m.definitions ∧
      (m'.state.isInside = true → m.state = .topLevel ∧ t.kind = .word "data" ∧
        m' = { m with state := .nameGap t.line }) := by
  cases outcome_of_step h with
  | space top _ => exact ⟨rfl, fun inside => by rw [hm] at inside; cases inside⟩
  | data top kind => exact ⟨rfl, fun _ => ⟨top, kind, rfl⟩⟩
  | nameGap hs _ | name hs _ | reading hs _ | declared hs _ => rw [hs] at hm; cases hm
  | _ => exact ⟨rfl, fun inside => by cases inside⟩

structure Traced (ts : List Token) (m : Machine) : Prop where
  declared : ∀ definition ∈ m.definitions, Declared ts definition
  opened : m.state.isInside = true → Opened ts m

theorem Traced.concat (h : Traced ts m) (hts : Machine.steps {} ts = .ok m)
    (hstep : m.step t = .ok m') : Traced (ts ++ [t]) m' := by
  by_cases inside : m.state.isInside = true
  · obtain ⟨before, keyword, inner, m₀, rfl, hbefore, top, kind, hns, extend⟩ := h.opened inside
    rcases step_inside inside hstep with ⟨hns', kept, _, further⟩ | ⟨definition, hc⟩
    · refine ⟨fun definition hd => (h.declared definition (kept ▸ hd)).append [t], fun _ => ?_⟩
      refine ⟨before, keyword, inner ++ [t], m₀, by simp, hbefore, top, kind, hns'.trans hns, ?_⟩
      intro us definition hus
      rw [List.append_assoc]
      rw [hns] at further
      exact extend _ _ (further us definition hus)
    · have done : m.steps [t] = _ := hc.steps rfl rfl
      rw [steps_cons, hstep] at done
      cases done
      refine ⟨fun other hother => ?_, fun inside => by cases inside⟩
      rcases List.mem_append.mp hother with old | new
      · exact (h.declared other old).append [t]
      · obtain rfl := List.mem_singleton.mp new
        rw [hns] at hc
        exact ⟨before, keyword :: (inner ++ [t]), [], m₀, by simp, hbefore, top,
          .intro kind (extend _ _ hc)⟩
  · obtain ⟨kept, opens⟩ := step_outside (by simpa using inside) hstep
    refine ⟨fun definition hd => (h.declared definition (kept ▸ hd)).append [t], fun inside' => ?_⟩
    obtain ⟨top, kind, rfl⟩ := opens inside'
    exact ⟨ts, t, [], m, rfl, hts, top, kind, rfl, fun us definition hus => hus⟩

theorem traced_of_run (h : Machine.steps {} ts = .ok m) : Traced ts m := by
  induction ts using List.reverseRecOn generalizing m with
  | nil =>
    cases h
    exact ⟨fun definition hd => by simp at hd, fun inside => by cases inside⟩
  | append_singleton ts t ih =>
    obtain ⟨m₀, hm₀, hstep⟩ := steps_concat_eq_ok_iff.mp h
    exact (ih hm₀).concat hm₀ hstep

theorem mem_definitions_of_step {definition : Definition} (hd : definition ∈ m.definitions)
    (h : m.step t = .ok m') : definition ∈ m'.definitions := by
  cases outcome_of_step h with
  | declared _ _ => exact List.mem_append_left _ hd
  | _ => exact hd

end Machine

theorem exists_declares {file source : String} {c : Collection} (h : parse file source = .ok c)
    {definition : Definition} (hd : definition ∈ c.definitions) :
    ∃ declaration, Declares source declaration definition := by
  obtain ⟨ts, m, hl, hs, -, -, rfl⟩ := steps_of_parse h
  obtain ⟨before, declaration, after, m₀, hts, rest⟩ :=
    (Machine.traced_of_run hs).declared definition hd
  exact ⟨declaration, ts, before, after, m₀, lexFrom_eq_ok_iff.mpr hl, hts, rest⟩

theorem Declares.mem {file source : String} {c : Collection} (h : parse file source = .ok c)
    {declaration : List Token} {definition : Definition}
    (hd : Declares source declaration definition) : definition ∈ c.definitions := by
  obtain ⟨ts, m, hl, hs, -, -, rfl⟩ := steps_of_parse h
  obtain ⟨us, before, after, m₀, hus, split, hbefore, top, hd⟩ := hd
  obtain rfl : ts = us := Except.ok.inj ((lexFrom_eq_ok_iff.mpr hl).symm.trans hus)
  cases hd with
  | intro kind hc =>
    rw [split, Machine.steps_append, Machine.steps_append, hbefore] at hs
    simp only [Except.bind, Machine.steps_declaration top kind hc] at hs
    exact Machine.steps_invariant (fun m m' t hm (_ : True) => Machine.mem_definitions_of_step hm)
      (by simp) (fun _ _ => trivial) hs

end Datatypes.Declaration
