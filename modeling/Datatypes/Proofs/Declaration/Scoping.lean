import Datatypes.Proofs.Declaration.Completion
import Datatypes.Proofs.Declaration.RoundTrip
import Mathlib.Data.List.Forall2

/-!
Which namespace a declaration is in. A source is a sequence of items: namespace statements,
blocks that are opened and closed, and declarations. Two things are remembered from one item to
the next, the namespace and whether a block is open; the reader accepts a sequence exactly where
this bookkeeping finds no fault, and every declaration means what it means alone in the namespace
that was active.
-/

namespace Datatypes.Declaration

open Text Token

inductive Item where
  | statement (ns : String)
  | opening (ns : String)
  | closing
  | declaration (text : String)
deriving DecidableEq, Repr

namespace Item

def text : Item → String
  | .statement ns => "namespace " ++ ns ++ ";"
  | .opening ns => "namespace " ++ ns ++ " \x7b"
  | .closing => "\x7d"
  | .declaration text => text

def recorded (ns : String) : Item → List (String × String)
  | .declaration text => [(ns, text)]
  | _ => []

def WellFormed : Item → Prop
  | .statement ns | .opening ns => IsPath ns
  | .closing => True
  | .declaration text => IsDeclaration text

end Item

def layout (items : List (String × Item)) (tail : String) : String :=
  match items with
  | [] => tail
  | (gap, item) :: items => gap ++ item.text ++ layout items tail

inductive ScopeError where
  | nested
  | unopened
  | unclosed (ns : String)
deriving DecidableEq, Repr

def ScopeError.message : ScopeError → String
  | .nested => "nested namespaces are not supported"
  | .unopened => "expected 'data' or 'namespace', found '\x7d'"
  | .unclosed ns => "namespace '" ++ ns ++ "' is never closed"

structure Scope where
  ns : String := ""
  inBlock : Bool := false
deriving DecidableEq, Repr

namespace Scope

def step (s : Scope) : Item → Except ScopeError Scope
  | .statement ns => if s.inBlock then .error .nested else .ok ⟨ns, false⟩
  | .opening ns => if s.inBlock then .error .nested else .ok ⟨ns, true⟩
  | .closing => if s.inBlock then .ok {} else .error .unopened
  | .declaration _ => .ok s

def run (s : Scope) : List Item → Except ScopeError (List (String × String))
  | [] => if s.inBlock then .error (.unclosed s.ns) else .ok []
  | item :: items =>
    match s.step item with
    | .error e => .error e
    | .ok next => (next.run items).map (item.recorded s.ns ++ ·)

end Scope

theorem Machine.steps_blank {m : Machine} (hm : m.state = .topLevel) {ts : List Token}
    (h : ∀ t ∈ ts, t.kind = .whitespace) : m.steps (significant ts) = .ok m := by
  have none : significant ts = ts := significant_of_noComment fun t ht => by simp [h t ht]
  rw [none]
  induction ts with
  | nil => rfl
  | cons t ts ih =>
    rw [steps_cons, step_topLevel_of_whitespace hm t (h t (by simp))]
    have rest : ∀ u ∈ ts, u.kind = .whitespace := fun u hu => h u (by simp [hu])
    exact ih rest (significant_of_noComment fun t ht => by simp [rest t ht])

def pathKinds : List String → List TokenKind
  | [] => []
  | [w] => [.word w]
  | w :: words => .word w :: .separator :: pathKinds words

def Spelled (cs : List Char) (kinds : List TokenKind) : Prop :=
  ∀ line, ∃ ts, Lexes line cs ts ∧ ts.map (·.kind) = kinds

theorem spelled_nil : Spelled [] [] := fun _ => ⟨[], .nil, rfl⟩

theorem Spelled.cons {kind : TokenKind} {text rest : List Char} {kinds : List TokenKind}
    (hl : Lexeme kind text rest) (h : Spelled rest kinds) :
    Spelled (text ++ rest) (kind :: kinds) := by
  intro line
  obtain ⟨ts, hts, hk⟩ := h (line + text.count '\n')
  exact ⟨_, .cons hl hts, by simp [hk]⟩

theorem Spelled.path {words : List String} (hne : words ≠ [])
    (hall : ∀ w ∈ words, isWord w = true) {rest : List Char} (hr : Halts isWordChar rest)
    {kinds : List TokenKind} (h : Spelled rest kinds) :
    Spelled ((Reference.spelling words).toList ++ rest) (pathKinds words ++ kinds) := by
  induction words with
  | nil => exact absurd rfl hne
  | cons w words ih =>
    have hw := hall w (by simp)
    cases words with
    | nil => simpa [Reference.spelling, pathKinds] using h.cons (lexeme_word hw hr)
    | cons v words =>
      have rest := ih (by simp) fun u hu => hall u (by simp [hu])
      have word := (rest.cons Lexeme.separator).cons
        (lexeme_word hw (halts_cons.mpr (by decide)))
      simpa [Reference.spelling, pathKinds] using word

theorem Machine.steps_path {words : List String} (hne : words ≠ []) {ts : List Token}
    (h : ts.map (·.kind) = pathKinds words) (m : Machine) (before : List String) :
    { m with state := .namespaceWord before }.steps ts =
      .ok { m with state := .namespaceTail (before ++ words) } := by
  induction words generalizing ts before with
  | nil => exact absurd rfl hne
  | cons w words ih =>
    cases words with
    | nil =>
      obtain ⟨t, us, rfl, ht, hus⟩ := List.map_eq_cons_iff.mp h
      obtain rfl : us = [] := by simpa using hus
      simp [steps_cons, steps_nil, step, ht, Except.bind]
    | cons v words =>
      obtain ⟨t, us, rfl, ht, hus⟩ := List.map_eq_cons_iff.mp h
      obtain ⟨u, vs, rfl, hu, hvs⟩ := List.map_eq_cons_iff.mp hus
      have rest := ih (by simp) hvs (before ++ [w])
      simpa [steps_cons, step, ht, hu, Except.bind] using rest

theorem comment_not_mem_pathKinds (words : List String) : TokenKind.comment ∉ pathKinds words := by
  induction words with
  | nil => simp [pathKinds]
  | cons w words ih =>
    cases words with
    | nil => simp [pathKinds]
    | cons v words => simpa [pathKinds] using ih

theorem significant_of_kinds {ts : List Token} {kinds : List TokenKind}
    (h : ts.map (·.kind) = kinds) (hk : TokenKind.comment ∉ kinds) : significant ts = ts := by
  refine significant_of_noComment fun t ht hc => hk ?_
  rw [← h, ← hc]
  exact List.mem_map_of_mem ht

def namespaceKinds (words : List String) (ending : List TokenKind) : List TokenKind :=
  .word "namespace" :: .whitespace :: (pathKinds words ++ ending)

theorem spelled_namespace {words : List String} (hne : words ≠ [])
    (hall : ∀ w ∈ words, isWord w = true) {rest : List Char} (hr : Halts isWordChar rest)
    {ending : List TokenKind} (h : Spelled rest ending) :
    Spelled ("namespace".toList ++ ' ' :: ((Reference.spelling words).toList ++ rest))
      (namespaceKinds words ending) := by
  have path := h.path hne hall hr
  have gap := path.cons (lexeme_space (Machine.halts_path ⟨words, hne, hall, rfl⟩ rest))
  exact gap.cons (lexeme_word (by decide) (halts_cons.mpr (by decide)))

theorem Machine.steps_namespace {m : Machine} (hm : m.state = .topLevel)
    (hb : m.inBlock = false) {words : List String} (hne : words ≠ []) {ending : List TokenKind}
    {ts : List Token} (h : ts.map (·.kind) = namespaceKinds words ending) :
    ∃ us, us.map (·.kind) = ending ∧
      m.steps ts = { m with state := .namespaceTail words }.steps us := by
  obtain ⟨t, ts, rfl, ht, hts⟩ := List.map_eq_cons_iff.mp h
  obtain ⟨u, ts, rfl, hu, hts⟩ := List.map_eq_cons_iff.mp hts
  obtain ⟨path, us, rfl, hpath, hus⟩ := List.map_eq_append_iff.mp hts
  refine ⟨us, hus, ?_⟩
  have start : m.step t = .ok { m with state := .namespaceGap } := by
    simp [step, stepTopLevel, hm, ht, hb]
  have gap : { m with state := .namespaceGap }.step u =
      .ok { m with state := .namespaceWord [] } := by
    simp [step, isWhitespace, hu]
  rw [steps_cons, start, Except.bind, steps_cons, gap, Except.bind, steps_append,
    steps_path hne hpath]
  rfl

theorem Item.halts {item : Item} (h : item.WellFormed) (rest : List Char) :
    Halts isBlank (item.text.toList ++ rest) := by
  cases item with
  | statement ns | opening ns => simp [text, halts_cons, show isBlank 'n' = false by decide]
  | closing => simp [text, halts_cons, show isBlank '\x7d' = false by decide]
  | declaration text =>
    obtain ⟨tail, htail⟩ := IsDeclaration.keyword h
    simp [Item.text, ← htail, halts_cons, show isBlank 'd' = false by decide]

def Machine.Follows (m : Machine) (item : Item) (o : Except Failure Machine) : Prop :=
  match (⟨m.ns, m.inBlock⟩ : Scope).step item with
  | .error e => ∃ failure, o = .error failure ∧ failure.fault.message = e.message
  | .ok next =>
    ∃ definitions, o = .ok ⟨next.ns, next.inBlock, m.definitions ++ definitions, .topLevel⟩ ∧
      List.Forall₂ (fun r => Denotes r.1 r.2) (item.recorded m.ns) definitions

theorem Machine.follows_error {m : Machine} {item : Item} {e : ScopeError} {failure : Failure}
    (h : (⟨m.ns, m.inBlock⟩ : Scope).step item = .error e)
    (he : failure.fault.message = e.message) : m.Follows item (.error failure) := by
  rw [Follows, h]
  exact ⟨failure, rfl, he⟩

structure Item.Reads (item : Item) (ts : List Token) : Prop where
  lexes : Lexes 0 item.text.toList ts
  alone : EndsAlone ts
  follows : ∀ (m : Machine) us, m.state = .topLevel → us.map unlined = ts.map unlined →
    m.Follows item (m.steps (significant us))

theorem Machine.steps_nested {m : Machine} (hm : m.state = .topLevel) (hb : m.inBlock = true)
    {words : List String} {ending : List TokenKind} {ts : List Token}
    (h : ts.map (·.kind) = namespaceKinds words ending) :
    ∃ line, m.steps ts = .error ⟨line, .nestedNamespaces⟩ := by
  obtain ⟨t, ts, rfl, ht, -⟩ := List.map_eq_cons_iff.mp h
  refine ⟨t.line, ?_⟩
  rw [steps_cons, step, hm]
  simp [stepTopLevel, ht, hb, Except.bind]

theorem Item.exists_reads_namespace {item : Item} {words : List String} (hne : words ≠ [])
    {ending : List TokenKind} {c : Char}
    (hspelled : Spelled item.text.toList (namespaceKinds words (ending ++ [.symbol c])))
    (hcomment : TokenKind.comment ∉ ending) (hc : standsAlone c = true) (hp : c ≠ '.')
    (hnested : ∀ s : Scope, s.inBlock = true → s.step item = .error .nested)
    (hopen : ∀ (m : Machine) us, m.inBlock = false → us.map (·.kind) = ending ++ [.symbol c] →
      m.Follows item ({ m with state := .namespaceTail words }.steps us)) :
    ∃ ts, item.Reads ts := by
  obtain ⟨ts, hl, hk⟩ := hspelled 0
  have alone : EndsAlone ts := by
    refine endsAlone_of_kinds (namespaceKinds words ending) ?_ hc hp
    simpa [namespaceKinds] using hk
  refine ⟨ts, hl, alone, fun m us hm hus => ?_⟩
  have kinds := (kinds_of_unlined hus).trans hk
  rw [significant_of_kinds kinds (by simp [namespaceKinds, comment_not_mem_pathKinds, hcomment])]
  cases hb : m.inBlock with
  | true =>
    obtain ⟨line, hs⟩ := Machine.steps_nested hm hb kinds
    rw [hs]
    exact Machine.follows_error (hnested _ hb) rfl
  | false =>
    obtain ⟨vs, hvs, hs⟩ := Machine.steps_namespace hm hb hne kinds
    rw [hs]
    exact hopen m vs hb hvs

theorem Item.exists_reads_statement {ns : String} (h : IsPath ns) :
    ∃ ts, (Item.statement ns).Reads ts := by
  obtain ⟨words, hne, hall, rfl⟩ := h
  have semicolon : Spelled [';'] ([] ++ [.symbol ';']) :=
    spelled_nil.cons (lexeme_symbol (by decide) [])
  have spelled : Spelled (Item.statement (Reference.spelling words)).text.toList
      (namespaceKinds words ([] ++ [.symbol ';'])) := by
    simpa [text] using spelled_namespace hne hall (halts_cons.mpr (by decide)) semicolon
  refine exists_reads_namespace hne spelled (by simp) (by decide)
    (by decide) (fun s hs => by simp [Scope.step, hs]) fun m us hb hus => ?_
  obtain ⟨t, vs, rfl, ht, hvs⟩ := List.map_eq_cons_iff.mp hus
  obtain rfl : vs = [] := by simpa using hvs
  simp [Machine.Follows, Scope.step, hb, Item.recorded, Machine.steps_cons, Machine.steps_nil,
    Machine.step, Machine.stepNamespaceEnd, ht, Except.bind]

def boxText : String := "data Box = Box \x7b Item $x \x7d deriving (V);"

end Datatypes.Declaration
