import Mathlib.Logic.Function.Basic
import Datatypes.Class.Source

/-!
Running the methods of a class. A statement works on the local variables and on a heap of
objects, which are maps from field names to values. The laws of values that are copied before
they are changed hold exactly for the classes in which no field is called `this` or `new`: the
first name cannot be a parameter, and the second is the variable in which the copy is kept.
-/

namespace Datatypes.Class

inductive Datum (α : Type) where
  | null
  | given (a : α)
  | object (address : Nat)

abbrev Object (α : Type) := String → Datum α

abbrev Heap (α : Type) := List (Object α)

structure Frame (α : Type) where
  bindings : String → Option (Datum α)
  heap : Heap α

variable {α : Type}

def execute : List Statement → Frame α → Option (Datum α × Heap α)
  | [], f => some (.null, f.heap)
  | .blank :: rest, f => execute rest f
  | .setField object field value :: rest, f =>
    match f.bindings object, f.bindings value with
    | some (.object i), some x =>
      f.heap[i]?.bind fun o =>
        execute rest { f with heap := f.heap.set i (Function.update o field x) }
    | _, _ => none
  | .cloneThis target :: rest, f =>
    match f.bindings "this" with
    | some (.object i) =>
      f.heap[i]?.bind fun o => execute rest
        ⟨Function.update f.bindings target (some (.object f.heap.length)), f.heap ++ [o]⟩
    | _ => none
  | .returnField object field :: _, f =>
    match f.bindings object with
    | some (.object i) => f.heap[i]?.map fun o => (o field, f.heap)
    | _ => none
  | .returnVariable name :: _, f => (f.bindings name).map (·, f.heap)

def locals (receiver : Nat) (names : List String) (arguments : List (Datum α)) :
    String → Option (Datum α) :=
  fun x => if x = "this" then some (.object receiver) else (names.zip arguments).lookup x

/-- A call of a method, which can have no parameter called `this`. -/
def call (m : Method) (receiver : Nat) (arguments : List (Datum α)) (heap : Heap α) :
    Option (Datum α × Heap α) :=
  let names := m.parameters.map (·.name)
  if "this" ∈ names ∨ names.length ≠ arguments.length then none
  else execute m.body ⟨locals receiver names arguments, heap⟩

def fieldNames (c : Constructor) (v : Convention) : List String :=
  c.arguments.map (·.name) ++ v.privateAttributes.map (·.name)

def members (c : Constructor) (v : Convention) : List Attribute :=
  c.arguments.map .ofArgument ++ v.privateAttributes

theorem names_members (c : Constructor) (v : Convention) :
    (members c v).map (·.name) = fieldNames c v := by
  simp [members, fieldNames, Attribute.ofArgument]

structure CopyOnWrite (unit : SourceUnit) (c : Constructor) (v : Convention) : Prop where
  declared : ∀ m ∈ Method.constructor (c.arguments.map .ofArgument) ::
      ((members c v).map Method.accessor ++ (members c v).map Method.mutator),
    ∃ before after, unit.source = text (before ++ m.lines ++ after)
  construct : ∀ {α : Type} (heap : Heap α) (initial : Object α) (values : List (Datum α)),
    values.length = c.arguments.length →
    ∃ heap', call (.constructor (c.arguments.map .ofArgument)) heap.length values
          (heap ++ [initial]) = some (.null, heap') ∧
      ∀ (i : Nat) a x, c.arguments[i]? = some a → values[i]? = some x →
        call (.accessor (.ofArgument a)) heap.length [] heap' = some (x, heap')
  mutate : ∀ {α : Type} (heap : Heap α) (this : Nat) (original : Object α) (x : Datum α),
    heap[this]? = some original → ∀ a ∈ members c v,
    ∃ new heap', call (.mutator a) this [x] heap = some (.object new, heap') ∧
      call (.accessor a) new [] heap' = some (x, heap') ∧
      (∃ copy, heap'[new]? = some copy ∧ ∀ field, field ≠ a.name → copy field = original field) ∧
      heap'[this]? = some original

theorem call_accessor (a : Attribute) {receiver : Nat} {heap : Heap α} {o : Object α}
    (h : heap[receiver]? = some o) :
    call (.accessor a) receiver [] heap = some (o a.name, heap) := by
  simp [call, Method.accessor, execute, locals, h]

theorem call_mutator (a : Attribute) {receiver : Nat} {heap : Heap α} {o : Object α} (x : Datum α)
    (h : heap[receiver]? = some o) (hthis : a.name ≠ "this") (hnew : a.name ≠ "new") :
    call (.mutator a) receiver [x] heap =
      some (.object heap.length, heap ++ [Function.update o a.name x]) := by
  simp [call, Method.mutator, execute, locals, h, hthis, hnew, hthis.symm]

theorem call_mutator_new (a : Attribute) {receiver : Nat} {heap : Heap α} {o : Object α}
    (x : Datum α) (h : heap[receiver]? = some o) (hnew : a.name = "new") :
    call (.mutator a) receiver [x] heap =
      some (.object heap.length, heap ++ [Function.update o "new" (.object heap.length)]) := by
  simp [call, Method.mutator, execute, locals, h, hnew]

theorem call_mutator_this (a : Attribute) (receiver : Nat) (heap : Heap α) (x : Datum α)
    (hthis : a.name = "this") : call (.mutator a) receiver [x] heap = none := by
  simp [call, Method.mutator, hthis]

def assign (value : String → Datum α) (names : List String) (o : Object α) : Object α :=
  names.foldl (fun o name => Function.update o name (value name)) o

theorem assign_apply (value : String → Datum α) (names : List String) (o : Object α)
    (name : String) : assign value names o name = if name ∈ names then value name else o name := by
  induction names generalizing o with
  | nil => simp [assign]
  | cons n names ih =>
    have step : assign value (n :: names) o =
        assign value names (Function.update o n (value n)) := rfl
    rw [step, ih]
    by_cases hn : name = n
    · subst hn
      simp
    · simp [hn]

theorem execute_assignments (value : String → Datum α) (as : List Attribute) {f : Frame α}
    {receiver : Nat} {o : Object α} (hthis : f.bindings "this" = some (.object receiver))
    (hvalue : ∀ a ∈ as, f.bindings a.name = some (value a.name))
    (ho : f.heap[receiver]? = some o) :
    execute (as.map fun a => .setField "this" a.name a.name) f =
      some (.null, f.heap.set receiver (assign value (as.map (·.name)) o)) := by
  induction as generalizing f o with
  | nil =>
    have same : f.heap.set receiver o = f.heap := by
      obtain ⟨hlt, rfl⟩ := List.getElem?_eq_some_iff.mp ho
      exact List.set_getElem_self hlt
    simp [execute, assign, same]
  | cons a as ih =>
    have hlt : receiver < f.heap.length := (List.getElem?_eq_some_iff.mp ho).1
    let f' : Frame α :=
      { f with heap := f.heap.set receiver (Function.update o a.name (value a.name)) }
    have rest : execute (as.map fun a => .setField "this" a.name a.name) f' = _ :=
      ih hthis (fun b hb => hvalue b (by simp [hb])) (List.getElem?_set_self hlt)
    rw [List.map_cons, execute, hthis, hvalue a (by simp)]
    simp only [ho, Option.bind_some]
    rw [rest, List.set_set]
    rfl

theorem lookup_zip_of_nodup {names : List String} {values : List (Datum α)} (h : names.Nodup)
    {i : Nat} {name : String} {x : Datum α} (hn : names[i]? = some name)
    (hx : values[i]? = some x) : (names.zip values).lookup name = some x := by
  induction names generalizing values i with
  | nil => simp at hn
  | cons n names ih =>
    obtain ⟨hnot, hnames⟩ := List.nodup_cons.mp h
    cases values with
    | nil => simp at hx
    | cons y values =>
      cases i with
      | zero =>
        obtain rfl : n = name := by simpa using hn
        obtain rfl : y = x := by simpa using hx
        simp
      | succ i =>
        have hne : (name == n) = false := by
          rw [beq_eq_false_iff_ne]
          rintro rfl
          exact hnot (List.mem_of_getElem? hn)
        rw [List.zip_cons_cons, List.lookup_cons, hne]
        exact ih hnames hn hx

theorem call_constructor {as : List Attribute} (hnames : (as.map (·.name)).Nodup)
    (hthis : ∀ a ∈ as, a.name ≠ "this") (heap : Heap α) (initial : Object α)
    {values : List (Datum α)} (hlength : values.length = as.length) :
    ∃ o : Object α, call (.constructor as) heap.length values (heap ++ [initial]) =
        some (.null, heap ++ [o]) ∧
      ∀ (i : Nat) a x, as[i]? = some a → values[i]? = some x → o a.name = x := by
  have hargs : "this" ∉ as.map (·.name) := by
    intro h
    obtain ⟨a, ha, hn⟩ := List.mem_map.mp h
    exact hthis a ha hn
  let vars : String → Option (Datum α) := locals heap.length (as.map (·.name)) values
  let value : String → Datum α := fun name => (vars name).getD .null
  have hvars {i : Nat} {a : Attribute} {x : Datum α} (ha : as[i]? = some a)
      (hx : values[i]? = some x) : vars a.name = some x := by
    have hne := hthis a (List.mem_of_getElem? ha)
    simp only [vars, locals, hne, if_false]
    exact lookup_zip_of_nodup hnames (by simp [ha]) hx
  have hvalue : ∀ a ∈ as, vars a.name = some (value a.name) := by
    intro a ha
    obtain ⟨i, hi⟩ := List.mem_iff_getElem?.mp ha
    obtain ⟨x, hx⟩ : ∃ x, values[i]? = some x := by
      have := (List.getElem?_eq_some_iff.mp hi).1
      exact ⟨values[i], List.getElem?_eq_getElem _⟩
    simp [value, hvars hi hx]
  refine ⟨assign value (as.map (·.name)) initial, ?_, ?_⟩
  · have run := execute_assignments value as (f := ⟨vars, heap ++ [initial]⟩) rfl hvalue
      (by simp : (heap ++ [initial])[heap.length]? = some initial)
    simp only [call, Method.constructor, hargs, List.length_map, hlength, ne_eq, not_true_eq_false,
      or_self, if_false]
    rw [run]
    simp
  · intro i a x ha hx
    have hmem : a.name ∈ as.map (·.name) := List.mem_map_of_mem (List.mem_of_getElem? ha)
    rw [assign_apply, if_pos hmem]
    simp [value, hvars ha hx]

theorem infix_intercalate {β : Type} {sep x : List β} {xs : List (List β)} (h : x ∈ xs) :
    x <:+: sep.intercalate xs := by
  obtain ⟨i, hi⟩ := List.mem_iff_getElem?.mp h
  have hmem : x ∈ xs.intersperse sep :=
    List.mem_of_getElem? (List.getElem?_intersperse_two_mul.trans hi)
  exact List.infix_of_mem_flatten hmem

theorem source_of_assemble {d : Definition} {v : Convention} {unit : SourceUnit}
    (h : assemble d v = .ok unit) : unit.source = text (lines d v) := by
  rw [assemble] at h
  split at h
  · cases h
  · cases h
    rfl

theorem methods_eq (c : Constructor) (v : Convention) :
    methods c v = .constructor (c.arguments.map .ofArgument) ::
      ((members c v).map .accessor ++ (members c v).map .mutator) := rfl

theorem declared_of_assemble {d : Definition} {v : Convention} {unit : SourceUnit}
    (h : assemble d v = .ok unit) {m : Method} (hm : m ∈ methods d.constructor v) :
    ∃ before after, unit.source = text (before ++ m.lines ++ after) := by
  have hblock : m.lines ∈ blocks d.constructor v := by
    simp only [blocks, List.mem_append, List.mem_map]
    exact .inr ⟨m, hm, rfl⟩
  have hlines : m.lines <:+: lines d v :=
    (infix_intercalate hblock).trans (List.infix_append _ _ _)
  obtain ⟨before, after, hb⟩ := hlines
  exact ⟨before, after, by rw [source_of_assemble h, hb]⟩

theorem copyOnWrite_of_names {d : Definition} {v : Convention} {unit : SourceUnit}
    (h : assemble d v = .ok unit) (hnames : (fieldNames d.constructor v).Nodup)
    (hfree : ∀ name ∈ fieldNames d.constructor v, name ≠ "this" ∧ name ≠ "new") :
    CopyOnWrite unit d.constructor v where
  declared := by
    intro m hm
    rw [← methods_eq] at hm
    exact declared_of_assemble h hm
  construct := by
    intro α heap initial values hlength
    let as := d.constructor.arguments.map Attribute.ofArgument
    have names : as.map (·.name) = d.constructor.arguments.map (·.name) := by
      simp [as, Attribute.ofArgument]
    have hargs : (as.map (·.name)).Nodup := by
      rw [names]
      exact (List.nodup_append.mp hnames).1
    have hthis : ∀ a ∈ as, a.name ≠ "this" := by
      intro a ha
      refine (hfree a.name (List.mem_append_left _ ?_)).1
      rw [← names]
      exact List.mem_map_of_mem ha
    obtain ⟨o, hcall, ho⟩ := call_constructor hargs hthis heap initial
      (hlength.trans (by simp [as]))
    refine ⟨heap ++ [o], hcall, ?_⟩
    intro i a x ha hx
    have given : as[i]? = some (.ofArgument a) := by simp [as, ha]
    rw [call_accessor _ (by simp : (heap ++ [o])[heap.length]? = some o), ho i _ x given hx]
  mutate := by
    intro α heap this original x horiginal a ha
    have named : a.name ∈ fieldNames d.constructor v := by
      rw [← names_members]
      exact List.mem_map_of_mem ha
    obtain ⟨hthis, hnew⟩ := hfree a.name named
    let copy := Function.update original a.name x
    have hcopy : (heap ++ [copy])[heap.length]? = some copy := by simp
    refine ⟨heap.length, heap ++ [copy], call_mutator a x horiginal hthis hnew, ?_,
      ⟨copy, hcopy, ?_⟩, ?_⟩
    · rw [call_accessor a hcopy]
      simp [copy]
    · intro field hfield
      simp [copy, hfield]
    · rw [List.getElem?_append_left (List.getElem?_eq_some_iff.mp horiginal).1, horiginal]

theorem names_of_copyOnWrite {unit : SourceUnit} {c : Constructor} {v : Convention}
    (h : CopyOnWrite unit c v) {name : String} (hname : name ∈ fieldNames c v) :
    name ≠ "this" ∧ name ≠ "new" := by
  rw [← names_members] at hname
  obtain ⟨a, ha, rfl⟩ := List.mem_map.mp hname
  let o : Object Unit := fun _ => .null
  obtain ⟨new, heap', hcall, hread, -, -⟩ := h.mutate [o] 0 o .null rfl a ha
  constructor
  · intro hthis
    rw [call_mutator_this a _ _ _ hthis] at hcall
    cases hcall
  · intro hnew
    rw [call_mutator_new a _ rfl hnew] at hcall
    cases hcall
    rw [call_accessor a (o := Function.update o "new" (.object 1)) rfl, hnew] at hread
    simp at hread

/-- A class whose fields have distinct names keeps the laws if, and only if, none of its fields
is called like the receiver or like the copy of a mutator. -/
theorem copyOnWrite_iff {d : Definition} {v : Convention} {unit : SourceUnit}
    (h : assemble d v = .ok unit) (hnames : (fieldNames d.constructor v).Nodup) :
    CopyOnWrite unit d.constructor v ↔
      ∀ name ∈ fieldNames d.constructor v, name ≠ "this" ∧ name ≠ "new" :=
  ⟨fun hc _ hname => names_of_copyOnWrite hc hname, copyOnWrite_of_names h hnames⟩

def account : Definition where
  ns := "Bank"
  name := "Account"
  constructor := ⟨"Bank\\Account",
    [⟨"id", "string", false, false⟩, ⟨"owner", "Bank\\Owner", true, false⟩]⟩
  deriv := .named "ComplexClassType"
  conditions := []
  messageName := none

theorem copyOnWrite_account : ∃ unit, assemble account .complexClassType = .ok unit ∧
    (fieldNames account.constructor .complexClassType).Nodup ∧
    CopyOnWrite unit account.constructor .complexClassType := by
  have h : assemble account .complexClassType =
      .ok ⟨account.qualifiedName, text (lines account .complexClassType)⟩ := rfl
  have hnames : (fieldNames account.constructor .complexClassType).Nodup := by decide
  exact ⟨_, h, hnames, (copyOnWrite_iff h hnames).mpr (by decide)⟩

def renewal : Definition where
  ns := ""
  name := "Renewal"
  constructor := ⟨"Renewal", [⟨"new", "int", false, false⟩]⟩
  deriv := .named "ValueObject"
  conditions := []
  messageName := none

theorem not_copyOnWrite_renewal : ∃ unit, assemble renewal .valueObject = .ok unit ∧
    (fieldNames renewal.constructor .valueObject).Nodup ∧
    ¬ CopyOnWrite unit renewal.constructor .valueObject := by
  refine ⟨⟨renewal.qualifiedName, text (lines renewal .valueObject)⟩, rfl, by decide, ?_⟩
  intro h
  exact (names_of_copyOnWrite h (List.mem_singleton.mpr rfl)).2 rfl

end Datatypes.Class
