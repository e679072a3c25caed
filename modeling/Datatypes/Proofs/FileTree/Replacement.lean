import Datatypes.Proofs.FileTree.Growth

/-!
Files that are overwritten. Where files are there already, setting them changes nothing but their
contents: two of them can be set in any order, of two at one place the later counts, and a list of
them that has been set once can be set again without any change.
-/

namespace Datatypes.FileTree

def Holds (es : List (String × Node)) (names : List String) (name : String) (c : ByteArray) :
    Prop :=
  match names with
  | [] => es.lookup name = some (.file c)
  | step :: names => ∃ inner, es.lookup step = some (.directory inner) ∧ Holds inner names name c

def HasRoom (es : List (String × Node)) (names : List String) (name : String) : Prop :=
  match names with
  | [] => ∀ inner, es.lookup name ≠ some (.directory inner)
  | step :: names => ∃ inner, es.lookup step = some (.directory inner) ∧ HasRoom inner names name

section Entries

variable {es : List (String × Node)} {a b : String} {m n : Node}

theorem setEntry_setEntry (es : List (String × Node)) (a : String) (m n : Node) :
    setEntry (setEntry es a m) a n = setEntry es a n := by
  induction es with
  | nil => simp [setEntry]
  | cons e es ih =>
    obtain ⟨key, old⟩ := e
    by_cases hk : key = a
    · simp [setEntry, hk]
    · simp [setEntry, hk, ih]

theorem setEntry_comm (hab : a ≠ b) (ha : es.lookup a ≠ none) (hb : es.lookup b ≠ none) :
    setEntry (setEntry es a m) b n = setEntry (setEntry es b n) a m := by
  induction es with
  | nil => simp at ha
  | cons e es ih =>
    obtain ⟨key, old⟩ := e
    by_cases hka : key = a
    · subst hka
      simp [setEntry, hab]
    · by_cases hkb : key = b
      · subst hkb
        simp [setEntry, hka]
      · rw [lookup_cons_of_ne (Ne.symm hka)] at ha
        rw [lookup_cons_of_ne (Ne.symm hkb)] at hb
        simp [setEntry, hka, hkb, ih ha hb]

theorem setEntry_self (h : es.lookup a = some n) : setEntry es a n = es := by
  induction es with
  | nil => cases h
  | cons e es ih =>
    obtain ⟨key, old⟩ := e
    by_cases hk : key = a
    · subst hk
      obtain rfl : old = n := by simpa using h
      simp [setEntry]
    · rw [lookup_cons_of_ne (Ne.symm hk)] at h
      simp [setEntry, hk, ih h]

end Entries

section Places

variable {es : List (String × Node)} {ns ms : List String} {a b : String} {c d x y : ByteArray}

theorem Holds.hasRoom (h : Holds es ns a c) : HasRoom es ns a := by
  induction ns generalizing es with
  | nil =>
    intro inner hi
    rw [Holds] at h
    rw [h] at hi
    cases hi
  | cons step ns ih =>
    obtain ⟨inner, hl, h⟩ := h
    exact ⟨inner, hl, ih h⟩

theorem setIn_cons {step : String} {inner : List (String × Node)}
    (h : es.lookup step = some (.directory inner)) (ns : List String) (a : String) (n : Node) :
    setIn es (step :: ns) a n = setEntry es step (.directory (setIn inner ns a n)) := by
  rw [setIn, h]

theorem holds_setIn (h : HasRoom es ns a) (c : ByteArray) :
    Holds (setIn es ns a (.file c)) ns a c := by
  induction ns generalizing es with
  | nil => simp [Holds, setIn, lookup_setEntry]
  | cons step ns ih =>
    obtain ⟨inner, hl, h⟩ := h
    rw [setIn_cons hl]
    exact ⟨_, by simp [lookup_setEntry], ih h⟩

theorem Holds.setIn_of_ne (h : Holds es ns a c) (hm : HasRoom es ms b) (hne : (ms, b) ≠ (ns, a))
    (n : Node) : Holds (setIn es ms b n) ns a c := by
  induction ms generalizing es ns with
  | nil =>
    cases ns with
    | nil =>
      have hab : a ≠ b := by
        rintro rfl
        exact hne rfl
      rwa [Holds, setIn, lookup_setEntry, if_neg hab]
    | cons step ns =>
      obtain ⟨inner, hl, h⟩ := h
      have hsb : step ≠ b := by
        rintro rfl
        exact hm inner hl
      exact ⟨inner, by rwa [setIn, lookup_setEntry, if_neg hsb], h⟩
  | cons step ms ih =>
    obtain ⟨inner, hl, hm⟩ := hm
    rw [setIn_cons hl]
    cases ns with
    | nil =>
      have has : a ≠ step := by
        rintro rfl
        rw [Holds, hl] at h
        cases h
      rwa [Holds, lookup_setEntry, if_neg has]
    | cons step' ns =>
      obtain ⟨inner', hl', h⟩ := h
      by_cases hs : step' = step
      · subst hs
        obtain rfl : inner = inner' := by simpa [hl] using hl'
        refine ⟨_, by simp [lookup_setEntry], ih h hm ?_⟩
        simpa using hne
      · exact ⟨inner', by rwa [lookup_setEntry, if_neg hs], h⟩

theorem setIn_setIn (h : HasRoom es ns a) :
    setIn (setIn es ns a (.file x)) ns a (.file y) = setIn es ns a (.file y) := by
  induction ns generalizing es with
  | nil => exact setEntry_setEntry ..
  | cons step ns ih =>
    obtain ⟨inner, hl, h⟩ := h
    have hl' : (setIn es (step :: ns) a (.file x)).lookup step =
        some (.directory (setIn inner ns a (.file x))) := by
      rw [setIn_cons hl, lookup_setEntry, if_pos rfl]
    rw [setIn_cons hl', setIn_cons hl, setIn_cons hl, setEntry_setEntry, ih h]

theorem setIn_comm (ha : Holds es ns a c) (hb : Holds es ms b d) (hne : (ns, a) ≠ (ms, b)) :
    setIn (setIn es ns a (.file x)) ms b (.file y) =
      setIn (setIn es ms b (.file y)) ns a (.file x) := by
  induction ns generalizing es ms with
  | nil =>
    cases ms with
    | nil =>
      have hab : a ≠ b := by
        rintro rfl
        exact hne rfl
      rw [Holds] at ha hb
      exact setEntry_comm hab (by simp [ha]) (by simp [hb])
    | cons step ms =>
      obtain ⟨inner, hl, hb⟩ := hb
      rw [Holds] at ha
      have has : step ≠ a := by
        rintro rfl
        rw [ha] at hl
        cases hl
      have hl' : (setIn es [] a (.file x)).lookup step = some (.directory inner) := by
        rwa [setIn, lookup_setEntry, if_neg has]
      rw [setIn_cons hl', setIn_cons hl, setIn, setIn]
      exact setEntry_comm has.symm (by simp [ha]) (by simp [hl])
  | cons step ns ih =>
    obtain ⟨inner, hl, ha⟩ := ha
    cases ms with
    | nil =>
      rw [Holds] at hb
      have hbs : step ≠ b := by
        rintro rfl
        rw [hb] at hl
        cases hl
      have hl' : (setIn es [] b (.file y)).lookup step = some (.directory inner) := by
        rwa [setIn, lookup_setEntry, if_neg hbs]
      rw [setIn_cons hl', setIn_cons hl, setIn, setIn]
      exact setEntry_comm hbs (by simp [hl]) (by simp [hb])
    | cons step' ms =>
      obtain ⟨inner', hl', hb⟩ := hb
      by_cases hs : step' = step
      · subst hs
        obtain rfl : inner = inner' := by simpa [hl] using hl'
        have first : (setIn es (step' :: ns) a (.file x)).lookup step' =
            some (.directory (setIn inner ns a (.file x))) := by
          rw [setIn_cons hl, lookup_setEntry, if_pos rfl]
        have second : (setIn es (step' :: ms) b (.file y)).lookup step' =
            some (.directory (setIn inner ms b (.file y))) := by
          rw [setIn_cons hl, lookup_setEntry, if_pos rfl]
        rw [setIn_cons first, setIn_cons second, setIn_cons hl, setIn_cons hl, setEntry_setEntry,
          setEntry_setEntry, ih ha hb (by simpa using hne)]
      · have first : (setIn es (step :: ns) a (.file x)).lookup step' =
            some (.directory inner') := by
          rwa [setIn_cons hl, lookup_setEntry, if_neg hs]
        have second : (setIn es (step' :: ms) b (.file y)).lookup step =
            some (.directory inner) := by
          rwa [setIn_cons hl', lookup_setEntry, if_neg (Ne.symm hs)]
        rw [setIn_cons first, setIn_cons second, setIn_cons hl, setIn_cons hl']
        exact setEntry_comm (Ne.symm hs) (by simp [hl]) (by simp [hl'])

theorem setIn_self (h : Holds es ns a c) : setIn es ns a (.file c) = es := by
  induction ns generalizing es with
  | nil => exact setEntry_self h
  | cons step ns ih =>
    obtain ⟨inner, hl, h⟩ := h
    rw [setIn_cons hl, ih h]
    exact setEntry_self hl

end Places

structure Entry where
  names : List String
  name : String
  content : ByteArray

namespace Entry

def place (w : Entry) : List String × String := (w.names, w.name)

def put (es : List (String × Node)) (w : Entry) : List (String × Node) :=
  setIn es w.names w.name (.file w.content)

end Entry

def putAll (es : List (String × Node)) (ws : List Entry) : List (String × Node) :=
  ws.foldl Entry.put es

def leftAt (place : List String × String) (c : ByteArray) : List Entry → ByteArray
  | [] => c
  | w :: ws => leftAt place (if w.place = place then w.content else c) ws

def Settled (es : List (String × Node)) : List Entry → Prop
  | [] => True
  | w :: ws => Holds es w.names w.name (leftAt w.place w.content ws) ∧ Settled es ws

section PutAll

variable {es : List (String × Node)} {w : Entry} {ws : List Entry} {ns : List String} {a : String}
  {c x : ByteArray}

theorem Holds.put (h : Holds es ns a c) (hw : HasRoom es w.names w.name) :
    Holds (w.put es) ns a (if w.place = (ns, a) then w.content else c) := by
  split
  · next heq =>
    cases heq
    exact holds_setIn hw _
  · next hne => exact h.setIn_of_ne hw hne _

theorem put_setIn {d : ByteArray} (h : Holds es ns a c) (hw : Holds es w.names w.name d) :
    w.put (setIn es ns a (.file x)) =
      setIn (w.put es) ns a (.file (if w.place = (ns, a) then w.content else x)) := by
  split
  · next heq =>
    cases heq
    rw [Entry.put, Entry.put, setIn_setIn h.hasRoom, setIn_setIn h.hasRoom]
  · next hne => exact setIn_comm h hw (Ne.symm hne)

theorem putAll_setIn (h : Holds es ns a c)
    (hws : ∀ w ∈ ws, ∃ d, Holds es w.names w.name d) :
    putAll (setIn es ns a (.file x)) ws =
      setIn (putAll es ws) ns a (.file (leftAt (ns, a) x ws)) := by
  induction ws generalizing es x c with
  | nil => rfl
  | cons w ws ih =>
    obtain ⟨d, hw⟩ := hws w (by simp)
    have rest : ∀ v ∈ ws, ∃ d, Holds (w.put es) v.names v.name d := by
      intro v hv
      obtain ⟨e, he⟩ := hws v (by simp [hv])
      exact ⟨_, he.put hw.hasRoom⟩
    rw [putAll, List.foldl_cons, put_setIn h hw]
    exact ih (h.put hw.hasRoom) rest

theorem Settled.holds (h : Settled es ws) : ∀ w ∈ ws, ∃ d, Holds es w.names w.name d := by
  induction ws with
  | nil => simp
  | cons v ws ih =>
    intro w hw
    rcases List.mem_cons.mp hw with rfl | hw
    · exact ⟨_, h.1⟩
    · exact ih h.2 w hw

theorem Settled.putAll (h : Settled es ws) : putAll es ws = es := by
  induction ws with
  | nil => rfl
  | cons w ws ih =>
    rw [FileTree.putAll, List.foldl_cons, Entry.put]
    have later := putAll_setIn (x := w.content) h.1 h.2.holds
    rw [ih h.2] at later
    exact later.trans (setIn_self h.1)

end PutAll

end Datatypes.FileTree
