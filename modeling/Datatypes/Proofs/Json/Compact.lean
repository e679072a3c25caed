import Mathlib
import Datatypes.Json.Reader
import Datatypes.Proofs.Token.Lexeme

/-!
The compact text of a value determines the value. A text is read back by the reader of texts, a
number ends at the first character that no number has, and behind every item and every field
stands a comma or the mark that closes the list.
-/

namespace Datatypes.Json

open Text

theorem hexNumber?_control {n : Nat} (h : n < 32) :
    hexNumber? ['0', '0', hexDigit (n / 16), hexDigit (n % 16)] = some n := by
  revert n
  decide

theorem readCodeUnits_control {c : Char} (h : c.toNat < 32) (rest : List Char) :
    readCodeUnits true ('0' :: '0' :: hexDigit (c.toNat / 16) :: hexDigit (c.toNat % 16) :: rest) =
      some (c, rest) := by
  have unit : readUnit ('0' :: '0' :: hexDigit (c.toNat / 16) :: hexDigit (c.toNat % 16) :: rest) =
      some (c.toNat, rest) := by
    simp [readUnit, hexNumber?_control h]
  have low : ¬ (0xD800 ≤ c.toNat) := by omega
  have scalar : scalar? c.toNat = some c := by
    rw [scalar?, if_pos (.inl (by omega)), Char.ofNat_toNat]
  simp [readCodeUnits, unit, low, scalar]

theorem readBody_escapeChar (c : Char) {rest body rest' : List Char}
    (h : readBody true rest = some (body, rest')) :
    readBody true (escapeChar c ++ rest) = some (c :: body, rest') := by
  unfold escapeChar
  split
  case h_8 quote backslash _ _ _ _ _ =>
    split
    · next low =>
      have unit := readCodeUnits_control low rest
      simp only [List.cons_append, List.nil_append]
      rw [readBody]
      split
      · next hu => rw [unit] at hu; cases hu
      · next hu =>
        rw [unit] at hu
        cases hu
        simp [h]
    · next high =>
      have kept : ¬ (c.toNat < 0x20 || c = '\\') = true := by simpa [high] using backslash
      rw [List.singleton_append, readBody, if_neg kept, h]
      · rfl
      · exact quote
      · exact fun _ hc => absurd hc backslash
      · exact fun _ _ hc => absurd hc backslash
  all_goals simp [readBody, escaped?, h]

theorem readBody_escape (cs rest : List Char) :
    readBody true (cs.flatMap escapeChar ++ '"' :: rest) = some (cs, rest) := by
  induction cs with
  | nil => simp [readBody]
  | cons c cs ih =>
    rw [List.flatMap_cons, List.append_assoc]
    exact readBody_escapeChar c ih

theorem readText_quote (s : String) (rest : List Char) :
    readText true ((quote s).toList ++ rest) = some (s, rest) := by
  have text : (quote s).toList ++ rest = '"' :: (s.toList.flatMap escapeChar ++ '"' :: rest) := by
    simp [quote]
  rw [text, readText, readBody_escape]
  simp

theorem quote_inj {s t : String} {rest rest' : List Char}
    (same : (quote s).toList ++ rest = (quote t).toList ++ rest') : s = t ∧ rest = rest' := by
  have read := congrArg (readText true) same
  rw [readText_quote, readText_quote] at read
  simpa using read

def isNumberChar (c : Char) : Bool := c.isDigit || c = '-'

def commaed : List (List Char) → List Char
  | [] => []
  | x :: xs => x ++ xs.flatMap (',' :: ·)

section Lists

variable {α : Type} {text : α → List Char} {close : Char}

/-- Where no number goes on, the two texts can be told apart from what stands behind them. -/
def Apart (text : α → List Char) (x y : α) : Prop :=
  ∀ rest rest', Halts isNumberChar rest → Halts isNumberChar rest' →
    text x ++ rest = text y ++ rest' → x = y ∧ rest = rest'

theorem halts_tail (hclose : isNumberChar close = false) (xs : List (List Char))
    (rest : List Char) : Halts isNumberChar (xs.flatMap (',' :: ·) ++ close :: rest) := by
  cases xs with
  | nil => exact halts_cons.mpr hclose
  | cons x xs => exact halts_cons.mpr (by decide)

theorem tail_inj (hclose : isNumberChar close = false) (hcomma : close ≠ ',') {xs ys : List α}
    (apart : ∀ x ∈ xs, ∀ y ∈ ys, Apart text x y) {rest rest' : List Char}
    (same : (xs.map text).flatMap (',' :: ·) ++ close :: rest =
      (ys.map text).flatMap (',' :: ·) ++ close :: rest') : xs = ys ∧ rest = rest' := by
  induction xs generalizing ys with
  | nil =>
    cases ys with
    | nil => simpa using same
    | cons y ys =>
      have first := congrArg List.head? same
      exact absurd (by simpa using first) hcomma
  | cons x xs ih =>
    cases ys with
    | nil =>
      have first := congrArg List.head? same
      exact absurd (by simpa using first.symm) hcomma
    | cons y ys =>
      simp only [List.map_cons, List.flatMap_cons, List.cons_append, List.append_assoc,
        List.cons.injEq, true_and] at same
      obtain ⟨rfl, behind⟩ := apart x (by simp) y (by simp) _ _ (halts_tail hclose _ _)
        (halts_tail hclose _ _) same
      obtain ⟨rfl, hrest⟩ := ih (fun a ha b hb => apart a (by simp [ha]) b (by simp [hb])) behind
      exact ⟨rfl, hrest⟩

theorem commaed_inj (hclose : isNumberChar close = false) (hcomma : close ≠ ',') {xs ys : List α}
    (apart : ∀ x ∈ xs, ∀ y ∈ ys, Apart text x y)
    (hxs : ∀ x ∈ xs, ∃ c cs, text x = c :: cs ∧ c ≠ close)
    (hys : ∀ y ∈ ys, ∃ c cs, text y = c :: cs ∧ c ≠ close) {rest rest' : List Char}
    (same : commaed (xs.map text) ++ close :: rest = commaed (ys.map text) ++ close :: rest') :
    xs = ys ∧ rest = rest' := by
  cases xs with
  | nil =>
    cases ys with
    | nil => simpa [commaed] using same
    | cons y ys =>
      obtain ⟨c, cs, hy, hc⟩ := hys y (by simp)
      rw [List.map_cons, commaed, hy] at same
      exact absurd (by simpa [commaed] using (congrArg List.head? same).symm) hc
  | cons x xs =>
    cases ys with
    | nil =>
      obtain ⟨c, cs, hx, hc⟩ := hxs x (by simp)
      rw [List.map_cons, commaed, hx] at same
      exact absurd (by simpa [commaed] using congrArg List.head? same) hc
    | cons y ys =>
      simp only [List.map_cons, commaed, List.append_assoc] at same
      obtain ⟨rfl, behind⟩ := apart x (by simp) y (by simp) _ _ (halts_tail hclose _ _)
        (halts_tail hclose _ _) same
      obtain ⟨rfl, hrest⟩ := tail_inj hclose hcomma
        (fun a ha b hb => apart a (by simp [ha]) b (by simp [hb])) behind
      exact ⟨rfl, hrest⟩

end Lists

def fieldText (field : String × Json) : List Char :=
  (quote field.1).toList ++ ':' :: field.2.compact.toList

theorem toList_compactItems (items : List Json) :
    (compactItems items).toList = commaed (items.map fun item => item.compact.toList) := by
  induction items with
  | nil => rfl
  | cons item items ih =>
    cases items with
    | nil => simp [compactItems, commaed]
    | cons next items => simp [compactItems, commaed, ih]

theorem toList_compactFields (fields : List (String × Json)) :
    (compactFields fields).toList = commaed (fields.map fieldText) := by
  induction fields with
  | nil => rfl
  | cons field fields ih =>
    cases fields with
    | nil => simp [compactFields, commaed, fieldText]
    | cons next fields => simp [compactFields, commaed, fieldText, ih]

/-- All numbers of the value are written without a fraction and an exponent. -/
inductive Whole : Json → Prop
  | null : Whole .null
  | bool {value : Bool} : Whole (.bool value)
  | number {literal : String} :
      literal ≠ "" → (∀ c ∈ literal.toList, isNumberChar c = true) → Whole (.number literal)
  | string {value : String} : Whole (.string value)
  | array {items : List Json} : (∀ item ∈ items, Whole item) → Whole (.array items)
  | object {fields : List (String × Json)} :
      (∀ field ∈ fields, Whole field.2) → Whole (.object fields)

/-- The character with which the text of a value starts; every number counts as zero. -/
def lead : Json → Char
  | .null => 'n'
  | .bool true => 't'
  | .bool false => 'f'
  | .number _ => '0'
  | .string _ => '"'
  | .array _ => '['
  | .object _ => '\x7b'

theorem exists_head_compact {a : Json} (h : a.Whole) :
    ∃ c cs, a.compact.toList = c :: cs ∧ (if isNumberChar c then '0' else c) = a.lead := by
  cases h with
  | @number literal hne hall =>
    obtain ⟨c, cs, hcs⟩ := List.exists_cons_of_ne_nil (by simpa using hne : literal.toList ≠ [])
    exact ⟨c, cs, by rw [compact, hcs], if_pos (hall c (by simp [hcs]))⟩
  | @bool value => cases value <;> simp [compact, lead, isNumberChar]
  | _ => simp [compact, quote, lead, isNumberChar]

theorem exists_head_ne_bracket {a : Json} (h : a.Whole) :
    ∃ c cs, a.compact.toList = c :: cs ∧ c ≠ ']' := by
  obtain ⟨c, cs, hcs, hc⟩ := exists_head_compact h
  refine ⟨c, cs, hcs, ?_⟩
  rintro rfl
  cases h with
  | @bool value => cases value <;> simp [lead, isNumberChar] at hc
  | _ => simp [lead, isNumberChar] at hc

theorem lead_eq {a b : Json} (ha : a.Whole) (hb : b.Whole) {rest rest' : List Char}
    (same : a.compact.toList ++ rest = b.compact.toList ++ rest') : a.lead = b.lead := by
  obtain ⟨c, cs, hcs, hc⟩ := exists_head_compact ha
  obtain ⟨d, ds, hds, hd⟩ := exists_head_compact hb
  rw [hcs, hds] at same
  obtain rfl : c = d := by simpa using congrArg List.head? same
  rw [← hc, hd]

theorem apart_fieldText {field field' : String × Json}
    (h : Apart (fun a : Json => a.compact.toList) field.2 field'.2) :
    Apart fieldText field field' := by
  intro rest rest' hr hr' same
  simp only [fieldText, List.append_assoc] at same
  obtain ⟨key, behind⟩ := quote_inj same
  simp only [List.cons_append, List.cons.injEq, true_and] at behind
  obtain ⟨value, hrest⟩ := h rest rest' hr hr' behind
  exact ⟨Prod.ext key value, hrest⟩

theorem Whole.apart {a b : Json} (ha : a.Whole) (hb : b.Whole) :
    Apart (fun a : Json => a.compact.toList) a b := by
  induction ha generalizing b with
  | null =>
    intro rest rest' _ _ same
    have kind := lead_eq .null hb same
    cases hb with
    | null => exact ⟨rfl, by simpa using same⟩
    | @bool value => cases value <;> simp [lead] at kind
    | _ => simp [lead] at kind
  | @bool value =>
    intro rest rest' _ _ same
    have kind := lead_eq .bool hb same
    cases hb with
    | @bool value' =>
      cases value <;> cases value'
      · exact ⟨rfl, by simpa using same⟩
      · exact absurd kind (by decide)
      · exact absurd kind (by decide)
      · exact ⟨rfl, by simpa using same⟩
    | _ => cases value <;> simp [lead] at kind
  | @number literal hne hall =>
    intro rest rest' hr hr' same
    have kind := lead_eq (.number hne hall) hb same
    cases hb with
    | number hne' hall' =>
      obtain ⟨digits, hrest⟩ := append_inj_of_halts hall hall' hr hr'
        (by simpa [compact] using same)
      exact ⟨congrArg Json.number (String.toList_inj.mp digits), hrest⟩
    | @bool value => cases value <;> simp [lead] at kind
    | _ => simp [lead] at kind
  | string =>
    intro rest rest' _ _ same
    have kind := lead_eq .string hb same
    cases hb with
    | string =>
      obtain ⟨value, hrest⟩ := quote_inj (by simpa [compact] using same)
      exact ⟨congrArg Json.string value, hrest⟩
    | @bool value => cases value <;> simp [lead] at kind
    | _ => simp [lead] at kind
  | @array items hitems ih =>
    intro rest rest' _ _ same
    have kind := lead_eq (.array hitems) hb same
    cases hb with
    | @array items' hitems' =>
      have texts : commaed (items.map fun item => item.compact.toList) ++ ']' :: rest =
          commaed (items'.map fun item => item.compact.toList) ++ ']' :: rest' := by
        simpa [compact, toList_compactItems] using same
      obtain ⟨rfl, hrest⟩ := commaed_inj (by decide) (by decide)
        (fun x hx y hy => ih x hx (hitems' y hy))
        (fun x hx => exists_head_ne_bracket (hitems x hx))
        (fun y hy => exists_head_ne_bracket (hitems' y hy)) texts
      exact ⟨rfl, hrest⟩
    | @bool value => cases value <;> simp [lead] at kind
    | _ => simp [lead] at kind
  | @object fields hfields ih =>
    intro rest rest' _ _ same
    have kind := lead_eq (.object hfields) hb same
    cases hb with
    | @object fields' hfields' =>
      have texts : commaed (fields.map fieldText) ++ '\x7d' :: rest =
          commaed (fields'.map fieldText) ++ '\x7d' :: rest' := by
        simpa [compact, toList_compactFields] using same
      have quoted (field : String × Json) : ∃ c cs, fieldText field = c :: cs ∧ c ≠ '\x7d' :=
        ⟨'"', _, by simp [fieldText, quote]; rfl, by decide⟩
      obtain ⟨rfl, hrest⟩ := commaed_inj (by decide) (by decide)
        (fun x hx y hy => apart_fieldText (ih x hx (hfields' y hy)))
        (fun x _ => quoted x) (fun y _ => quoted y) texts
      exact ⟨rfl, hrest⟩
    | @bool value => cases value <;> simp [lead] at kind
    | _ => simp [lead] at kind

theorem compact_inj {a b : Json} (ha : a.Whole) (hb : b.Whole) (same : a.compact = b.compact) :
    a = b :=
  (ha.apart hb [] [] (halts_nil _) (halts_nil _) (by simp [same])).1

theorem isDigit_of_mem_repr {n : Nat} {c : Char} (h : c ∈ n.repr.toList) :
    c.isDigit = true := by
  rw [Nat.toList_repr] at h
  exact Nat.isDigit_of_mem_toDigits (by decide) (by decide) h

theorem ofInt_inj {m n : Int} (h : ofInt m = ofInt n) : m = n :=
  Int.repr_injective (Json.number.inj h)

theorem whole_ofInt (n : Int) : (ofInt n).Whole := by
  have digits (k : Nat) : k.repr ≠ "" := by
    intro h
    have none := congrArg String.toList h
    rw [Nat.toList_repr] at none
    exact Nat.toDigits_ne_nil none
  cases n with
  | ofNat k =>
    exact .number (digits k) fun c hc => by
      simp [isNumberChar, isDigit_of_mem_repr hc]
  | negSucc k =>
    have spelled : toString (Int.negSucc k) = "-" ++ (k + 1).repr := rfl
    refine .number (by simp [spelled]) fun c hc => ?_
    rw [spelled, String.toList_append, List.mem_append] at hc
    rcases hc with hc | hc
    · simp [isNumberChar, show c = '-' by simpa using hc]
    · simp [isNumberChar, isDigit_of_mem_repr hc]

end Datatypes.Json
