import Datatypes.Proofs.Token.Spelling

/-!
Texts one behind the other. Where a text starts changes the lines of its tokens only; the tokens
of a text can be cut off with the text that they spell; and behind a mark that joins with nothing
any other text can follow.
-/

namespace Datatypes

theorem Text.Halts.of_head {p : Char → Bool} {c : Char} {cs : List Char}
    (h : Halts p (c :: cs)) (ds : List Char) : Halts p (c :: ds) :=
  halts_cons.mpr (halts_cons.mp h)

namespace Token

open Text

def unlined (t : Token) : Token := { t with line := 0 }

@[simp] theorem unlined_kind (t : Token) : t.unlined.kind = t.kind := rfl

@[simp] theorem unlined_isSymbol (t : Token) (c : Char) :
    t.unlined.isSymbol c = t.isSymbol c := rfl

@[simp] theorem unlined_isWhitespace (t : Token) : t.unlined.isWhitespace = t.isWhitespace := rfl

theorem kinds_of_unlined {ts us : List Token} (h : ts.map unlined = us.map unlined) :
    ts.map (·.kind) = us.map (·.kind) := by
  simpa [Function.comp_def] using congrArg (List.map (·.kind)) h

theorem Lexes.exists_at {line : Nat} {cs : List Char} {ts : List Token} (h : Lexes line cs ts)
    (line' : Nat) : ∃ us, Lexes line' cs us ∧ us.map unlined = ts.map unlined := by
  induction h generalizing line' with
  | nil => exact ⟨[], .nil, rfl⟩
  | @cons line kind text rest ts hl _ ih =>
    obtain ⟨us, hus, same⟩ := ih (line' + text.count '\n')
    refine ⟨_, .cons hl hus, ?_⟩
    simp [unlined, ← same]

theorem Lexes.eq_nil {line : Nat} {ts : List Token} (h : Lexes line [] ts) : ts = [] := by
  generalize hcs : ([] : List Char) = cs at h
  cases h with
  | nil => rfl
  | cons hl _ => exact absurd (List.append_eq_nil_iff.mp hcs.symm).1 hl.ne_nil

theorem Lexes.split {line : Nat} {cs : List Char} {ts us : List Token}
    (h : Lexes line cs (ts ++ us)) :
    ∃ front rest, cs = front ++ rest ∧ Lexes line front ts ∧
      Lexes (line + front.count '\n') rest us := by
  induction ts generalizing line cs with
  | nil => exact ⟨[], cs, rfl, .nil, by simpa using h⟩
  | cons t ts ih =>
    cases h with
    | @cons _ kind text tail _ hl hts =>
      obtain ⟨front, rest, rfl, hfront, hrest⟩ := ih hts
      refine ⟨text ++ front, rest, by simp, .cons (hl.truncate (List.prefix_append _ _)) hfront, ?_⟩
      rwa [List.count_append, ← Nat.add_assoc]

theorem startsFraction_of_ne {c : Char} (hc : c ≠ '.') (cs : List Char) :
    startsFraction (c :: cs) = false := by
  simp [startsFraction, hc]

theorem Lexeme.of_head {kind : TokenKind} {text rest rest' : List Char} {c : Char}
    (h : Lexeme kind text (c :: rest)) (hf : startsFraction (c :: rest') = false) :
    Lexeme kind text (c :: rest') := by
  -- A lexeme ends where it does because of the next character, unless that starts a fraction.
  cases h with
  | whitespace h hr => exact .whitespace h (hr.of_head rest')
  | hashComment h hr => exact .hashComment h (hr.of_head rest')
  | lineComment h hr => exact .lineComment h (hr.of_head rest')
  | blockComment h => exact .blockComment h
  | quoted hq h => exact .quoted hq h
  | integer h hr _ => exact .integer h (hr.of_head rest') hf
  | decimal h he hr => exact .decimal h he (hr.of_head rest')
  | word hs h hr => exact .word hs h (hr.of_head rest')
  | var hs h hr => exact .var hs h (hr.of_head rest')
  | separator => exact .separator
  | arrow => exact .arrow
  | symbol hp hj => exact .symbol hp (by simpa [joins] using hj)

theorem Lexeme.text_symbol {c : Char} {text rest : List Char}
    (h : Lexeme (.symbol c) text rest) : text = [c] := by
  generalize hk : TokenKind.symbol c = kind at h
  cases h with
  | symbol => cases hk; rfl
  | integer =>
    rw [ofDigits] at hk
    split at hk <;> cases hk
  | _ => cases hk

def EndsAlone (ts : List Token) : Prop :=
  ∀ t ∈ ts.getLast?, ∃ c, t.kind = .symbol c ∧ standsAlone c = true ∧ c ≠ '.'

theorem EndsAlone.tail {t : Token} {ts : List Token} (h : EndsAlone (t :: ts)) : EndsAlone ts := by
  intro u hu
  refine h u ?_
  rw [List.getLast?_cons, Option.mem_def.mp hu]
  rfl

theorem endsAlone_concat {ts : List Token} {t : Token} {c : Char} (h : t.kind = .symbol c)
    (hc : standsAlone c = true) (hp : c ≠ '.') : EndsAlone (ts ++ [t]) := by
  intro u hu
  obtain rfl : t = u := by simpa using hu
  exact ⟨c, h, hc, hp⟩

theorem endsAlone_of_kinds {ts : List Token} (kinds : List TokenKind) {c : Char}
    (h : ts.map (·.kind) = kinds ++ [.symbol c]) (hc : standsAlone c = true) (hp : c ≠ '.') :
    EndsAlone ts := by
  obtain ⟨us, vs, rfl, -, hvs⟩ := List.map_eq_append_iff.mp h
  obtain ⟨t, ws, rfl, ht, hws⟩ := List.map_eq_cons_iff.mp hvs
  obtain rfl : ws = [] := by simpa using hws
  exact endsAlone_concat ht hc hp

theorem Lexes.append {line : Nat} {cs rest : List Char} {ts us : List Token}
    (h : Lexes line cs ts) (alone : EndsAlone ts)
    (hrest : Lexes (line + cs.count '\n') rest us) : Lexes line (cs ++ rest) (ts ++ us) := by
  induction h with
  | nil => simpa using hrest
  | @cons line kind text middle ts hl hts ih =>
    rw [List.count_append, ← Nat.add_assoc] at hrest
    rw [List.append_assoc]
    refine .cons ?_ (ih alone.tail hrest)
    cases hts with
    | nil =>
      obtain ⟨c, hk, hc, -⟩ := alone _ rfl
      obtain rfl : kind = .symbol c := hk
      rw [hl.text_symbol]
      exact lexeme_symbol hc _
    | @cons _ kind' text' last ts' hl' hts' =>
      obtain ⟨x, tail, rfl⟩ := List.exists_cons_of_ne_nil hl'.ne_nil
      cases hlast : tail ++ last with
      | cons y ys =>
        refine hl.lookahead ?_
        simp [hlast]
      | nil =>
        -- What is left is one character, the mark at the end.
        obtain ⟨rfl, rfl⟩ := List.append_eq_nil_iff.mp hlast
        obtain rfl := hts'.eq_nil
        obtain ⟨c, hk, -, hc⟩ := alone _ rfl
        obtain rfl : kind' = .symbol c := hk
        obtain rfl : x = c := by simpa using hl'.text_symbol
        exact hl.of_head (startsFraction_of_ne hc rest)

end Token

end Datatypes
