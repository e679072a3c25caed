import Datatypes.Proofs.Token.Joining
import Mathlib.Data.List.DropRight

/-!
Tokens written one behind the other. Each of them can be read from its own text; the text of all of
them is read as the same tokens exactly where none of them makes a longer token together with what
stands behind it. White space is left out of this: pieces of it run together without harm, and at
both ends it can be dropped.
-/

namespace Datatypes.Token

open Text

variable {kind : TokenKind} {text rest : List Char} {t : Token} {ts us : List Token}

def starts (p : Char → Bool) (cs : List Char) : Bool := cs.head?.any p

theorem halts_iff {p : Char → Bool} {cs : List Char} : Halts p cs ↔ starts p cs = false := by
  cases cs <;> simp [Halts, starts]

def clings (kind : TokenKind) (rest : List Char) : Bool :=
  match kind with
  | .word _ | .var _ => starts isWordChar rest
  | .int _ => starts Char.isDigit rest || startsFraction rest
  | .decimal digits =>
    starts Char.isDigit rest || (digits.toList.all Char.isDigit && startsFraction rest)
  | .symbol c => joins c rest
  | _ => false

theorem clings_ofDigits {digits : List Char} (h : ∀ x ∈ digits, x.isDigit = true) :
    clings (ofDigits digits) rest = (starts Char.isDigit rest || startsFraction rest) := by
  rw [ofDigits]
  split
  · rfl
  · have all : digits.all Char.isDigit = true := List.all_eq_true.mpr h
    simp [clings, all]

theorem Lexeme.clings_eq_false (h : Lexeme kind text rest) : clings kind rest = false := by
  cases h with
  | integer hd hr hf => simp [clings_ofDigits hd, halts_iff.mp hr, hf]
  | decimal _ _ hr => simp [clings, halts_iff.mp hr, show ('.').isDigit = false by decide]
  | word _ _ hr | var _ _ hr => exact halts_iff.mp hr
  | symbol _ hj => exact hj
  | _ => rfl

theorem Lexeme.extend (h : Lexeme kind text []) (hk : kind ≠ .comment)
    (hc : clings kind rest = false) (hw : kind = .whitespace → Halts isBlank rest) :
    Lexeme kind text rest := by
  cases h with
  | whitespace h _ => exact .whitespace h (hw rfl)
  | hashComment | lineComment | blockComment => exact absurd rfl hk
  | quoted hq h => exact .quoted hq h
  | integer hd _ _ =>
    rw [clings_ofDigits hd, Bool.or_eq_false_iff] at hc
    exact .integer hd (halts_iff.mpr hc.1) hc.2
  | decimal hd he _ =>
    rw [clings, Bool.or_eq_false_iff] at hc
    exact .decimal hd he (halts_iff.mpr hc.1)
  | word hs h _ => exact .word hs h (halts_iff.mpr hc)
  | var hs h _ => exact .var hs h (halts_iff.mpr hc)
  | separator => exact .separator
  | arrow => exact .arrow
  | symbol hp _ => exact .symbol hp hc

def Writes (text rest : List Char) : TokenKind → Prop
  | .whitespace => (∀ x ∈ text, isBlank x = true) ∧ Halts isBlank rest
  | .comment => True
  | .word w => text = w.toList
  | .var v => text = '$' :: v.toList
  | .separator => text = ['\\']
  | .quoted s => ∃ quote, text = quote :: (s.toList ++ [quote])
  | .int _ => (∀ x ∈ text, x.isDigit = true) ∧ Halts Char.isDigit rest
  | .decimal digits => text = digits.toList
  | .arrow => text = ['=', '>']
  | .symbol c => text = [c]

theorem Lexeme.writes (h : Lexeme kind text rest) : Writes text rest kind := by
  cases h with
  | whitespace h hr => exact ⟨h, hr⟩
  | hashComment | lineComment | blockComment => trivial
  | @quoted quote => exact ⟨quote, by simp⟩
  | integer hd hr _ =>
    rw [ofDigits]
    split
    · exact ⟨hd, hr⟩
    · simp [Writes]
  | separator | arrow | symbol => rfl
  | decimal | word | var => simp [Writes]

theorem Writes.text_eq {text' rest' : List Char} (h : Writes text [] kind)
    (h' : Writes text' rest' kind) (hk : kind ≠ .comment) (heq : text ++ rest = text' ++ rest')
    (hw : kind = .whitespace → Halts isBlank rest)
    (hd : ∀ n, kind = .int n → Halts Char.isDigit rest) : text = text' := by
  cases kind with
  | whitespace => exact (append_inj_of_halts h.1 h'.1 (hw rfl) h'.2 heq).1
  | int n => exact (append_inj_of_halts h.1 h'.1 (hd n rfl) h'.2 heq).1
  | comment => exact absurd rfl hk
  | quoted s =>
    obtain ⟨quote, rfl⟩ := h
    obtain ⟨quote', rfl⟩ := h'
    obtain ⟨rfl, -⟩ := List.cons.inj heq
    rfl
  | word | var | separator | decimal | arrow | symbol => exact h.trans h'.symm

def isNumber : TokenKind → Bool
  | .int _ | .decimal _ => true
  | _ => false

theorem Lexeme.starts_isDigit (h : Lexeme kind text rest) (more : List Char) :
    starts Char.isDigit (text ++ more) = isNumber kind := by
  cases h with
  | integer hd _ _ =>
    rw [ofDigits]
    split <;> simpa [starts, isNumber] using hd _ (by simp)
  | decimal hd _ _ => simpa [starts, isNumber] using hd _ (by simp)
  | whitespace h _ => simpa [starts, isNumber] using isDigit_of_isBlank (h _ (by simp))
  | word hs _ _ => simpa [starts, isNumber] using isDigit_of_isWordStart hs
  | quoted hq _ =>
    simp only [isQuote, Bool.or_eq_true, decide_eq_true_eq] at hq
    rcases hq with rfl | rfl <;> rfl
  | symbol hp _ =>
    simp only [isPlain, Bool.and_eq_true, Bool.not_eq_true'] at hp
    simpa [starts, isNumber] using hp.1.1.2
  | _ => rfl

def chars (ts : List Token) : List Char := ts.flatMap (·.text.toList)

theorem chars_cons (t : Token) (ts : List Token) : chars (t :: ts) = t.text.toList ++ chars ts :=
  rfl

theorem chars_concat (ts : List Token) (t : Token) :
    chars (ts ++ [t]) = chars ts ++ t.text.toList := by
  simp [chars]

structure IsWhole (t : Token) : Prop where
  alone : Lexeme t.kind t.text.toList []
  kept : t.kind ≠ .comment

theorem Lexes.isWhole {line : Nat} {cs : List Char} (h : Lexes line cs ts) :
    ∀ t ∈ ts, t.kind ≠ .comment → t.IsWhole := by
  induction h with
  | nil => simp
  | cons hl _ ih =>
    refine List.forall_mem_cons.mpr ⟨fun hk => ⟨?_, hk⟩, ih⟩
    simpa using hl.truncate List.nil_prefix

theorem Lexes.chars_eq {line : Nat} {cs : List Char} (h : Lexes line cs ts) : chars ts = cs := by
  induction h with
  | nil => rfl
  | cons _ _ ih => rw [chars_cons, ih, String.toList_ofList]

def Clings (ts : List Token) : Prop :=
  ∃ before t after, ts = before ++ t :: after ∧ clings t.kind (chars after) = true

theorem not_clings_nil : ¬ Clings [] := by
  rintro ⟨before, t, after, h, -⟩
  simp at h

theorem clings_cons : Clings (t :: ts) ↔ clings t.kind (chars ts) = true ∨ Clings ts := by
  constructor
  · rintro ⟨before, u, after, h, hc⟩
    cases before with
    | nil =>
      obtain ⟨rfl, rfl⟩ := List.cons.inj h
      exact .inl hc
    | cons v before =>
      obtain ⟨rfl, rfl⟩ := List.cons.inj h
      exact .inr ⟨before, u, after, rfl, hc⟩
  · rintro (hc | ⟨before, u, after, rfl, hc⟩)
    · exact ⟨[], t, ts, rfl, hc⟩
    · exact ⟨t :: before, u, after, rfl, hc⟩

instance decidableClings : ∀ ts, Decidable (Clings ts)
  | [] => isFalse not_clings_nil
  | _ :: ts =>
    have := decidableClings ts
    decidable_of_iff _ clings_cons.symm

theorem Lexes.not_clings {line : Nat} {cs : List Char} (h : Lexes line cs ts) : ¬ Clings ts := by
  induction h with
  | nil => exact not_clings_nil
  | cons hl hts ih =>
    rw [clings_cons, not_or, hts.chars_eq]
    exact ⟨by simpa using hl.clings_eq_false, ih⟩

def Parted (ts : List Token) : Prop :=
  ts.IsChain fun t u => t.kind = .whitespace → u.kind ≠ .whitespace

theorem IsWhole.halts_isBlank (h : t.IsWhole) (ht : t.kind ≠ .whitespace) (more : List Char) :
    Halts isBlank (t.text.toList ++ more) := by
  obtain ⟨c, cs, hcs⟩ := List.exists_cons_of_ne_nil h.alone.ne_nil
  have alone := h.alone
  rw [hcs] at alone ⊢
  refine halts_cons.mpr ?_
  by_contra hb
  exact ht (lexeme_of_blank (by simpa using hb) alone).1

theorem Parted.halts_isBlank (h : Parted (t :: ts)) (whole : ∀ u ∈ ts, u.IsWhole)
    (ht : t.kind = .whitespace) : Halts isBlank (chars ts) := by
  cases ts with
  | nil => exact halts_nil _
  | cons u ts =>
    have hu : u.kind ≠ .whitespace := (List.isChain_cons_cons.mp h).1 ht
    exact (whole u (by simp)).halts_isBlank hu _

theorem Lexes.of_not_clings (whole : ∀ t ∈ ts, t.IsWhole) (parted : Parted ts)
    (h : ¬ Clings ts) (line : Nat) :
    ∃ us, Lexes line (chars ts) us ∧ us.map (·.kind) = ts.map (·.kind) := by
  induction ts generalizing line with
  | nil => exact ⟨[], .nil, rfl⟩
  | cons t ts ih =>
    obtain ⟨here, behind⟩ := not_or.mp (mt clings_cons.mpr h)
    have first := whole t (by simp)
    have rest : ∀ u ∈ ts, u.IsWhole := fun u hu => whole u (by simp [hu])
    have lexeme : Lexeme t.kind t.text.toList (chars ts) :=
      first.alone.extend first.kept (by simpa using here) (parted.halts_isBlank rest)
    obtain ⟨us, hus, same⟩ := ih rest parted.of_cons behind (line + t.text.toList.count '\n')
    exact ⟨_, .cons lexeme hus, by simp [same]⟩

theorem Lexes.halts_isDigit {line : Nat} {cs : List Char} (h : Lexes line cs us)
    (whole : ∀ t ∈ ts, t.IsWhole) (same : us.map (·.kind) = ts.map (·.kind))
    (hcs : Halts Char.isDigit cs) : Halts Char.isDigit (chars ts) := by
  cases h with
  | nil =>
    obtain rfl : ts = [] := by simpa using same.symm
    exact halts_nil _
  | cons hl _ =>
    obtain ⟨t, ts, rfl, ht, -⟩ := List.map_eq_cons_iff.mp same.symm
    rw [halts_iff, hl.starts_isDigit] at hcs
    rw [halts_iff, chars_cons, (whole t (by simp)).alone.starts_isDigit, ht]
    exact hcs

theorem Lexes.not_clings_of_kinds {line : Nat} (whole : ∀ t ∈ ts, t.IsWhole) (parted : Parted ts)
    (h : Lexes line (chars ts) us) (same : us.map (·.kind) = ts.map (·.kind)) : ¬ Clings ts := by
  induction ts generalizing line us with
  | nil => exact not_clings_nil
  | cons t ts ih =>
    have first := whole t (by simp)
    have rest : ∀ u ∈ ts, u.IsWhole := fun u hu => whole u (by simp [hu])
    rw [chars_cons] at h
    generalize hcs : t.text.toList ++ chars ts = cs at h
    cases h with
    | nil => simp at same
    | @cons _ kind text tail us hl hus =>
      obtain ⟨hkind, later⟩ := List.cons.inj same
      obtain rfl : kind = t.kind := hkind
      have text_eq : t.text.toList = text := by
        refine first.alone.writes.text_eq hl.writes first.kept hcs (parted.halts_isBlank rest) ?_
        -- An integer might be read with more digits, as `0` and `00` are of one kind; then the
        -- token behind it would have to begin with a digit too, and would have been read with it.
        intro n hn
        have written := hl.writes
        rw [hn] at written
        exact hus.halts_isDigit rest later written.2
      obtain rfl := text_eq
      obtain rfl := List.append_cancel_left hcs
      rw [clings_cons, not_or]
      exact ⟨by simpa using hl.clings_eq_false, ih rest parted.of_cons hus later⟩

def absorb (t : Token) : List Token → List Token
  | [] => [t]
  | u :: us =>
    if t.kind = .whitespace ∧ u.kind = .whitespace then { u with text := t.text ++ u.text } :: us
    else t :: u :: us

def glue : List Token → List Token
  | [] => []
  | t :: ts => absorb t (glue ts)

def mergeBlanks : List TokenKind → List TokenKind
  | [] => []
  | k :: ks =>
    if k = .whitespace ∧ ks.head? = some .whitespace then mergeBlanks ks else k :: mergeBlanks ks

theorem chars_absorb (t : Token) (us : List Token) :
    chars (absorb t us) = t.text.toList ++ chars us := by
  cases us with
  | nil => rfl
  | cons u us =>
    rw [absorb]
    split
    · simp [chars_cons]
    · rfl

theorem chars_glue (ts : List Token) : chars (glue ts) = chars ts := by
  induction ts with
  | nil => rfl
  | cons t ts ih => rw [glue, chars_absorb, ih, chars_cons]

theorem clings_absorb : Clings (absorb t us) ↔ clings t.kind (chars us) = true ∨ Clings us := by
  cases us with
  | nil => exact clings_cons
  | cons u us =>
    rw [absorb]
    split
    · next h =>
      rw [clings_cons, clings_cons, h.1]
      simp [h.2, clings]
    · exact clings_cons

theorem clings_glue : Clings (glue ts) ↔ Clings ts := by
  induction ts with
  | nil => rfl
  | cons t ts ih => rw [glue, clings_absorb, chars_glue, ih, clings_cons]

theorem IsWhole.append_blank {u : Token} (ht : t.IsWhole) (hu : u.IsWhole)
    (hk : t.kind = .whitespace) (hk' : u.kind = .whitespace) :
    IsWhole { u with text := t.text ++ u.text } := by
  have front := ht.alone.isBlank_of_whitespace hk
  have back := hu.alone.isBlank_of_whitespace hk'
  obtain ⟨c, cs, hcs⟩ := List.exists_cons_of_ne_nil ht.alone.ne_nil
  refine ⟨?_, hu.kept⟩
  have blank : ∀ x ∈ c :: (cs ++ u.text.toList), isBlank x = true := by
    intro x hx
    rw [← List.cons_append, ← hcs] at hx
    exact (List.mem_append.mp hx).elim (front x) (back x)
  simpa [hk', hcs] using Lexeme.whitespace blank (halts_nil _)

theorem IsWhole.absorb (ht : t.IsWhole) (hus : ∀ u ∈ us, u.IsWhole) :
    ∀ u ∈ absorb t us, u.IsWhole := by
  cases us with
  | nil => simpa [Token.absorb] using ht
  | cons u us =>
    obtain ⟨hu, hus⟩ := List.forall_mem_cons.mp hus
    rw [Token.absorb]
    split
    · next h => exact List.forall_mem_cons.mpr ⟨ht.append_blank hu h.1 h.2, hus⟩
    · exact List.forall_mem_cons.mpr ⟨ht, List.forall_mem_cons.mpr ⟨hu, hus⟩⟩

theorem isWhole_glue (h : ∀ t ∈ ts, t.IsWhole) : ∀ t ∈ glue ts, t.IsWhole := by
  induction ts with
  | nil => exact h
  | cons t ts ih =>
    obtain ⟨ht, hts⟩ := List.forall_mem_cons.mp h
    exact ht.absorb (ih hts)

theorem Parted.absorb (h : Parted us) (t : Token) : Parted (absorb t us) := by
  cases us with
  | nil => exact .singleton _
  | cons u us =>
    rw [Token.absorb]
    split
    · next both =>
      cases us with
      | nil => exact .singleton _
      | cons v us => exact List.isChain_cons_cons.mpr (List.isChain_cons_cons.mp h)
    · next other =>
      exact List.isChain_cons_cons.mpr ⟨fun ht hu => other ⟨ht, hu⟩, h⟩

theorem parted_glue (ts : List Token) : Parted (glue ts) := by
  induction ts with
  | nil => exact .nil
  | cons t ts ih => exact ih.absorb t

theorem head?_kinds_absorb (t : Token) (us : List Token) :
    ((absorb t us).map (·.kind)).head? = some t.kind := by
  cases us with
  | nil => rfl
  | cons u us =>
    rw [absorb]
    split
    · next h => simp [h.1, h.2]
    · rfl

theorem head?_kinds_glue (ts : List Token) :
    ((glue ts).map (·.kind)).head? = (ts.map (·.kind)).head? := by
  cases ts with
  | nil => rfl
  | cons t ts => exact head?_kinds_absorb t _

theorem kinds_absorb (t : Token) (us : List Token) :
    (absorb t us).map (·.kind) =
      if t.kind = .whitespace ∧ (us.map (·.kind)).head? = some .whitespace then us.map (·.kind)
      else t.kind :: us.map (·.kind) := by
  cases us with
  | nil => simp [absorb]
  | cons u us =>
    rw [absorb]
    split <;> simp_all

theorem kinds_glue (ts : List Token) : (glue ts).map (·.kind) = mergeBlanks (ts.map (·.kind)) := by
  induction ts with
  | nil => rfl
  | cons t ts ih =>
    rw [glue, kinds_absorb, head?_kinds_glue, ih, List.map_cons, mergeBlanks]

def dropEnds {α : Type} (p : α → Bool) (xs : List α) : List α := (xs.dropWhile p).rdropWhile p

def squeeze (kinds : List TokenKind) : List TokenKind :=
  mergeBlanks (dropEnds (· = .whitespace) kinds)

theorem halts_append_of_forall {p : Char → Bool} {cs : List Char} (hne : cs ≠ [])
    (h : ∀ x ∈ cs, p x = false) (more : List Char) : Halts p (cs ++ more) := by
  obtain ⟨c, cs, rfl⟩ := List.exists_cons_of_ne_nil hne
  exact halts_cons.mpr (h c (by simp))

theorem isBlank_of_isWordChar {c : Char} (h : isWordChar c = true) : isBlank c = false := by
  by_contra hb
  rw [isWordChar_of_isBlank (by simpa using hb)] at h
  cases h

theorem isBlank_of_isDigit {c : Char} (h : c.isDigit = true) : isBlank c = false := by
  by_contra hb
  rw [isDigit_of_isBlank (by simpa using hb)] at h
  cases h

theorem IsWhole.halts_reverse (h : t.IsWhole) (ht : t.kind ≠ .whitespace) (more : List Char) :
    Halts isBlank (t.text.toList.reverse ++ more) := by
  obtain ⟨alone, kept⟩ := h
  have reversed : t.text.toList.reverse ≠ [] := by simpa using alone.ne_nil
  generalize t.text.toList = text at alone reversed ⊢
  generalize t.kind = kind at alone kept ht
  cases alone with
  | whitespace => exact absurd rfl ht
  | hashComment | lineComment | blockComment => exact absurd rfl kept
  | @quoted quote body _ hq _ =>
    simp only [isQuote, Bool.or_eq_true, decide_eq_true_eq] at hq
    simp only [List.reverse_cons, List.reverse_append, List.reverse_nil, List.nil_append,
      List.cons_append]
    rcases hq with rfl | rfl <;> exact halts_cons.mpr (by decide)
  | integer hd =>
    exact halts_append_of_forall reversed
      (fun x hx => isBlank_of_isDigit (hd x (List.mem_reverse.mp hx))) more
  | @decimal d e ds es _ hd he _ =>
    refine halts_append_of_forall reversed (fun x hx => ?_) more
    have inside := List.mem_reverse.mp hx
    simp only [List.mem_cons, List.mem_append] at inside
    rcases inside with rfl | inside | rfl | inside
    · exact isBlank_of_isDigit (hd _ (by simp))
    · exact isBlank_of_isDigit (hd x (by simp [inside]))
    · decide
    · exact isBlank_of_isDigit (he x (List.mem_cons.mpr inside))
  | word hs hcs =>
    refine halts_append_of_forall reversed (fun x hx => ?_) more
    rcases List.mem_cons.mp (List.mem_reverse.mp hx) with rfl | inside
    · exact isBlank_of_isWordStart hs
    · exact isBlank_of_isWordChar (hcs x inside)
  | var hs hcs =>
    refine halts_append_of_forall reversed (fun x hx => ?_) more
    rcases List.mem_cons.mp (List.mem_reverse.mp hx) with rfl | inside
    · decide
    rcases List.mem_cons.mp inside with rfl | inside
    · exact isBlank_of_isWordStart hs
    · exact isBlank_of_isWordChar (hcs x inside)
  | separator | arrow => exact halts_cons.mpr (by decide)
  | symbol hp _ =>
    simp only [isPlain, Bool.and_eq_true, Bool.not_eq_true'] at hp
    exact halts_cons.mpr hp.1.1.1.1.1

theorem chars_dropWhile (h : ∀ t ∈ ts, t.IsWhole) :
    chars (ts.dropWhile (·.isWhitespace)) = (chars ts).dropWhile isBlank := by
  induction ts with
  | nil => rfl
  | cons t ts ih =>
    obtain ⟨ht, hts⟩ := List.forall_mem_cons.mp h
    by_cases hw : t.kind = .whitespace
    · rw [List.dropWhile_cons_of_pos (by simpa [isWhitespace] using hw), ih hts, chars_cons,
        List.dropWhile_append_of_pos (ht.alone.isBlank_of_whitespace hw)]
    · rw [List.dropWhile_cons_of_neg (by simpa [isWhitespace] using hw), chars_cons,
        dropWhile_of_halts (ht.halts_isBlank hw _)]

theorem chars_rdropWhile (h : ∀ t ∈ ts, t.IsWhole) :
    chars (ts.rdropWhile (·.isWhitespace)) = (chars ts).rdropWhile isBlank := by
  induction ts using List.reverseRecOn with
  | nil => rfl
  | append_singleton ts t ih =>
    have ht : t.IsWhole := h t (by simp)
    have hts : ∀ u ∈ ts, u.IsWhole := fun u hu => h u (by simp [hu])
    by_cases hw : t.kind = .whitespace
    · have blank : ∀ x ∈ t.text.toList.reverse, isBlank x = true := fun x hx =>
        ht.alone.isBlank_of_whitespace hw x (List.mem_reverse.mp hx)
      rw [List.rdropWhile_concat_pos _ _ _ (by simpa [isWhitespace] using hw), ih hts,
        chars_concat, List.rdropWhile, List.rdropWhile, List.reverse_append,
        List.dropWhile_append_of_pos blank]
    · rw [List.rdropWhile_concat_neg _ _ _ (by simpa [isWhitespace] using hw), chars_concat,
        List.rdropWhile, List.reverse_append, dropWhile_of_halts (ht.halts_reverse hw _),
        ← List.reverse_append, List.reverse_reverse]

theorem clings_dropWhile : Clings (ts.dropWhile (·.isWhitespace)) ↔ Clings ts := by
  induction ts with
  | nil => rfl
  | cons t ts ih =>
    by_cases hw : t.kind = .whitespace
    · rw [List.dropWhile_cons_of_pos (by simpa [isWhitespace] using hw), ih, clings_cons, hw]
      simp [clings]
    · rw [List.dropWhile_cons_of_neg (by simpa [isWhitespace] using hw)]

theorem starts_append_blank {p : Char → Bool} (hp : ∀ c, isBlank c = true → p c = false)
    {blanks : List Char} (hb : ∀ x ∈ blanks, isBlank x = true) (cs : List Char) :
    starts p (cs ++ blanks) = starts p cs := by
  cases cs with
  | cons c cs => rfl
  | nil =>
    cases blanks with
    | nil => rfl
    | cons b blanks => exact hp b (hb b (by simp))

theorem clings_append_blank {blanks : List Char} (hb : ∀ x ∈ blanks, isBlank x = true)
    (kind : TokenKind) (cs : List Char) : clings kind (cs ++ blanks) = clings kind cs := by
  have word := starts_append_blank (fun _ => isWordChar_of_isBlank) hb cs
  have digit := starts_append_blank (fun _ => isDigit_of_isBlank) hb cs
  cases blanks with
  | nil => rw [List.append_nil]
  | cons b blanks =>
    have blank : isBlank b = true := hb b (by simp)
    have fraction : startsFraction (cs ++ b :: blanks) = startsFraction cs := by
      cases h : startsFraction cs with
      | false => exact startsFraction_append_blank blank h blanks
      | true =>
        rw [startsFraction.eq_def] at h
        split at h
        · exact h
        · cases h
    have join (c : Char) : joins c (cs ++ b :: blanks) = joins c cs := by
      cases cs with
      | nil => exact joins_append_blank blank rfl blanks
      | cons => rfl
    cases kind with
    | word | var => exact word
    | int | decimal => simp only [clings, digit, fraction]
    | symbol c => exact join c
    | _ => rfl

theorem clings_concat_blank (ht : t.IsWhole) (hw : t.kind = .whitespace) :
    Clings (ts ++ [t]) ↔ Clings ts := by
  induction ts with
  | nil => simp [clings_cons, hw, clings]
  | cons u ts ih =>
    rw [List.cons_append, clings_cons, clings_cons, ih, chars_concat,
      clings_append_blank (ht.alone.isBlank_of_whitespace hw)]

theorem clings_rdropWhile (h : ∀ t ∈ ts, t.IsWhole) :
    Clings (ts.rdropWhile (·.isWhitespace)) ↔ Clings ts := by
  induction ts using List.reverseRecOn with
  | nil => rfl
  | append_singleton ts t ih =>
    by_cases hw : t.kind = .whitespace
    · rw [List.rdropWhile_concat_pos _ _ _ (by simpa [isWhitespace] using hw),
        clings_concat_blank (h t (by simp)) hw]
      exact ih fun u hu => h u (by simp [hu])
    · rw [List.rdropWhile_concat_neg _ _ _ (by simpa [isWhitespace] using hw)]

theorem kinds_dropEnds (ts : List Token) :
    (dropEnds (·.isWhitespace) ts).map (·.kind) =
      dropEnds (· = .whitespace) (ts.map (·.kind)) := by
  simp only [dropEnds, List.rdropWhile, List.dropWhile_map, ← List.map_reverse]
  rfl

theorem mem_of_mem_dropEnds {α : Type} {p : α → Bool} {xs : List α} {x : α}
    (h : x ∈ dropEnds p xs) : x ∈ xs :=
  (List.dropWhile_suffix p).subset ((List.rdropWhile_prefix p _).subset h)

/-- The text of tokens, without white space around it, is read as these tokens, with pieces of white
space run together, exactly if none of them clings to what stands behind it. -/
theorem lex_trim_iff (h : ∀ t ∈ ts, t.IsWhole) :
    (∃ us, lex (trim (String.join (ts.map (·.text)))) = .ok us ∧
      us.map (·.kind) = squeeze (ts.map (·.kind))) ↔ ¬ Clings ts := by
  have core : ∀ t ∈ dropEnds (·.isWhitespace) ts, t.IsWhole := fun t ht =>
    h t (mem_of_mem_dropEnds ht)
  have front : ∀ t ∈ ts.dropWhile (·.isWhitespace), t.IsWhole := fun t ht =>
    h t ((List.dropWhile_suffix _).subset ht)
  have text : (trim (String.join (ts.map (·.text)))).toList =
      chars (glue (dropEnds (·.isWhitespace) ts)) := by
    have joined : (String.join (ts.map (·.text))).toList = chars ts := by
      simp [chars, List.flatMap, Function.comp_def]
    rw [chars_glue, dropEnds, chars_rdropWhile front, chars_dropWhile h, ← joined]
    simp [trim, strip, List.rdropWhile]
  have kinds : squeeze (ts.map (·.kind)) =
      (glue (dropEnds (·.isWhitespace) ts)).map (·.kind) := by
    rw [kinds_glue, kinds_dropEnds, squeeze]
  have same : Clings (glue (dropEnds (·.isWhitespace) ts)) ↔ Clings ts := by
    rw [clings_glue, dropEnds, clings_rdropWhile front, clings_dropWhile]
  rw [← same, kinds, lex, text]
  constructor
  · rintro ⟨us, hl, hk⟩
    exact Lexes.not_clings_of_kinds (isWhole_glue core) (parted_glue _) (lexFrom_eq_ok_iff.mp hl) hk
  · intro hc
    obtain ⟨us, hl, hk⟩ := Lexes.of_not_clings (isWhole_glue core) (parted_glue _) hc 0
    exact ⟨us, lexFrom_eq_ok_iff.mpr hl, hk⟩

end Datatypes.Token
