import Datatypes.Text.Uppercase

namespace Datatypes.Text

inductive CapitalSource (c : Char) : List Char → Prop
  | ascii (h : c.toNat < 128) : CapitalSource c [c.toUpper]
  | text {e : Nat × List Nat} (h : e ∈ capitalTexts) : CapitalSource c (e.2.map Char.ofNat)
  | run {r : CaseRun} (h : r ∈ capitalRuns) (offset : Nat) :
      CapitalSource c [Char.ofNat (r.capital + offset)]
  | none : CapitalSource c [c]

theorem capital_source (c : Char) : CapitalSource c (capital c) := by
  rw [capital]
  split
  · next low => exact .ascii low
  · split
    · next text found =>
      obtain ⟨before, after, split, -⟩ := List.lookup_eq_some_iff.mp found
      exact .text (e := (c.toNat, text)) (by simp [split])
    · split
      · next n found =>
        obtain ⟨r, hr, hn⟩ := List.exists_of_findSome?_eq_some found
        rw [CaseRun.capital?] at hn
        split at hn
        · rw [← Option.some.inj hn]
          exact .run hr _
        · cases hn
      · exact .none

theorem capital_ne_nil (c : Char) : capital c ≠ [] := by
  have source := capital_source c
  generalize capital c = cs at source
  cases source with
  | ascii | run | none => simp
  | @text e he =>
    have table : ∀ e ∈ capitalTexts, e.2 ≠ [] := by decide +kernel
    simpa using table e he

theorem ofNat_ne_newline {n : Nat} (h : n ≠ 10) : Char.ofNat n ≠ '\n' := by
  intro heq
  by_cases hn : n.isValidChar
  · rw [Char.ofNat, dif_pos hn] at heq
    exact h (congrArg Char.toNat heq)
  · rw [Char.ofNat, dif_neg hn] at heq
    cases heq

theorem toUpper_ne_newline {c : Char} (h : c.toNat < 128) (hc : c ≠ '\n') : c.toUpper ≠ '\n' := by
  have table : ∀ n ∈ List.range 128, (Char.ofNat n).toUpper = '\n' → n = 10 := by decide +kernel
  intro upper
  have code := table c.toNat (List.mem_range.mpr h) (by simpa using upper)
  exact hc (by rw [← Char.ofNat_toNat c, code])

theorem newline_not_mem_capital {c : Char} (hc : c ≠ '\n') : '\n' ∉ capital c := by
  have source := capital_source c
  generalize capital c = cs at source
  cases source with
  | ascii h => simpa using (toUpper_ne_newline h hc).symm
  | @text e he =>
    have table : ∀ e ∈ capitalTexts, 10 ∉ e.2 := by decide +kernel
    intro hmem
    obtain ⟨n, hn, heq⟩ := List.mem_map.mp hmem
    refine ofNat_ne_newline ?_ heq
    rintro rfl
    exact table e he hn
  | @run r hr offset =>
    have table : ∀ r ∈ capitalRuns, 10 < r.capital := by decide +kernel
    have := table r hr
    simpa using (ofNat_ne_newline (by omega : r.capital + offset ≠ 10)).symm
  | none => simpa using hc.symm

theorem length_le_capitalize (s : String) :
    s.toList.length ≤ (capitalize s).toList.length := by
  rw [capitalize]
  split
  · next hs => simp [hs]
  · next c cs hs =>
    have := List.length_pos_iff.mpr (capital_ne_nil c)
    simp only [hs, String.toList_ofList, List.length_append, List.length_cons]
    omega

end Datatypes.Text
