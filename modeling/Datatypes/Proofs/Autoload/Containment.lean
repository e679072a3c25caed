import Datatypes.Proofs.Autoload.Choice
import Datatypes.Proofs.Emit.Layout

/-!
Where the files of classes stand. What the key leaves of the name of a class leads from the
directory of the key down to the file. If nothing is left, the directory itself gets the extension
of class files, and the file stands beside it.
-/

namespace Datatypes

open Text Datatypes.Path

namespace Autoload

structure Contains (directory path : String) : Prop where
  above : Above directory path
  extension : ∃ front name, components path = front ++ [.name name] ∧ ".php".toList <:+ name.toList

section File

variable {base directory : String}

theorem contains_routeFile {names : List String} (h : ∀ s ∈ names, IsPart s) (hne : names ≠ []) :
    Contains (join base directory) (routeFile base directory names) := by
  obtain ⟨before, last, rfl⟩ := (List.eq_nil_or_concat' names).resolve_left hne
  have way : components (routeFile base directory (before ++ [last])) =
      components (join base directory) ++ (before ++ [last ++ ".php"]).map .name := by
    rw [routeFile, withExtension_parts h, components_join (by simp) (isName_concat h)]
  refine ⟨above_of_append (by simp) way, components (join base directory) ++ before.map .name,
    last ++ ".php", ?_, ?_⟩
  · rw [way, List.map_append, List.append_assoc]
    rfl
  · rw [String.toList_append]
    exact List.suffix_append _ _

theorem not_above_routeFile_nil :
    ¬ Above (join base directory) (routeFile base directory []) := by
  rintro ⟨front, hne⟩
  exact hne (front.eq_of_length (length_components_withExtension _).symm)

end File

section Names

variable {class_ : String} (hc : IsPath class_)

include hc

theorem isPart_of_mem_segments {rest : String} {sep : Char}
    (hrest : ∀ c ∈ rest.toList, c ∈ class_.toList) (hsep : '\\' ∉ rest.toList ∨ sep = '\\') :
    ∀ s ∈ segments sep rest, IsPart s := by
  intro s hs
  obtain ⟨hs, hne⟩ := List.mem_filter.mp hs
  refine ⟨by simpa using hne, fun c hmem => ?_⟩
  obtain ⟨hin, hother⟩ := mem_of_mem_split hs hmem
  have char := isPathChar_of_mem hc c (hrest c hin)
  have plain : c ≠ '\\' := by
    rintro rfl
    rcases hsep with hsep | rfl
    · exact hsep hin
    · exact hother rfl
  simpa [isPathChar, plain] using char

theorem eq_empty_of_segments {key rest : String} (h : class_ = key ++ rest)
    (hnil : segments '\\' rest = []) : rest = "" := by
  by_contra hne
  obtain ⟨cs, c, hlast⟩ := (List.eq_nil_or_concat' rest.toList).resolve_left (by simpa using hne)
  obtain rfl := segments_eq_nil_iff.mp hnil c (by simp [hlast])
  have whole : class_ = key ++ String.ofList cs ++ "\\" ++ "" := by
    rw [h, ← String.toList_inj]
    simp [hlast]
  obtain ⟨before, last, hs, hall⟩ := split_of_isPath hc
  rw [whole, split_append separator_toList] at hs
  obtain rfl : last = "" := by
    have ends := congrArg List.getLast? hs
    simpa [split] using ends.symm
  exact absurd (hall "" (by simp)) (by decide)

theorem before_eq_nil {before : List String} {short : String}
    (h : split '\\' class_ = before ++ [short]) (hnil : before.filter (· ≠ "") = []) :
    before = [] := by
  obtain ⟨before', last, hs, hall⟩ := split_of_isPath hc
  rw [h] at hs
  rw [← hs] at hall
  refine List.eq_nil_iff_forall_not_mem.mpr fun w hw => ?_
  have empty : w = "" := by simpa using List.filter_eq_nil_iff.mp hnil w hw
  exact (isPart_of_isWord (hall w (List.mem_append_left _ hw))).ne_empty empty

end Names

/-- Nothing of the name of a class is left for its file: it is a key itself, or all of it divides
by the older standard. -/
def Consumed (m : Manifest) (class_ : String) : Prop :=
  class_ ∈ m.psr4Keys ∨
    (∀ k ∈ m.psr4Keys, ¬ k.toList <+: class_.toList) ∧ ∀ c ∈ class_.toList, c = '_'

section Route

variable {m : Manifest} {class_ directory key : String} {names : List String}

theorem Chosen.mem_keys {main development : Dictionary Json}
    (h : Chosen main development class_ key directory) : key ∈ main.keys ++ development.keys := by
  obtain ⟨v, hv, -⟩ := h.named
  rcases Option.or_eq_some_iff.mp hv with hv | ⟨-, hv⟩
  · exact List.mem_append_left _ (Dictionary.mem_keys_of_get? hv)
  · exact List.mem_append_right _ (Dictionary.mem_keys_of_get? hv)

theorem Chosen.eq_of_mem {main development : Dictionary Json}
    (h : Chosen main development class_ key directory)
    (hmem : class_ ∈ main.keys ++ development.keys) : key = class_ := by
  have long := h.longest class_ hmem (List.prefix_refl _)
  rw [← String.toList_inj]
  refine h.starts.eq_of_length_le ?_
  rwa [String.length_toList, String.length_toList]

theorem Route.isPart (hc : IsPath class_) (h : Route m class_ directory names) :
    ∀ s ∈ names, IsPart s := by
  cases h with
  | @psr4 key rest directory chosen hrest =>
    exact isPart_of_mem_segments hc (by simp +contextual [hrest]) (.inr rfl)
  | @psr0 key directory short before other chosen hshort =>
    have member : short ∈ split '\\' class_ := by simp [hshort]
    intro s hs
    rcases List.mem_append.mp hs with hs | hs
    · refine isPart_of_mem_segments hc (fun c hc => hc) (.inr rfl) s ?_
      rw [segments, hshort, List.filter_append]
      exact List.mem_append_left _ hs
    · exact isPart_of_mem_segments hc (fun c hc => (mem_of_mem_split member hc).1)
        (.inl (not_mem_of_mem_split member)) s hs

theorem Route.names_eq_nil_iff (hc : IsPath class_) (h : Route m class_ directory names) :
    names = [] ↔ Consumed m class_ := by
  cases h with
  | @psr4 key rest directory chosen hrest =>
    have matched : ¬ ∀ k ∈ m.psr4Keys, ¬ k.toList <+: class_.toList :=
      fun none => none key chosen.mem_keys chosen.starts
    simp only [Consumed, matched, false_and, or_false]
    constructor
    · intro hnil
      obtain rfl := eq_empty_of_segments hc hrest hnil
      rw [hrest, String.append_empty]
      exact chosen.mem_keys
    · intro hmem
      rw [chosen.eq_of_mem hmem] at hrest
      obtain rfl : rest = "" := by simpa using congrArg String.toList hrest
      rfl
  | @psr0 key directory short before other chosen hshort =>
    have unlisted : class_ ∉ m.psr4Keys := fun hmem => other class_ hmem (List.prefix_refl _)
    simp only [Consumed, unlisted, false_or, List.append_eq_nil_iff, segments_eq_nil_iff]
    constructor
    · rintro ⟨hbefore, hshort'⟩
      obtain rfl := before_eq_nil hc hshort hbefore
      obtain rfl : short = class_ := by
        simpa [hshort] using intercalate_split separator_toList class_
      exact ⟨other, hshort'⟩
    · rintro ⟨-, hall⟩
      have apart : ∀ s ∈ [class_], '\\' ∉ s.toList := by
        intro s hs hmem
        rw [List.mem_singleton.mp hs] at hmem
        cases hall _ hmem
      have cut := split_intercalate separator_toList (by simp) apart
      rw [String.intercalate_singleton, hshort] at cut
      obtain ⟨rfl, rfl⟩ : before = [] ∧ short = class_ := by
        cases before with
        | nil => simpa using cut
        | cons => simp at cut
      exact ⟨rfl, hall⟩

end Route

/-- The file of a class stands below the directory of its entry, unless nothing of its name is
left. -/
theorem contains_iff {source base : String} {m : Manifest} (hm : Manifest.parse source = some m)
    {a : Autoload} (ha : ofText base source = .ok a) {class_ path : String} (hc : IsPath class_)
    (hp : (Resolver.autoload a).resolve class_ = .ok path) :
    ∃ directory names, Route m class_ directory names ∧ path = routeFile base directory names ∧
      (Contains (join base directory) path ↔ ¬ Consumed m class_) := by
  rw [ofText, hm] at ha
  rw [Resolver.resolve, dropLeading_of_isPath hc] at hp
  rcases path?_routes ha class_ with ⟨directory, names, route, found⟩ | ⟨-, found⟩
  · obtain rfl : routeFile base directory names = path := by
      simpa [Resolver.path?, found] using hp
    refine ⟨directory, names, route, rfl, ?_⟩
    rw [← route.names_eq_nil_iff hc]
    constructor
    · rintro ⟨above, -⟩ rfl
      exact not_above_routeFile_nil above
    · exact contains_routeFile (route.isPart hc)
  · simp [Resolver.path?, found] at hp

theorem contains_legacy :
    ∃ m, Manifest.parse shopManifest = some m ∧ ofText "/proj" shopManifest = .ok shopAutoload ∧
      IsPath "Legacy_Shop_Item" ∧
      (Resolver.autoload shopAutoload).resolve "Legacy_Shop_Item" =
        .ok "/proj/lib/Legacy/Shop/Item.php" ∧
      ∃ directory names, Route m "Legacy_Shop_Item" directory names ∧
        Contains (join "/proj" directory) "/proj/lib/Legacy/Shop/Item.php" := by
  obtain ⟨m, parsed⟩ := exists_parse_of_ofText ofText_shop
  have word : IsPath "Legacy_Shop_Item" := isPath_of_isWord (by decide)
  have resolved : (Resolver.autoload shopAutoload).resolve "Legacy_Shop_Item" =
      .ok "/proj/lib/Legacy/Shop/Item.php" := by decide +kernel
  have left : ¬ Consumed m "Legacy_Shop_Item" := by
    have read := ofText_shop
    rw [ofText, parsed] at read
    rintro (listed | ⟨-, divided⟩)
    · obtain ⟨x, hx, hkey⟩ := ((arranged_of_ofManifest read).1.mem_keys _).mp listed
      have others : ∀ x ∈ shopAutoload.psr4, x.key ≠ "Legacy_Shop_Item" := by decide
      exact others x hx hkey
    · cases divided 'L' (by decide)
  obtain ⟨directory, names, route, -, inside⟩ := contains_iff parsed ofText_shop word resolved
  exact ⟨m, parsed, ofText_shop, word, resolved, directory, names, route, inside.mpr left⟩

def orderManifest : String :=
  "\x7b\"autoload\":\x7b\"psr-4\":\x7b\"Acme\\\\Order\":\"src/\"\x7d\x7d\x7d"

theorem not_contains_order :
    ofText "/proj" orderManifest = .ok ⟨[⟨"Acme\\Order", "/proj/src/"⟩], []⟩ ∧
      IsPath "Acme\\Order" ∧
      (Resolver.autoload ⟨[⟨"Acme\\Order", "/proj/src/"⟩], []⟩).resolve "Acme\\Order" =
        .ok "/proj/src.php" ∧
      ¬ Contains "/proj/src/" "/proj/src.php" := by
  refine ⟨by decide +kernel, ⟨["Acme", "Order"], by simp, by decide, by decide⟩,
    by decide +kernel, ?_⟩
  rintro ⟨⟨front, -⟩, -⟩
  revert front
  decide

end Autoload

end Datatypes
