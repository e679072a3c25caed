import Mathlib.Data.List.Forall2
import Datatypes.Command.Generate

/-!
Going over a list up to the first failure. The files, the definitions and the classes of a run
are gone over in this way: all of them succeed, or one of them fails.
-/

namespace Datatypes

section Except

variable {α β ε : Type} {f : α → Except ε β} {xs : List α}

theorem bind_eq_ok_iff {x : Except ε α} {y : β} :
    (x >>= f) = .ok y ↔ ∃ a, x = .ok a ∧ f a = .ok y := by
  cases x <;> simp [bind, Except.bind]

theorem bind_eq_error_iff {x : Except ε α} {e : ε} :
    (x >>= f) = .error e ↔ x = .error e ∨ ∃ a, x = .ok a ∧ f a = .error e := by
  cases x <;> simp [bind, Except.bind]

theorem exists_eq_ok {x : Except ε α} (h : ∀ e, x ≠ .error e) : ∃ a, x = .ok a := by
  cases x with
  | error e => exact absurd rfl (h e)
  | ok a => exact ⟨a, rfl⟩

theorem mapM_eq_ok_iff {ys : List β} :
    xs.mapM f = .ok ys ↔ List.Forall₂ (fun x y => f x = .ok y) xs ys := by
  induction xs generalizing ys with
  | nil => simp [pure, Except.pure, eq_comm]
  | cons x xs ih =>
    rw [List.mapM_cons, List.forall₂_cons_left_iff, bind_eq_ok_iff]
    simp only [bind_eq_ok_iff, ih]
    constructor
    · rintro ⟨y, hy, ys, hys, ⟨⟩⟩
      exact ⟨y, ys, hy, hys, rfl⟩
    · rintro ⟨y, ys, hy, hys, rfl⟩
      exact ⟨y, hy, ys, hys, rfl⟩

theorem exists_of_mapM_eq_error {e : ε} (h : xs.mapM f = .error e) :
    ∃ x ∈ xs, f x = .error e := by
  induction xs with
  | nil => cases h
  | cons x xs ih =>
    rw [List.mapM_cons, bind_eq_error_iff] at h
    rcases h with first | ⟨y, -, h⟩
    · exact ⟨x, by simp, first⟩
    · rcases bind_eq_error_iff.mp h with later | ⟨ys, -, none⟩
      · obtain ⟨z, hz, failed⟩ := ih later
        exact ⟨z, List.mem_cons_of_mem x hz, failed⟩
      · cases none

theorem exists_mapM_eq_ok (h : ∀ x ∈ xs, ∀ e, f x ≠ .error e) : ∃ ys, xs.mapM f = .ok ys := by
  refine exists_eq_ok fun e failed => ?_
  obtain ⟨x, hx, hfail⟩ := exists_of_mapM_eq_error failed
  exact h x hx e hfail

theorem exists_result_of_mapM {ys : List β} (h : xs.mapM f = .ok ys) {x : α} (hx : x ∈ xs) :
    ∃ y ∈ ys, f x = .ok y := by
  rw [mapM_eq_ok_iff] at h
  induction h with
  | nil => cases hx
  | cons head _ ih =>
    rcases List.mem_cons.mp hx with rfl | later
    · exact ⟨_, by simp, head⟩
    · obtain ⟨y, hy, found⟩ := ih later
      exact ⟨y, List.mem_cons_of_mem _ hy, found⟩

theorem exists_source_of_mapM {ys : List β} (h : xs.mapM f = .ok ys) {y : β} (hy : y ∈ ys) :
    ∃ x ∈ xs, f x = .ok y := by
  rw [mapM_eq_ok_iff] at h
  induction h with
  | nil => cases hy
  | cons head _ ih =>
    rcases List.mem_cons.mp hy with rfl | later
    · exact ⟨_, by simp, head⟩
    · obtain ⟨x, hx, found⟩ := ih later
      exact ⟨x, List.mem_cons_of_mem _ hx, found⟩

end Except

theorem Generation.parseFiles_eq_mapM (t : FileTree) (files : List String) :
    parseFiles t files = files.mapM (Input.parseFile t.readText) := by
  induction files with
  | nil => rfl
  | cons file files ih =>
    rw [parseFiles, List.mapM_cons, ih]
    cases Input.parseFile t.readText file with
    | error e => rfl
    | ok c => cases files.mapM (Input.parseFile t.readText) <;> rfl

theorem Class.generateList_eq_mapM (r : Registry) (ds : List Definition) :
    generateList r ds = ds.mapM (generate r) := by
  induction ds with
  | nil => rfl
  | cons d ds ih =>
    rw [generateList, List.mapM_cons, ih]
    cases generate r d with
    | error e => rfl
    | ok unit => cases ds.mapM (generate r) <;> rfl

theorem Emit.pathsBy_eq_mapM (resolve : String → Except GenerationError String)
    (units : List SourceUnit) :
    pathsBy resolve units = units.mapM fun u => resolve u.className := by
  induction units with
  | nil => rfl
  | cons u units ih =>
    rw [pathsBy, List.mapM_cons, ih]
    cases resolve u.className with
    | error e => rfl
    | ok path => cases units.mapM fun u => resolve u.className <;> rfl

theorem Emit.paths_eq_mapM (r : Resolver) (units : List SourceUnit) :
    paths r units = units.mapM fun u => r.resolve u.className :=
  pathsBy_eq_mapM r.resolve units

end Datatypes
