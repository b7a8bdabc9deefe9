import Mathlib.Data.List.Basic
import TapeCompiler.File.Tree

/-!
# The theory of file trees

Two relations between trees carry what the later modules need:

  * `FileTree.Below`: one tree holds nothing that the other does not hold. A path that
    leads somewhere in the smaller tree leads to the same in the larger one
    (`Below.find`), so what has been removed stays away when more is removed.
  * `FileTree.SameDirectories`: both trees have the same directories, as before and
    after writing regular files. A path is followed through directories only, so it
    is a directory in both or in none (`SameDirectories.find_directory`).

Removing some files, whether or not each is there, makes a tree below the first one
(`FileTree.removeAll`). What is left at their paths are directories that were there
before (`FileTree.find_removeAll`), and no other place changes
(`FileTree.get?_removeAll`).
-/

namespace TapeCompiler.FileTree

variable {t t' : FileTree} {cwd place : Place} {path : Bytes} {e : FileEntry}

/-! ## Places -/

@[simp] theorem get?_nil (t : FileTree) : t.get? [] = some .directory := rfl

theorem get?_of_ne_nil (h : place ≠ []) (t : FileTree) : t.get? place = t.entries.lookup place := by
  rw [get?, if_neg]
  simpa using h

/-- Entries that are not of the place are kept. -/
theorem lookup_filter_ne (l : List (Place × FileEntry)) (p place : Place) :
    (l.filter (·.1 != place)).lookup p = if p = place then none else l.lookup p := by
  induction l with
  | nil => simp
  | cons x l ih =>
    obtain ⟨q, d⟩ := x
    rw [List.filter_cons, List.lookup_cons]
    by_cases hq : q = place
    · simp only [hq, bne_self_eq_false, Bool.false_eq_true, if_false, ih]
      by_cases hp : p = place
      · rw [if_pos hp, if_pos hp]
      · rw [if_neg hp, if_neg hp, beq_eq_false_iff_ne.2 hp]
    · simp only [bne_iff_ne.2 hq, if_true, List.lookup_cons, ih]
      by_cases hp : p = place
      · rw [if_pos hp, if_pos hp, hp, beq_eq_false_iff_ne.2 (Ne.symm hq)]
      · rw [if_neg hp, if_neg hp]

theorem get?_erase_of_ne {p : Place} (h : p ≠ place) : (t.erase place).get? p = t.get? p := by
  by_cases hp : p = []
  · rw [hp, get?_nil, get?_nil]
  · rw [get?_of_ne_nil hp, get?_of_ne_nil hp, erase, lookup_filter_ne, if_neg h]

theorem get?_erase_self (h : place ≠ []) : (t.erase place).get? place = none := by
  rw [get?_of_ne_nil h, erase, lookup_filter_ne, if_pos rfl]

theorem get?_put_of_ne {p : Place} (h : p ≠ place) : (t.put place e).get? p = t.get? p := by
  by_cases hp : p = []
  · rw [hp, get?_nil, get?_nil]
  · rw [get?_of_ne_nil hp, get?_of_ne_nil hp, put, List.lookup_cons, beq_eq_false_iff_ne.2 h]
    exact (lookup_filter_ne ..).trans (if_neg h)

theorem get?_put_self (h : place ≠ []) : (t.put place e).get? place = some e := by
  rw [get?_of_ne_nil h, put, List.lookup_cons_self]

/-! ## Paths -/

theorem follow_of_directories
    (h : ∀ p, t.get? p = some .directory → t'.get? p = some .directory) {p q : Place}
    {names : List Bytes} (hq : t.follow p names = .ok q) : t'.follow p names = .ok q := by
  induction names generalizing p with
  | nil => exact hq
  | cons name names ih =>
    rw [follow] at hq ⊢
    split at hq
    case h_1 hdir =>
      rw [h _ hdir]
      exact ih hq
    case h_2 | h_3 => cases hq

/-- A path goes through directories, so these are all that its last step depends on. -/
theorem lastStep_of_directories
    (h : ∀ p, t.get? p = some .directory → t'.get? p = some .directory) {s : LastStep}
    (hs : t.lastStep cwd path = .ok s) : t'.lastStep cwd path = .ok s := by
  simp only [lastStep] at hs ⊢
  split at hs
  case isTrue => cases hs
  case isFalse hempty =>
    rw [if_neg hempty]
    split at hs
    case h_1 => cases hs
    case h_2 parent hparent =>
      rw [follow_of_directories h hparent]
      exact hs

theorem find_eq_ok_iff : t.find cwd path = .ok (place, e) ↔
    ∃ s, t.lastStep cwd path = .ok s ∧ descend s.parent s.name = place ∧ t.get? place = some e ∧
      (s.slash → e.isDirectory) := by
  rw [find]
  cases hs : t.lastStep cwd path with
  | error r => simp
  | ok s =>
    simp only [Except.ok.injEq, exists_eq_left']
    cases he : t.get? (descend s.parent s.name) with
    | none =>
      simp only [reduceCtorEq, false_iff]
      rintro ⟨rfl, hplace, -⟩
      rw [he] at hplace
      cases hplace
    | some d =>
      simp only
      split
      case isTrue hslash =>
        simp only [reduceCtorEq, false_iff]
        rintro ⟨rfl, hplace, hdir⟩
        rw [Bool.and_eq_true, Bool.not_eq_true'] at hslash
        cases he.symm.trans hplace
        rw [hdir hslash.1] at hslash
        cases hslash.2
      case isFalse hslash =>
        rw [Except.ok.injEq, Prod.mk.injEq]
        constructor
        · rintro ⟨rfl, rfl⟩
          refine ⟨rfl, he, fun h => ?_⟩
          simpa [h] using hslash
        · rintro ⟨rfl, hplace, -⟩
          exact ⟨rfl, Option.some.inj (he.symm.trans hplace)⟩

/-- A path of a file does not lead to the root. -/
theorem ne_nil_of_find {content : Bytes} {executable : Bool}
    (h : t.find cwd path = .ok (place, .file content executable)) : place ≠ [] := by
  obtain ⟨s, -, -, hplace, -⟩ := find_eq_ok_iff.1 h
  rintro rfl
  cases hplace

/-- There is nothing at the path. -/
def Absent (t : FileTree) (cwd : Place) (path : Bytes) : Prop :=
  ∃ refusal, t.stat cwd path = .error refusal

theorem absent_or_find (t : FileTree) (cwd : Place) (path : Bytes) :
    t.Absent cwd path ∨ ∃ place e, t.find cwd path = .ok (place, e) := by
  rw [Absent, stat]
  cases t.find cwd path with
  | error refusal => exact .inl ⟨refusal, rfl⟩
  | ok r => exact .inr ⟨r.1, r.2, rfl⟩

theorem stat_of_find (h : t.find cwd path = .ok (place, e)) : t.stat cwd path = .ok e.kind := by
  rw [stat, h]
  rfl

/-- Whatever the first tree holds, the second one holds too. -/
def Below (t t' : FileTree) : Prop :=
  ∀ place e, t.get? place = some e → t'.get? place = some e

namespace Below

protected theorem refl (t : FileTree) : Below t t :=
  fun _ _ h => h

protected theorem trans {t'' : FileTree} (h : Below t t') (h' : Below t' t'') : Below t t'' :=
  fun place e he => h' place e (h place e he)

protected theorem erase (t : FileTree) (place : Place) : Below (t.erase place) t := by
  intro p e he
  by_cases hp : p = place
  · -- Only the root cannot be emptied.
    by_cases hnil : place = []
    · rw [hp, hnil] at he ⊢
      exact he
    · rw [hp, get?_erase_self hnil] at he
      cases he
  · rwa [get?_erase_of_ne hp] at he

/-- What a path leads to in the smaller tree, it leads to in the larger one. -/
theorem find (h : Below t t') (hfind : t.find cwd path = .ok (place, e)) :
    t'.find cwd path = .ok (place, e) := by
  obtain ⟨s, hs, hplace, he, hslash⟩ := find_eq_ok_iff.1 hfind
  exact find_eq_ok_iff.2
    ⟨s, lastStep_of_directories (fun p => h p .directory) hs, hplace, h place e he, hslash⟩

end Below

/-! ## Trees with the same directories -/

/-- Both trees have the same directories. -/
def SameDirectories (t t' : FileTree) : Prop :=
  ∀ place, t.get? place = some .directory ↔ t'.get? place = some .directory

namespace SameDirectories

protected theorem refl (t : FileTree) : SameDirectories t t :=
  fun _ => Iff.rfl

protected theorem symm (h : SameDirectories t t') : SameDirectories t' t :=
  fun place => (h place).symm

protected theorem trans {t'' : FileTree} (h : SameDirectories t t') (h' : SameDirectories t' t'') :
    SameDirectories t t'' :=
  fun place => (h place).trans (h' place)

/-- A regular file may be put where no directory is. -/
protected theorem put (h : t.get? place ≠ some .directory) (content : Bytes) (executable : Bool) :
    SameDirectories t (t.put place (.file content executable)) := by
  intro p
  by_cases hp : p = place
  · have hnil : place ≠ [] := by
      rintro rfl
      exact h rfl
    rw [hp, get?_put_self hnil]
    simp [h]
  · rw [get?_put_of_ne hp]

/-- A path that leads to a directory in one tree does so in the other. -/
theorem find_directory (h : SameDirectories t t') (hfind : t.find cwd path = .ok (place, .directory)) :
    t'.find cwd path = .ok (place, .directory) := by
  obtain ⟨s, hs, hplace, he, hslash⟩ := find_eq_ok_iff.1 hfind
  exact find_eq_ok_iff.2
    ⟨s, lastStep_of_directories (fun p => (h p).1) hs, hplace, (h place).1 he, hslash⟩

end SameDirectories

/-! ## Writing -/

/-- A file is written to a place that holds no directory, by a path that asks for none. -/
theorem writeFile_eq_ok {content : Bytes} (h : t.writeFile cwd path content = .ok t') :
    ∃ s executable, t.lastStep cwd path = .ok s ∧ ¬s.slash ∧
      t.get? (descend s.parent s.name) ≠ some .directory ∧
      t' = t.put (descend s.parent s.name) (.file content executable) := by
  rw [writeFile] at h
  split at h
  case h_1 => cases h
  case h_2 s hs =>
    simp only at h
    split at h
    case isTrue => cases h
    case isFalse hslash =>
      split at h
      case h_1 => cases h
      case h_2 old executable hold =>
        exact ⟨s, executable, hs, hslash, by rw [hold]; simp, (Except.ok.inj h).symm⟩
      case h_3 hnone =>
        exact ⟨s, false, hs, hslash, by rw [hnone]; simp, (Except.ok.inj h).symm⟩

theorem sameDirectories_writeFile {content : Bytes} (h : t.writeFile cwd path content = .ok t') :
    SameDirectories t t' := by
  obtain ⟨s, executable, -, -, hplace, rfl⟩ := writeFile_eq_ok h
  exact .put hplace content executable

theorem find_ne_directory_of_writeFile {content : Bytes}
    (h : t.writeFile cwd path content = .ok t') (place : Place) :
    t.find cwd path ≠ .ok (place, .directory) := by
  intro hfind
  obtain ⟨s, executable, hs, -, hplace, -⟩ := writeFile_eq_ok h
  obtain ⟨s', hs', rfl, hdir, -⟩ := find_eq_ok_iff.1 hfind
  cases hs.symm.trans hs'
  exact hplace hdir

/-- A file that was written is at its path, and nothing else has changed. -/
theorem find_of_writeFile {content : Bytes} (h : t.writeFile cwd path content = .ok t') :
    ∃ place executable, t'.find cwd path = .ok (place, .file content executable) ∧
      ∀ p, p ≠ place → t'.get? p = t.get? p := by
  have hdirs := sameDirectories_writeFile h
  obtain ⟨s, executable, hs, hslash, hplace, rfl⟩ := writeFile_eq_ok h
  have hnil : descend s.parent s.name ≠ [] := by
    intro hnil
    rw [hnil] at hplace
    exact hplace rfl
  refine ⟨descend s.parent s.name, executable, find_eq_ok_iff.2 ⟨s, ?_, rfl, ?_, ?_⟩, ?_⟩
  · exact lastStep_of_directories (fun p => (hdirs p).1) hs
  · exact get?_put_self hnil
  · intro h
    exact absurd h hslash
  · intro p hp
    exact get?_put_of_ne hp

/-! ## Removing -/

/-- The tree after trying to remove what is at a path. -/
def removed (t : FileTree) (cwd : Place) (path : Bytes) : FileTree :=
  match t.remove cwd path with
  | .ok t' => t'
  | .error _ => t

/-- The tree after trying to remove what is at some paths, in order. -/
def removeAll (t : FileTree) (cwd : Place) (paths : List Bytes) : FileTree :=
  paths.foldl (removed · cwd) t

/-- What a removal does: nothing, or it empties the place that the path leads to. Only a
    directory may be left. -/
theorem removed_cases (t : FileTree) (cwd : Place) (path : Bytes) :
    (t.removed cwd path = t ∧ ∀ place content executable,
      t.find cwd path ≠ .ok (place, .file content executable)) ∨
    ∃ place e, t.find cwd path = .ok (place, e) ∧ t.removed cwd path = t.erase place := by
  rw [removed, remove]
  cases hfind : t.find cwd path with
  | error r => exact .inl ⟨rfl, by simp⟩
  | ok r =>
    obtain ⟨place, e⟩ := r
    cases e with
    | directory =>
      simp only
      split
      case h_1 t' ht' =>
        split at ht'
        case isTrue => cases ht'
        case isFalse => exact .inr ⟨place, _, rfl, (Except.ok.inj ht').symm⟩
      case h_2 => exact .inl ⟨rfl, by simp⟩
    | file content executable => exact .inr ⟨place, _, rfl, rfl⟩

theorem below_removed (t : FileTree) (cwd : Place) (path : Bytes) : Below (t.removed cwd path) t := by
  rcases removed_cases t cwd path with ⟨h, -⟩ | ⟨place, e, -, h⟩
  · rw [h]
    exact .refl t
  · rw [h]
    exact .erase t place

theorem below_removeAll (t : FileTree) (cwd : Place) (paths : List Bytes) :
    Below (t.removeAll cwd paths) t := by
  induction paths generalizing t with
  | nil => exact .refl t
  | cons path paths ih => exact (ih (t.removed cwd path)).trans (below_removed t cwd path)

/-- What a removal leaves at its path is a directory, which was there before. -/
theorem find_removed (h : (t.removed cwd path).find cwd path = .ok (place, e)) :
    e = .directory ∧ t.find cwd path = .ok (place, .directory) := by
  have hbefore := (below_removed t cwd path).find h
  cases e with
  | directory => exact ⟨rfl, hbefore⟩
  | file content executable =>
    exfalso
    rcases removed_cases t cwd path with ⟨-, hnone⟩ | ⟨place', e', hfind, herase⟩
    · exact hnone _ _ _ hbefore
    · -- The place of the file was emptied.
      cases hbefore.symm.trans hfind
      obtain ⟨-, -, -, hplace, -⟩ := find_eq_ok_iff.1 h
      rw [herase, get?_erase_self (ne_nil_of_find hbefore)] at hplace
      cases hplace

theorem find_removeAll {paths : List Bytes} (hpath : path ∈ paths)
    (h : (t.removeAll cwd paths).find cwd path = .ok (place, e)) :
    e = .directory ∧ t.find cwd path = .ok (place, .directory) := by
  induction paths generalizing t with
  | nil => cases hpath
  | cons first paths ih =>
    rcases List.mem_cons.1 hpath with rfl | hpath
    · exact find_removed ((below_removeAll _ cwd paths).find h)
    · obtain ⟨he, hfind⟩ := ih hpath h
      exact ⟨he, (below_removed t cwd first).find hfind⟩

/-- Only the places that the paths lead to are emptied. -/
theorem get?_removeAll {paths : List Bytes}
    (h : ∀ path ∈ paths, ∀ e, t.find cwd path ≠ .ok (place, e)) :
    (t.removeAll cwd paths).get? place = t.get? place := by
  induction paths generalizing t with
  | nil => rfl
  | cons first paths ih =>
    have hfirst : (t.removed cwd first).get? place = t.get? place := by
      rcases removed_cases t cwd first with ⟨hremoved, -⟩ | ⟨place', e, hfind, hremoved⟩
      · rw [hremoved]
      · have hne : place ≠ place' := by
          rintro rfl
          exact h first List.mem_cons_self e hfind
        rw [hremoved, get?_erase_of_ne hne]
    rw [← hfirst]
    exact ih fun path hpath e hfind =>
      h path (List.mem_cons_of_mem _ hpath) e ((below_removed t cwd first).find hfind)

end TapeCompiler.FileTree
