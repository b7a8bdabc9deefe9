import Mathlib.Data.List.DropRight
import TapeCompiler.File.Path

/-!
# The theory of paths

The last element of a path is what stands behind its last slash
(`Path.exists_eq_lastElement`). The extension of a path is the end of its last element,
from the last dot on, so a path is its stem and its extension, and both can be read off
a path that was put together from them (`Path.eq_append_iff`).

Cleaning a path keeps its last element, if that is a name and neither `.` nor `..`
(`Path.base_clean`). Putting paths together brings in no bytes but slashes and dots
(`Path.mem_join`).
-/

namespace TapeCompiler.Path

/-! ## The last element -/

section

variable {α : Type*} [BEq α] [LawfulBEq α]

/-- A list that holds `c` has a last `c`. -/
theorem exists_eq_rtakeWhile {c : α} {l : List α} (h : c ∈ l) :
    ∃ xs, l = xs ++ c :: l.rtakeWhile (· != c) := by
  have hne : l.rdropWhile (· != c) ≠ [] := by
    intro hnil
    have := List.rdropWhile_eq_nil_iff.1 hnil c h
    simp at this
  have hlast : (l.rdropWhile (· != c)).getLast hne = c := by
    simpa using List.rdropWhile_last_not (· != c) l hne
  refine ⟨(l.rdropWhile (· != c)).dropLast, ?_⟩
  conv_lhs => rw [← List.rdropWhile_append_rtakeWhile (p := (· != c)) (l := l),
    ← List.dropLast_append_getLast hne, hlast, List.append_assoc, List.singleton_append]

theorem not_mem_rtakeWhile (c : α) (l : List α) : c ∉ l.rtakeWhile (· != c) := by
  intro h
  have := List.mem_takeWhile_imp (List.mem_reverse.1 h)
  simp at this

theorem rtakeWhile_append {c : α} {ys : List α} (h : c ∉ ys) (xs : List α) :
    (xs ++ ys).rtakeWhile (· != c) = xs.rtakeWhile (· != c) ++ ys := by
  induction ys using List.reverseRecOn with
  | nil => rw [List.append_nil, List.append_nil]
  | append_singleton ys y ih =>
    rw [List.mem_append, not_or] at h
    have hy : (y != c) = true := by
      rw [bne_iff_ne]
      rintro rfl
      exact h.2 (List.mem_singleton_self y)
    rw [← List.append_assoc, List.rtakeWhile_concat_pos (· != c) _ _ hy, ih h.1, List.append_assoc]

theorem rtakeWhile_append_cons {c : α} {ys : List α} (h : c ∉ ys) (xs : List α) :
    (xs ++ c :: ys).rtakeWhile (· != c) = ys := by
  rw [List.append_cons, rtakeWhile_append h, List.rtakeWhile_concat_neg _ _ _ (by simp),
    List.nil_append]

end

variable {path n s e : Bytes}

theorem lastElement_eq (path : Bytes) : lastElement path = path.rtakeWhile (· != slash) := rfl

theorem exists_eq_lastElement (h : slash ∈ path) : ∃ xs, path = xs ++ slash :: lastElement path :=
  exists_eq_rtakeWhile h

theorem slash_not_mem_lastElement (path : Bytes) : slash ∉ lastElement path :=
  not_mem_rtakeWhile slash path

theorem lastElement_of_not_mem (h : slash ∉ path) : lastElement path = path :=
  rtakeWhile_append h []

theorem lastElement_append_slash (xs ys : Bytes) :
    lastElement (xs ++ slash :: ys) = lastElement ys := by
  -- The last slash is in `ys`, or it is the one before.
  by_cases h : slash ∈ ys
  · obtain ⟨zs, hzs⟩ := exists_eq_lastElement h
    conv_lhs => rw [hzs, ← List.cons_append, ← List.append_assoc]
    exact rtakeWhile_append_cons (slash_not_mem_lastElement ys) _
  · rw [lastElement_of_not_mem h]
    exact rtakeWhile_append_cons h xs

/-! ## Stem and extension -/

/-- A dot, with neither a dot nor a slash behind it. -/
def IsExt (e : Bytes) : Prop :=
  ∃ w, e = dot :: w ∧ dot ∉ w ∧ slash ∉ w

theorem ext_append (he : IsExt e) (xs : Bytes) : ext (xs ++ e) = e := by
  obtain ⟨w, rfl, hdot, hslash⟩ := he
  have hne : slash ≠ dot := by decide
  have hlast : lastElement (xs ++ dot :: w) = lastElement xs ++ dot :: w :=
    rtakeWhile_append (by simp [hslash, hne]) xs
  have hend : ((lastElement xs ++ dot :: w).reverse.takeWhile (· != dot)).reverse = w :=
    rtakeWhile_append_cons hdot (lastElement xs)
  rw [ext, hlast]
  simp only [hend]
  rw [if_pos (by simp)]

theorem exists_eq_append_ext (path : Bytes) : ∃ xs, path = xs ++ ext path := by
  have hlast : ∃ xs, path = xs ++ lastElement path :=
    ⟨_, List.rdropWhile_append_rtakeWhile.symm⟩
  obtain ⟨xs, hxs⟩ := hlast
  rw [ext]
  split
  case isTrue hdot =>
    obtain ⟨ys, hys⟩ := exists_eq_rtakeWhile (List.contains_iff_mem.1 hdot)
    refine ⟨xs ++ ys, ?_⟩
    conv_lhs => rw [hxs, hys]
    rw [List.append_assoc]
    rfl
  case isFalse => exact ⟨path, (List.append_nil path).symm⟩

theorem stem_eq {xs : Bytes} (h : path = xs ++ ext path) : stem path = xs := by
  have hlength := congrArg List.length h
  rw [List.length_append] at hlength
  have htake : path.length - (ext path).length = xs.length := by omega
  rw [stem, htake]
  conv_lhs => rw [h, List.take_left]

/-- A path is its stem and its extension. -/
theorem stem_append_ext (path : Bytes) : stem path ++ ext path = path := by
  obtain ⟨xs, hxs⟩ := exists_eq_append_ext path
  rw [stem_eq hxs, ← hxs]

/-- Stem and extension can be read off what they make up. -/
theorem eq_append_iff (he : IsExt e) : path = s ++ e ↔ stem path = s ∧ ext path = e := by
  constructor
  · rintro rfl
    have hext := ext_append he s
    exact ⟨stem_eq (by rw [hext]), hext⟩
  · rintro ⟨rfl, rfl⟩
    exact (stem_append_ext path).symm

theorem append_ne {e' : Bytes} (he : IsExt e) (he' : IsExt e') (h : e ≠ e') (s s' : Bytes) :
    s ++ e ≠ s' ++ e' := by
  intro heq
  have hext := ((eq_append_iff he').1 heq).2
  rw [((eq_append_iff he).1 rfl).2] at hext
  exact h hext

/-! ## Base names -/

/-- The base name of a path that does not end in a slash is its last element. -/
theorem base_eq (h : lastElement path ≠ []) : base path = lastElement path := by
  have hparts := h
  rw [lastElement_eq, Ne, List.rtakeWhile_eq_nil_iff] at hparts
  push Not at hparts
  obtain ⟨hne, hlast⟩ := hparts
  -- There are no trailing slashes to leave aside.
  have htrimmed : (path.reverse.dropWhile (· == slash)).reverse = path := by
    refine List.rdropWhile_eq_self_iff.2 fun hne' => ?_
    simpa using hlast
  have hempty : ¬path.isEmpty := by simpa using hne
  rw [base, if_neg hempty]
  simp only [htrimmed]
  rw [if_neg hempty]

/-- A base name has no slash, unless it is the root. -/
theorem base_eq_or_not_mem (path : Bytes) : base path = [slash] ∨ slash ∉ base path := by
  rw [base]
  split
  · exact .inr (by decide)
  · simp only
    split
    · exact .inl rfl
    · exact .inr (slash_not_mem_lastElement _)

/-! ## Cleaning -/

/-- An element that cleaning keeps. -/
structure IsName (n : Bytes) : Prop where
  ne_nil : n ≠ []
  ne_dot : n ≠ [dot]
  ne_dots : n ≠ [dot, dot]
  slash_not_mem : slash ∉ n

theorem cleanStep_of_isName (hn : IsName n) (rooted : Bool) (kept : List Bytes) :
    cleanStep rooted kept n = n :: kept := by
  simp [cleanStep, hn.ne_nil, hn.ne_dot, hn.ne_dots]

theorem isRooted_append (hpath : path ≠ []) (xs : Bytes) :
    isRooted (path ++ xs) = isRooted path := by
  rw [isRooted, isRooted, List.head?_append_of_ne_nil path hpath]

theorem cleanElements_append (hpath : path ≠ []) (hn : IsName n) :
    cleanElements (path ++ slash :: n) = cleanElements path ++ [n] := by
  have helements : elements (path ++ slash :: n) = elements path ++ [n] := by
    rw [elements, List.splitOn_append_cons_self, List.splitOn_eq_singleton hn.slash_not_mem]
    rfl
  rw [cleanElements, isRooted_append hpath, helements, List.foldl_append, List.foldl_cons,
    List.foldl_nil, cleanStep_of_isName hn, List.reverse_cons]
  rfl

theorem lastElement_intercalate (hn : slash ∉ n) (elements : List Bytes) :
    lastElement ([slash].intercalate (elements ++ [n])) = n := by
  induction elements with
  | nil =>
    rw [List.nil_append, List.intercalate_singleton]
    exact lastElement_of_not_mem hn
  | cons e elements ih =>
    rw [List.cons_append, List.intercalate_cons_of_ne_nil (by simp), List.append_assoc]
    exact (lastElement_append_slash e _).trans ih

theorem lastElement_clean (hpath : path ≠ []) (hn : IsName n) :
    lastElement (clean (path ++ slash :: n)) = n := by
  have hlast := lastElement_intercalate hn.slash_not_mem (cleanElements path)
  rw [clean, cleanElements_append hpath hn]
  split
  · exact (lastElement_append_slash [] _).trans hlast
  · rw [if_neg]
    · exact hlast
    · -- The element that is there keeps the cleaned path from being empty.
      intro hempty
      rw [List.isEmpty_iff.1 hempty] at hlast
      exact hn.ne_nil hlast.symm

/-- Cleaning keeps a name at the end of a path. -/
theorem base_clean (hpath : path ≠ []) (hn : IsName n) : base (clean (path ++ slash :: n)) = n := by
  have hlast := lastElement_clean hpath hn
  rw [base_eq, hlast]
  rw [hlast]
  exact hn.ne_nil

theorem join_pair {d name : Bytes} (hd : d ≠ []) (hname : name ≠ []) :
    join [d, name] = clean (d ++ slash :: name) := by
  have hboth : [d, name].filter (· != []) = [d, name] := by
    simp [hd, hname]
  have hjoined : [slash].intercalate [d, name] = d ++ slash :: name := by
    rw [List.intercalate_cons_of_ne_nil (by simp), List.intercalate_singleton, List.append_assoc]
    rfl
  rw [join, hboth, ← hjoined]

/-! ## Bytes -/

theorem subset_intercalate {sep : Bytes} {es : List Bytes} (h : e ∈ es) :
    e ⊆ sep.intercalate es := by
  induction es with
  | nil => cases h
  | cons x es ih =>
    by_cases hes : es = []
    · subst hes
      rw [List.mem_singleton.1 h, List.intercalate_singleton]
      exact List.Subset.refl x
    · rw [List.intercalate_cons_of_ne_nil hes]
      rcases List.mem_cons.1 h with rfl | h
      · exact fun c hc => by simp [hc]
      · exact fun c hc => by simp [ih h hc]

theorem mem_intercalate {c : UInt8} {sep : Bytes} {es : List Bytes}
    (h : c ∈ sep.intercalate es) : c ∈ sep ∨ ∃ e ∈ es, c ∈ e := by
  induction es with
  | nil => cases h
  | cons x es ih =>
    by_cases hes : es = []
    · subst hes
      rw [List.intercalate_singleton] at h
      exact .inr ⟨x, List.mem_singleton_self x, h⟩
    · rw [List.intercalate_cons_of_ne_nil hes, List.mem_append, List.mem_append] at h
      rcases h with (h | h) | h
      · exact .inr ⟨x, List.mem_cons_self, h⟩
      · exact .inl h
      · exact (ih h).imp_right fun ⟨e, he, hc⟩ => ⟨e, List.mem_cons_of_mem x he, hc⟩

theorem mem_cleanStep {rooted : Bool} {kept : List Bytes} {element : Bytes}
    (h : e ∈ cleanStep rooted kept element) : e ∈ kept ∨ e = element := by
  unfold cleanStep at h
  split at h
  case isTrue => exact .inl h
  case isFalse =>
    split at h
    case isTrue hdots =>
      -- A `..` that stays is the element itself.
      subst hdots
      cases kept with
      | nil => cases rooted <;> simp_all
      | cons top rest =>
        simp only at h
        split at h
        · exact (List.mem_cons.1 h).symm
        · exact .inl (List.mem_cons_of_mem top h)
    case isFalse => exact (List.mem_cons.1 h).symm

theorem mem_foldl_cleanStep {rooted : Bool} {es kept : List Bytes}
    (h : e ∈ es.foldl (cleanStep rooted) kept) : e ∈ kept ∨ e ∈ es := by
  induction es generalizing kept with
  | nil => exact .inl h
  | cons x es ih =>
    rcases ih h with h | h
    · refine (mem_cleanStep h).imp_right ?_
      rintro rfl
      exact List.mem_cons_self
    · exact .inr (List.mem_cons_of_mem x h)

theorem mem_of_mem_cleanElements {c : UInt8} (he : e ∈ cleanElements path)
    (hc : c ∈ e) : c ∈ path := by
  rcases mem_foldl_cleanStep (List.mem_reverse.1 he) with he | he
  · cases he
  · have hpath : [slash].intercalate (elements path) = path := List.intercalate_splitOn slash
    exact hpath ▸ subset_intercalate he hc

theorem mem_clean {c : UInt8} (h : c ∈ clean path) : c ∈ path ∨ c = slash ∨ c = dot := by
  have hbody : c ∈ [slash].intercalate (cleanElements path) → c ∈ path ∨ c = slash ∨ c = dot := by
    intro h
    rcases mem_intercalate h with h | ⟨e, he, hc⟩
    · exact .inr (.inl (List.mem_singleton.1 h))
    · exact .inl (mem_of_mem_cleanElements he hc)
  unfold clean at h
  simp only at h
  split_ifs at h
  · exact (List.mem_cons.1 h).elim (fun h => .inr (.inl h)) hbody
  · exact .inr (.inr (List.mem_singleton.1 h))
  · exact hbody h

/-- Paths that are put together bring in no bytes but slashes and dots. -/
theorem mem_join {c : UInt8} {paths : List Bytes} (h : c ∈ join paths) :
    (∃ p ∈ paths, c ∈ p) ∨ c = slash ∨ c = dot := by
  unfold join at h
  split at h
  · cases h
  · rcases mem_clean h with h | h
    · rcases mem_intercalate h with h | ⟨p, hp, hc⟩
      · exact .inr (.inl (List.mem_singleton.1 h))
      · exact .inl ⟨p, (List.mem_filter.1 hp).1, hc⟩
    · exact .inr h

end TapeCompiler.Path
