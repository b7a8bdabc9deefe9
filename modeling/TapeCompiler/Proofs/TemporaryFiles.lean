import TapeCompiler.Proofs.BuildFiles

/-!
# Where temporary files go

A cleaned path has ways up, unless it is rooted, and after them names
(`Path.IsClean`). Cleaning them again changes nothing, so a cleaned path can be taken apart:
what stands before its last name is the cleaned directory (`Path.dir_clean`), and in a tree
of files it leads to a place directly below the place of that directory
(`Path.StandsIn.of_clean`).

Whatever the output is called, each temporary file of a build stands in the directory for
temporary files, under a name that is no way out of it (`BuildPaths.plan_temporary`).
-/

namespace TapeCompiler

/-! ## Cleaned paths -/

namespace Path

variable {path n e : Bytes} {kept es : List Bytes} {rooted : Bool}

/-- What is left of a path when it is cleaned, last element first: names, and before them
    ways up, which a rooted path does not have. -/
inductive IsClean (rooted : Bool) : List Bytes → Prop where
  | up (k : Nat) (hk : rooted = true → k = 0) : IsClean rooted (List.replicate k [dot, dot])
  | name {n : Bytes} {kept : List Bytes} (hn : IsName n) (hkept : IsClean rooted kept) :
      IsClean rooted (n :: kept)

/-- A text that can stand between two slashes. -/
structure IsElement (e : Bytes) : Prop where
  ne_nil : e ≠ []
  slash_not_mem : slash ∉ e

theorem IsName.isElement (hn : IsName n) : IsElement n :=
  ⟨hn.ne_nil, hn.slash_not_mem⟩

theorem slash_not_mem_of_mem_elements (he : e ∈ elements path) : slash ∉ e := by
  rw [elements] at he
  induction path generalizing e with
  | nil =>
    rw [List.splitOn_nil, List.mem_singleton] at he
    rw [he]
    exact List.not_mem_nil
  | cons c path ih =>
    rw [List.splitOn_cons_eq_if_modifyHead] at he
    split at he
    case isTrue =>
      rcases List.mem_cons.1 he with rfl | he
      · exact List.not_mem_nil
      · exact ih he
    case isFalse hc =>
      cases hsplit : List.splitOn slash path with
      | nil => exact absurd hsplit (List.splitOn_ne_nil slash path)
      | cons first rest =>
        rw [hsplit] at he ih
        rcases List.mem_cons.1 he with rfl | he
        · rw [List.mem_cons, not_or]
          exact ⟨fun h => hc (beq_iff_eq.2 h.symm), ih List.mem_cons_self⟩
        · exact ih (List.mem_cons_of_mem _ he)

theorem IsClean.cleanStep (h : IsClean rooted kept) (he : slash ∉ e) :
    IsClean rooted (cleanStep rooted kept e) := by
  unfold Path.cleanStep
  split
  case isTrue => exact h
  case isFalse hdot =>
    rw [Bool.or_eq_true, decide_eq_true_eq, decide_eq_true_eq, not_or] at hdot
    split
    case isTrue =>
      cases h with
      | up k hk =>
        cases k with
        | zero =>
          cases rooted with
          | false => exact .up 1 (by simp)
          | true => exact .up 0 fun _ => rfl
        | succ k => exact .up (k + 2) fun h => absurd (hk h) (by simp)
      | name hn hkept =>
        simp only [hn.ne_dots, if_false]
        exact hkept
    case isFalse hdots => exact .name ⟨hdot.1, hdot.2, hdots, he⟩ h

theorem IsClean.foldl (h : IsClean rooted kept) (hes : ∀ e ∈ es, slash ∉ e) :
    IsClean rooted (es.foldl (Path.cleanStep rooted) kept) := by
  induction es generalizing kept with
  | nil => exact h
  | cons e es ih =>
    rw [List.forall_mem_cons] at hes
    exact ih (h.cleanStep hes.1) hes.2

theorem isClean_cleanElements (path : Bytes) :
    IsClean (isRooted path) (cleanElements path).reverse := by
  rw [cleanElements, List.reverse_reverse]
  exact IsClean.foldl (.up 0 fun _ => rfl) fun e he => slash_not_mem_of_mem_elements he

theorem IsClean.isElement (h : IsClean rooted kept) : ∀ e ∈ kept, IsElement e := by
  induction h with
  | up k hk =>
    intro e he
    rw [List.eq_of_mem_replicate he]
    exact ⟨by decide, by decide⟩
  | name hn hkept ih =>
    rw [List.forall_mem_cons]
    exact ⟨hn.isElement, ih⟩

theorem isElement_of_mem_cleanElements (path : Bytes) : ∀ e ∈ cleanElements path, IsElement e :=
  fun e he => (isClean_cleanElements path).isElement e (List.mem_reverse.2 he)

/-- Cleaning what is clean keeps it. -/
theorem IsClean.foldl_reverse (h : IsClean rooted kept) :
    kept.reverse.foldl (Path.cleanStep rooted) [] = kept := by
  induction h with
  | up k hk =>
    cases rooted with
    | true => rw [hk rfl]; rfl
    | false =>
      rw [List.reverse_replicate]
      induction k with
      | zero => rfl
      | succ k ih =>
        rw [List.replicate_succ', List.foldl_append, ih (by simp),
          ← List.replicate_succ', List.replicate_succ]
        cases k <;> rfl
  | name hn hkept ih =>
    rw [List.reverse_cons, List.foldl_append, ih]
    exact cleanStep_of_isName hn rooted _

/-! ## Cleaned paths as text -/

/-- What stands before the first slash of a path: nothing, if the path is rooted. -/
def beginning (rooted : Bool) : List Bytes :=
  if rooted then [[]] else []

theorem slash_not_mem_beginning : ∀ e ∈ beginning rooted, slash ∉ e := by
  cases rooted <;> simp [beginning]

theorem intercalate_append (es : List Bytes) (n e : Bytes) :
    [slash].intercalate (es ++ [n ++ e]) = [slash].intercalate (es ++ [n]) ++ e := by
  induction es with
  | nil => simp only [List.nil_append, List.intercalate_singleton]
  | cons x es ih =>
    rw [List.cons_append, List.cons_append, List.intercalate_cons_of_ne_nil (by simp),
      List.intercalate_cons_of_ne_nil (by simp), ih, List.append_assoc (x ++ [slash])]

/-- The elements of a path that was put together from elements. -/
theorem elements_intercalate (rooted : Bool) (hes : ∀ e ∈ es, IsElement e) (hn : slash ∉ n) :
    elements ([slash].intercalate (beginning rooted ++ es ++ [n])) =
      beginning rooted ++ es ++ [n] := by
  refine List.splitOn_intercalate slash (fun e he => ?_) (by simp)
  rw [List.mem_append, List.mem_append, List.mem_singleton] at he
  rcases he with (he | he) | rfl
  · exact slash_not_mem_beginning e he
  · exact (hes e he).slash_not_mem
  · exact hn

theorem isRooted_intercalate (rooted : Bool) (hes : ∀ e ∈ es, IsElement e) (hn : slash ∉ n) :
    isRooted ([slash].intercalate (beginning rooted ++ es ++ [n])) = rooted := by
  have hhead : ∀ e : Bytes, slash ∉ e → e.head? ≠ some slash :=
    fun e he h => he (List.mem_of_head? h)
  cases rooted with
  | true =>
    rw [beginning, if_pos rfl, List.append_assoc, List.singleton_append,
      List.intercalate_cons_of_ne_nil (by simp)]
    rfl
  | false =>
    rw [beginning, if_neg (by decide), List.nil_append, isRooted, beq_eq_false_iff_ne]
    cases es with
    | nil =>
      rw [List.nil_append, List.intercalate_singleton]
      exact hhead n hn
    | cons e es =>
      obtain ⟨hne, hslash⟩ := hes e List.mem_cons_self
      rw [List.cons_append, List.intercalate_cons_of_ne_nil (by simp), List.append_assoc,
        List.head?_append_of_ne_nil e hne]
      exact hhead e hslash

/-- A cleaned path is put together from its elements, if it has any. -/
theorem clean_of_concat (h : cleanElements path = es ++ [n]) (hn : IsElement n) :
    clean path = [slash].intercalate (beginning (isRooted path) ++ es ++ [n]) := by
  have hlast := lastElement_intercalate hn.slash_not_mem es
  rw [clean, h, beginning]
  split
  · rw [List.append_assoc, List.singleton_append, List.intercalate_cons_of_ne_nil (by simp)]
    rfl
  · rw [if_neg, List.nil_append]
    intro hempty
    rw [List.isEmpty_iff.1 hempty] at hlast
    exact hn.ne_nil hlast.symm

theorem clean_append (hpath : path ≠ []) (hn : IsName n) :
    clean (path ++ slash :: n) =
      [slash].intercalate (beginning (isRooted path) ++ cleanElements path ++ [n]) := by
  rw [← isRooted_append hpath (slash :: n)]
  exact clean_of_concat (cleanElements_append hpath hn) hn.isElement

/-- More characters at the end of a name are cleaned away no more than the name is. -/
theorem clean_append_append (hpath : path ≠ []) (hn : IsName n) (hne : IsName (n ++ e)) :
    clean (path ++ slash :: (n ++ e)) = clean (path ++ slash :: n) ++ e := by
  rw [clean_append hpath hn, clean_append hpath hne, intercalate_append]

theorem parentPart_append_lastElement (path : Bytes) :
    parentPart path ++ lastElement path = path :=
  List.rdropWhile_append_rtakeWhile

theorem parentPart_intercalate (hn : slash ∉ n) (es : List Bytes) :
    parentPart ([slash].intercalate (es ++ [n])) = [slash].intercalate (es ++ [[]]) := by
  have hsplit := parentPart_append_lastElement ([slash].intercalate (es ++ [n]))
  rw [lastElement_intercalate hn] at hsplit
  rw [← List.append_left_inj n, hsplit, ← intercalate_append, List.nil_append]

/-- What stands before the last name of a cleaned path is the cleaned directory. -/
theorem dir_clean (hpath : path ≠ []) (hn : IsName n) :
    dir (clean (path ++ slash :: n)) = clean path := by
  have hes := isElement_of_mem_cleanElements path
  rw [dir, clean_append hpath hn, parentPart_intercalate hn.slash_not_mem]
  -- The directory with a slash behind it has the elements of the directory, and an empty one.
  have hrooted := isRooted_intercalate (isRooted path) hes List.not_mem_nil
  have hkept : cleanElements ([slash].intercalate
      (beginning (isRooted path) ++ cleanElements path ++ [[]])) = cleanElements path := by
    have hfold := (isClean_cleanElements path).foldl_reverse
    rw [List.reverse_reverse] at hfold
    rw [cleanElements, hrooted, elements_intercalate _ hes List.not_mem_nil, List.foldl_append,
      List.foldl_append]
    have hbeginning : (beginning (isRooted path)).foldl (cleanStep (isRooted path)) [] = [] := by
      cases isRooted path <;> rfl
    rw [hbeginning, hfold]
    exact List.reverse_reverse _
  rw [clean, hrooted, hkept]
  rfl

/-! ## Files in a directory -/

/-- The path of a file that stands in a directory under a name: by its text, and wherever the
    two lead to in a tree of files. -/
structure StandsIn (directory name file : Bytes) : Prop where
  dir : dir file = directory
  base : base file = name
  /-- Nothing but a place directly below that of the directory is touched by way of the file. -/
  leads {files : FileTree} {cwd place : Place} (h : files.Leads cwd file place) :
    ∃ parent, files.Leads cwd directory parent ∧ place = parent ++ [name]
  /-- If the directory is there, the file can be. -/
  reached {files : FileTree} {cwd parent : Place}
    (h : files.find cwd directory = .ok (parent, .directory)) :
    files.Leads cwd file (parent ++ [name])

end Path

namespace FileTree

variable {t : FileTree} {cwd place parent : Place} {es : List Bytes} {n : Bytes}

/-- The place where a path starts. -/
def origin (rooted : Bool) (cwd : Place) : Place :=
  if rooted then [] else cwd

theorem lastStep_intercalate (rooted : Bool) (hes : ∀ e ∈ es, Path.IsElement e)
    (hn : Path.IsElement n) :
    t.lastStep cwd ([Path.slash].intercalate (Path.beginning rooted ++ es ++ [n])) =
      (t.follow (origin rooted cwd) es).map (⟨·, n, false⟩) := by
  have helements := Path.elements_intercalate rooted hes hn.slash_not_mem
  have hrooted := Path.isRooted_intercalate rooted hes hn.slash_not_mem
  have hlast := Path.lastElement_intercalate hn.slash_not_mem (Path.beginning rooted ++ es)
  generalize [Path.slash].intercalate (Path.beginning rooted ++ es ++ [n]) = path at *
  have hpath : ¬path.isEmpty := by
    rw [List.isEmpty_iff]
    rintro rfl
    exact hn.ne_nil hlast.symm
  have hnames : (Path.beginning rooted ++ es ++ [n]).filter (· != []) = es ++ [n] := by
    have hbeginning : (Path.beginning rooted).filter (· != []) = [] := by cases rooted <;> rfl
    have hkept : es.filter (· != []) = es := by
      rw [List.filter_eq_self]
      exact fun e he => bne_iff_ne.2 (hes e he).ne_nil
    rw [List.filter_append, List.filter_append, hbeginning, hkept, List.filter_singleton,
      bne_iff_ne.2 hn.ne_nil]
    rfl
  rw [lastStep, if_neg hpath]
  simp only [helements, hnames, hrooted, List.dropLast_concat, List.getLastD_concat]
  rw [decide_eq_false hn.ne_nil, Bool.false_and, origin]
  cases t.follow (if rooted then [] else cwd) es <;> rfl

theorem leads_intercalate (rooted : Bool) (hes : ∀ e ∈ es, Path.IsElement e)
    (hn : Path.IsElement n) :
    t.Leads cwd ([Path.slash].intercalate (Path.beginning rooted ++ es ++ [n])) place ↔
      ∃ parent, t.follow (origin rooted cwd) es = .ok parent ∧ descend parent n = place := by
  rw [Leads, lastStep_intercalate rooted hes hn]
  cases t.follow (origin rooted cwd) es <;> simp [Except.map]

theorem follow_concat {names : List Bytes} {name : Bytes} :
    t.follow cwd (names ++ [name]) = .ok place ↔
      ∃ parent, t.follow cwd names = .ok parent ∧ descend parent name = place ∧
        t.get? place = some .directory := by
  induction names generalizing cwd with
  | nil =>
    simp only [List.nil_append, follow, Except.ok.injEq, exists_eq_left']
    constructor
    · split
      case h_1 hdir =>
        rintro ⟨⟩
        exact ⟨rfl, hdir⟩
      case h_2 | h_3 => rintro ⟨⟩
    · rintro ⟨rfl, hdir⟩
      rw [hdir]
  | cons x names ih =>
    simp only [List.cons_append, follow]
    split
    case h_1 => exact ih
    case h_2 | h_3 => simp

/-- A cleaned path can be followed to its end if it leads to a directory. Without elements
    there is nothing to follow. -/
theorem follow_cleanElements {path : Bytes} :
    t.follow (origin (Path.isRooted path) cwd) (Path.cleanElements path) = .ok parent ↔
      t.Leads cwd (Path.clean path) parent ∧
        (Path.cleanElements path ≠ [] → t.get? parent = some .directory) := by
  have hes := Path.isElement_of_mem_cleanElements path
  rcases List.eq_nil_or_concat (Path.cleanElements path) with hnil | ⟨es, n, hconcat⟩
  · rw [Path.clean, hnil]
    cases Path.isRooted path with
    | true =>
      have hstep : t.lastStep cwd [Path.slash] = .ok ⟨[], [Path.dot], false⟩ := rfl
      simp [Leads, follow, hstep, descend, origin, eq_comm]
    | false =>
      have hstep : t.lastStep cwd [Path.dot] = .ok ⟨cwd, [Path.dot], false⟩ := rfl
      simp [Leads, follow, hstep, descend, origin, eq_comm]
  · rw [List.concat_eq_append] at hconcat
    rw [hconcat, List.forall_mem_append, List.forall_mem_singleton] at hes
    rw [Path.clean_of_concat hconcat hes.2, leads_intercalate _ hes.1 hes.2, hconcat,
      follow_concat]
    simp only [← and_assoc, exists_and_right, ne_eq, List.append_eq_nil_iff, List.cons_ne_nil,
      and_false, not_false_eq_true, forall_const]

end FileTree

namespace Path

variable {path n : Bytes}

theorem IsName.descend_eq (hn : IsName n) (parent : Place) :
    FileTree.descend parent n = parent ++ [n] := by
  rw [FileTree.descend, if_neg hn.ne_dot, if_neg hn.ne_dots]

/-- A file whose path was put together from that of a directory and a name stands in that
    directory under that name. -/
theorem StandsIn.of_clean (hpath : path ≠ []) (hn : IsName n) :
    StandsIn (clean path) n (clean (path ++ slash :: n)) := by
  have hleads : ∀ (files : FileTree) (cwd place : Place),
      files.Leads cwd (clean (path ++ slash :: n)) place ↔
        ∃ parent, files.follow (FileTree.origin (isRooted path) cwd) (cleanElements path) =
            .ok parent ∧ FileTree.descend parent n = place := by
    intro files cwd place
    rw [clean_append hpath hn]
    exact FileTree.leads_intercalate _ (isElement_of_mem_cleanElements path) hn.isElement
  refine ⟨dir_clean hpath hn, base_clean hpath hn, ?_, ?_⟩
  · intro files cwd place h
    obtain ⟨parent, hfollow, hplace⟩ := (hleads files cwd place).1 h
    refine ⟨parent, (FileTree.follow_cleanElements.1 hfollow).1, ?_⟩
    rw [← hplace, hn.descend_eq]
  · intro files cwd parent h
    obtain ⟨s, hs, hparent, hdir, -⟩ := FileTree.find_eq_ok_iff.1 h
    have hfollow := FileTree.follow_cleanElements.2 ⟨⟨s, hs, hparent⟩, fun _ => hdir⟩
    exact (hleads files cwd _).2 ⟨parent, hfollow, hn.descend_eq parent⟩

/-- A slash at the end of a path is cleaned away. -/
theorem clean_append_slash (hpath : path ≠ []) :
    clean (path ++ [slash]) = clean path := by
  have helements : elements (path ++ [slash]) = elements path ++ [[]] :=
    List.splitOn_append_cons_self path []
  rw [clean, cleanElements, isRooted_append hpath, helements, List.foldl_append]
  rfl

end Path

/-! ## Temporary files -/

namespace BuildPaths

/-- The name of the output, as far as temporary files go by it: without the extension, and
    empty if the output is the root. -/
def temporaryName (output : Bytes) : Bytes :=
  if Path.base (Path.stem output) = [Path.slash] then [] else Path.base (Path.stem output)

theorem slash_not_mem_temporaryName (output : Bytes) : Path.slash ∉ temporaryName output := by
  rw [temporaryName]
  split
  case isTrue => exact List.not_mem_nil
  case isFalse h => exact (Path.base_eq_or_not_mem _).resolve_left h

/-- What temporary files start with: a directory that is as good as the one for temporary
    files, and in it a name. -/
theorem exists_intermediateStem_eq (output : Bytes) (seconds : Int) (tmpdir : Bytes) :
    ∃ path, path ≠ [] ∧ Path.clean path = Path.clean (temporaryDirectory tmpdir) ∧
      intermediateStem output false seconds tmpdir =
        Path.clean (path ++ Path.slash :: (temporaryName output ++ "_" ++ toString seconds)) := by
  have hdir := temporaryDirectory_ne tmpdir
  rw [intermediateStem_temporary, temporaryName]
  split
  case isTrue hroot =>
    -- The name of the root is one more slash behind the directory.
    refine ⟨temporaryDirectory tmpdir ++ [Path.slash], by simp, Path.clean_append_slash hdir, ?_⟩
    rw [hroot, List.append_assoc (temporaryDirectory tmpdir)]
    rfl
  case isFalse => exact ⟨_, hdir, rfl, rfl⟩

theorem standsIn_intermediateStem {e : Bytes} (he : Path.IsExt e) (output : Bytes) (seconds : Int)
    (tmpdir : Bytes) :
    Path.StandsIn (Path.clean (temporaryDirectory tmpdir))
      (temporaryName output ++ "_" ++ toString seconds ++ e)
      (intermediateStem output false seconds tmpdir ++ e) := by
  obtain ⟨w, hw, -, hslash⟩ := he
  obtain ⟨path, hpath, hclean, hstem⟩ := exists_intermediateStem_eq output seconds tmpdir
  have hname := slash_not_mem_temporaryName output
  have hdigits := slash_not_mem_toString seconds
  -- Neither the time nor the extension brings in a slash.
  have hn : Path.IsName (temporaryName output ++ "_" ++ toString seconds ++ e) := by
    rw [List.append_assoc]
    refine isName_underscore hname ?_
    rw [hw, List.mem_append, List.mem_cons, not_or, not_or]
    exact ⟨hdigits, by decide, hslash⟩
  have hfile := Path.clean_append_append hpath (isName_underscore hname hdigits) hn
  have hstands := Path.StandsIn.of_clean hpath hn
  rwa [hfile, hclean, ← hstem] at hstands

/-- Temporary files stand in the directory for temporary files, directly and under the name of
    the output, the time and their extension, whatever the output and that directory are
    called. -/
theorem plan_temporary (source output : Bytes) (seconds : Int) (tmpdir : Bytes) :
    let p := plan source output false seconds tmpdir
    let directory := Path.clean (temporaryDirectory tmpdir)
    let name := temporaryName output ++ "_" ++ toString seconds
    Path.slash ∉ temporaryName output ∧
      Path.StandsIn directory (name ++ ".S") p.assembly ∧
      Path.StandsIn directory (name ++ ".c") p.cSource ∧
      Path.StandsIn directory (name ++ ".o") p.object :=
  ⟨slash_not_mem_temporaryName output,
    standsIn_intermediateStem isExt_assembly output seconds tmpdir,
    standsIn_intermediateStem isExt_cSource output seconds tmpdir,
    standsIn_intermediateStem isExt_object output seconds tmpdir⟩

example : (plan "p.b" "../...tar" false 5 "/a//b/..").assembly = "/a/.._5.S" := by decide +kernel

end BuildPaths

end TapeCompiler
