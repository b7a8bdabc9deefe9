import Mathlib.Tactic.SplitIfs
import TapeCompiler.Document.Json
import TapeCompiler.Proofs.JsonGrammar

/-!
# Documents are well-formed JSON

The JSON of a document is collected in pieces, last first. Each function that adds
pieces adds one production of the grammar, so the whole is a text with the document's
value (`Document.isText_json`): escapes stand for the characters they replace, numbers
are exact, and indentation is blank.
-/

namespace TapeCompiler

/-! ## Strings -/

namespace Json

theorem hexDigit?_hexDigit (n : Nat) : hexDigit? (Quoted.hexDigit n) = some (n % 16) := by
  have hall : ∀ k : Fin 16, hexDigit? (Nat.digitChar k) = some k.val := by decide
  exact hall ⟨n % 16, Nat.mod_lt n (by decide)⟩

/-- Four hexadecimal digits are read back. -/
theorem hex?_hex {n : Nat} (h : n < 0x10000) : hex? (Quoted.hex 4 n) = some n := by
  simp only [hex?, Quoted.hex, List.nil_append, List.cons_append, List.foldlM_cons, List.foldlM_nil,
    hexDigit?_hexDigit, Option.map_some, Option.bind_eq_bind, Option.bind_some, Option.pure_def,
    Option.some.injEq]
  omega

theorem length_hex (width n : Nat) : (Quoted.hex width n).length = width := by
  induction width generalizing n with
  | zero => rfl
  | succ width ih => simp [Quoted.hex, ih]

/-- A character of the first few thousand may be written by its number. -/
theorem isEscape_hex {c : Char} (h : c.toNat < 0xD800) :
    IsEscape ('u' :: Quoted.hex 4 c.toNat) c := by
  have hescape := IsEscape.unit (length_hex 4 c.toNat) (hex?_hex (by omega))
    (by simp [isHigh]; omega) (by simp [isLow]; omega)
  rwa [Char.ofNat_toNat] at hescape

theorem IsContents.jsonChar {cs s : List Char} (h : IsContents cs s) (c : Char) :
    IsContents (Document.jsonChar c ++ cs) (c :: s) := by
  have hshort {d : Char} (hd : short? d = some c) : IsContents (['\\', d] ++ cs) (c :: s) :=
    .escape (.short hd) h
  unfold Document.jsonChar
  split_ifs with hself hb hf hn hr ht hcode
  · simp only [Bool.or_eq_true, decide_eq_true_eq] at hself
    rcases hself with rfl | rfl <;> exact hshort rfl
  · subst hb
    exact hshort rfl
  · subst hf
    exact hshort rfl
  · subst hn
    exact hshort rfl
  · subst hr
    exact hshort rfl
  · subst ht
    exact hshort rfl
  · refine .escape (isEscape_hex ?_) h
    simp only [Bool.or_eq_true, decide_eq_true_eq] at hcode
    rcases hcode with ((((hlow | rfl) | rfl) | rfl) | rfl) | rfl
    · omega
    all_goals decide
  · simp only [Bool.or_eq_true, decide_eq_true_eq, not_or, Nat.not_lt] at hself hcode
    exact .plain (by simp [isPlain, hself, hcode]) h

theorem isContents_flatMap (s : List Char) : IsContents (s.flatMap Document.jsonChar) s := by
  induction s with
  | nil => exact .nil
  | cons c s ih => exact ih.jsonChar c

theorem isString_jsonString (s : String) : IsString (Document.jsonString s).toList s := by
  have h := IsString.mk (isContents_flatMap s.toList)
  rw [String.ofList_toList] at h
  rwa [Document.jsonString, String.toList_ofList]

/-! ## Numbers -/

/-- Only zero starts with a zero. -/
theorem head?_toDigits (n : Nat) (h : (Nat.toDigits 10 n).head? = some '0') : n = 0 := by
  induction n using Nat.strong_induction_on with
  | _ n ih =>
    rcases Nat.lt_or_ge n 10 with hn | hn
    · have hall : ∀ k : Fin 10, Nat.digitChar k = '0' → k.val = 0 := by decide
      rw [Nat.toDigits_of_lt_base hn] at h
      exact hall ⟨n, hn⟩ (Option.some.inj h)
    · rw [Nat.toDigits_of_base_le (by decide) hn,
        List.head?_append_of_ne_nil _ Nat.toDigits_ne_nil] at h
      have := ih (n / 10) (by omega) h
      omega

theorem isUnsigned_toString (n : Nat) : IsUnsigned (toString n).toList n 0 := by
  have hdigits : IsDigits (toString n).toList :=
    ⟨Lexeme.toList_toString_ne_nil n, fun _ hc => Lexeme.isDigit_of_mem_toString hc⟩
  have hzero (h : (toString n).toList.head? = some '0') : (toString n).toList = ['0'] := by
    rw [Lexeme.toList_toString] at h
    rw [head?_toDigits n h]
    rfl
  have h := IsUnsigned.mk hdigits hzero .none .none
  simpa [Lexeme.toList_toString, Nat.ofDigitChars_ten_toDigits] using h

theorem isNumber_toString (n : Int) : IsNumber (toString n).toList n 0 := by
  cases n with
  | ofNat n => exact .positive (isUnsigned_toString n)
  | negSucc n =>
    have htext : (toString (Int.negSucc n)).toList = '-' :: (toString (n + 1)).toList :=
      String.toList_append
    rw [htext]
    exact .negative (isUnsigned_toString (n + 1))

end Json

/-! ## Documents -/

namespace Document

mutual

/-- The value that a document writes down. -/
def value : Document → Json.Value
  | null => .null
  | int n => .number n 0
  | text s => .string s
  | list items => .array (values items)
  | fields entries => .object (members entries)

/-- The values of a list of documents. -/
def values : List Document → List Json.Value
  | [] => []
  | d :: ds => d.value :: values ds

/-- The members that fields write down. -/
def members : List (String × Document) → List (String × Json.Value)
  | [] => []
  | (key, d) :: es => (key, d.value) :: members es

end

/-- The characters of pieces that stand last first. -/
def written (pieces : List String) : List Char :=
  pieces.reverse.flatMap String.toList

theorem written_cons (piece : String) (pieces : List String) :
    written (piece :: pieces) = written pieces ++ piece.toList := by
  simp [written]

theorem blank_newline (depth : Nat) : Json.Blank (newline depth).toList := by
  intro c hc
  simp only [newline, String.toList_ofList, List.mem_cons, List.mem_replicate] at hc
  rcases hc with rfl | ⟨-, rfl⟩ <;> rfl

theorem isKey_pieces (depth : Nat) (key : String) :
    Json.IsKey ((newline depth).toList ++ ((jsonString key).toList ++ [':', ' '])) key := by
  have hblank : Json.Blank [' '] := by simp [Json.Blank, Json.isBlank]
  have h := Json.IsKey.mk (blank_newline depth) (Json.isString_jsonString key) Json.blank_nil hblank
  exact h

open Json

mutual

/-- The pieces of a document are its value, behind what is there. -/
theorem isValue_jsonOnto (depth : Nat) (acc : List String) :
    (d : Document) → ∃ cs, written (jsonOnto depth acc d) = written acc ++ cs ∧ IsValue cs d.value
  | null => ⟨_, written_cons "null" acc, .null⟩
  | int n => ⟨_, written_cons (toString n) acc, .number (isNumber_toString n)⟩
  | text s => ⟨_, written_cons (jsonString s) acc, .string (isString_jsonString s)⟩
  | list [] => ⟨_, written_cons "[]" acc, @IsValue.emptyArray [] blank_nil⟩
  | list (d :: ds) => by
    obtain ⟨cs, hcs, hd⟩ := isValue_jsonOnto (depth + 1) (newline (depth + 1) :: "[" :: acc) d
    have hfirst : written (jsonOnto (depth + 1) (newline (depth + 1) :: "[" :: acc) d) =
        (written acc ++ ['[']) ++ ((newline (depth + 1)).toList ++ cs) := by
      simp [hcs, written_cons]
    obtain ⟨ts, hts, hitems⟩ :=
      isItems_jsonItemsOnto depth (blank_newline (depth + 1)) hd hfirst ds
    refine ⟨'[' :: ((ts ++ (newline depth).toList) ++ [']']), ?_,
      .array (hitems _ (blank_newline depth))⟩
    simp [jsonOnto, written_cons, hts]
  | fields [] => ⟨_, written_cons "\x7b\x7d" acc, @IsValue.emptyObject [] blank_nil⟩
  | fields ((key, d) :: es) => by
    obtain ⟨cs, hcs, hd⟩ := isValue_jsonOnto (depth + 1)
      (": " :: jsonString key :: newline (depth + 1) :: "\x7b" :: acc) d
    have hfirst : written (jsonOnto (depth + 1)
        (": " :: jsonString key :: newline (depth + 1) :: "\x7b" :: acc) d) =
        (written acc ++ ['\x7b']) ++
          (((newline (depth + 1)).toList ++ ((jsonString key).toList ++ [':', ' '])) ++ cs) := by
      simp [hcs, written_cons]
    obtain ⟨ts, hts, hmembers⟩ :=
      isMembers_jsonFieldsOnto depth (isKey_pieces (depth + 1) key) hd hfirst es
    refine ⟨'\x7b' :: ((ts ++ (newline depth).toList) ++ ['\x7d']), ?_,
      .object (hmembers _ (blank_newline depth))⟩
    simp [jsonOnto, written_cons, hts]

/-- The pieces of further items go on the list whose last item is `v`. -/
theorem isItems_jsonItemsOnto (depth : Nat) {acc : List String} {before w cs : List Char}
    {v : Value} (hw : Blank w) (hv : IsValue cs v) (hacc : written acc = before ++ (w ++ cs)) :
    (ds : List Document) → ∃ ts, written (jsonItemsOnto depth acc ds) = before ++ ts ∧
      ∀ w', Blank w' → IsItems (ts ++ w') (v :: values ds)
  | [] => ⟨w ++ cs, hacc, fun w' hw' => by
      rw [List.append_assoc]
      exact .last hw hv hw'⟩
  | d :: ds => by
    obtain ⟨cs', hcs', hd⟩ := isValue_jsonOnto (depth + 1) (newline (depth + 1) :: "," :: acc) d
    have hnext : written (jsonOnto (depth + 1) (newline (depth + 1) :: "," :: acc) d) =
        (before ++ (w ++ (cs ++ [',']))) ++ ((newline (depth + 1)).toList ++ cs') := by
      simp [hcs', written_cons, hacc]
    obtain ⟨ts, hts, hitems⟩ :=
      isItems_jsonItemsOnto depth (blank_newline (depth + 1)) hd hnext ds
    refine ⟨w ++ (cs ++ ',' :: ts), ?_, fun w' hw' => ?_⟩
    · simp [jsonItemsOnto, hts]
    · have h := IsItems.cons hw hv blank_nil (hitems w' hw')
      simpa [values] using h

/-- The pieces of further fields go on the object whose last member is `k` with `v`. -/
theorem isMembers_jsonFieldsOnto (depth : Nat) {acc : List String} {before ks cs : List Char}
    {k : String} {v : Value} (hk : IsKey ks k) (hv : IsValue cs v)
    (hacc : written acc = before ++ (ks ++ cs)) :
    (es : List (String × Document)) → ∃ ts, written (jsonFieldsOnto depth acc es) = before ++ ts ∧
      ∀ w', Blank w' → IsMembers (ts ++ w') ((k, v) :: members es)
  | [] => ⟨ks ++ cs, hacc, fun w' hw' => by
      rw [List.append_assoc]
      exact .last hk hv hw'⟩
  | (key, d) :: es => by
    obtain ⟨cs', hcs', hd⟩ := isValue_jsonOnto (depth + 1)
      (": " :: jsonString key :: newline (depth + 1) :: "," :: acc) d
    have hnext : written (jsonOnto (depth + 1)
        (": " :: jsonString key :: newline (depth + 1) :: "," :: acc) d) =
        (before ++ (ks ++ (cs ++ [',']))) ++
          (((newline (depth + 1)).toList ++ ((jsonString key).toList ++ [':', ' '])) ++ cs') := by
      simp [hcs', written_cons, hacc]
    obtain ⟨ts, hts, hmembers⟩ :=
      isMembers_jsonFieldsOnto depth (isKey_pieces (depth + 1) key) hd hnext es
    refine ⟨ks ++ (cs ++ ',' :: ts), ?_, fun w' hw' => ?_⟩
    · simp [jsonFieldsOnto, hts]
    · have h := IsMembers.cons hk hv blank_nil (hmembers w' hw')
      simpa [members] using h

end

end Document

end TapeCompiler
