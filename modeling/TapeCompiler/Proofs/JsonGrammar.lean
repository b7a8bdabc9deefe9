import TapeCompiler.Proofs.Lexeme

/-!
# JSON

A JSON text stands for a value. The grammar is that of the format: which characters
are a number, a string or a value is a relation for each production (`Json.IsValue`),
and blanks may stand around a value and around punctuation.

A reader goes through the text once, character by character. It keeps a stack of what
it has seen and not yet put together, and puts a list or an object together at its
closing bracket (`Json.read`).

  * `Json.IsText.read`: the reader finds the value of every text of the grammar.
  * `Json.IsText.unique`: no text stands for two values.
-/

namespace TapeCompiler.Json

/-- What a JSON text stands for. -/
inductive Value
  | null
  | bool (b : Bool)
  /-- The number `mantissa * 10 ^ exponent`. -/
  | number (mantissa exponent : Int)
  | string (s : String)
  | array (items : List Value)
  | object (members : List (String × Value))

/-! ## Characters -/

/-- Blanks separate. -/
def isBlank (c : Char) : Bool :=
  c = ' ' || c = '\t' || c = '\n' || c = '\r'

/-- Characters of names and numbers. -/
def isWordChar (c : Char) : Bool :=
  c.isAlphanum || c = '+' || c = '-' || c = '.'

/-- Characters that stand for themselves in a string. -/
def isPlain (c : Char) : Bool :=
  c ≠ '"' && c ≠ '\\' && 0x20 ≤ c.toNat

/-- The character that a backslash and one letter stand for. -/
def short? : Char → Option Char
  | '"' => some '"'
  | '\\' => some '\\'
  | '/' => some '/'
  | 'b' => some '\x08'
  | 'f' => some '\x0c'
  | 'n' => some '\n'
  | 'r' => some '\r'
  | 't' => some '\t'
  | _ => none

/-- The value of a hexadecimal digit of either case. -/
def hexDigit? (c : Char) : Option Nat :=
  if c.isDigit then some (c.toNat - 48)
  else if 'a' ≤ c ∧ c ≤ 'f' then some (c.toNat - 87)
  else if 'A' ≤ c ∧ c ≤ 'F' then some (c.toNat - 55)
  else none

/-- The value of hexadecimal digits. -/
def hex? (digits : List Char) : Option Nat :=
  digits.foldlM (fun n c => (hexDigit? c).map (16 * n + ·)) 0

/-- The first half of a character that takes two code units. -/
def isHigh (n : Nat) : Bool :=
  0xD800 ≤ n && n < 0xDC00

/-- The second half of such a character. -/
def isLow (n : Nat) : Bool :=
  0xDC00 ≤ n && n < 0xE000

/-- The character of two code units. -/
def pairChar (high low : Nat) : Char :=
  Char.ofNat (0x10000 + 0x400 * (high - 0xD800) + (low - 0xDC00))

/-! ## The grammar -/

/-- The characters are blanks. -/
def Blank (cs : List Char) : Prop :=
  ∀ c ∈ cs, isBlank c

/-- The characters are one or more decimal digits. -/
def IsDigits (cs : List Char) : Prop :=
  cs ≠ [] ∧ ∀ c ∈ cs, c.isDigit

/-- The fraction of a number, with its digits. -/
inductive IsFraction : List Char → List Char → Prop
  | none : IsFraction [] []
  | point {ds : List Char} : IsDigits ds → IsFraction ('.' :: ds) ds

/-- The exponent of a number, with its value. -/
inductive IsExponent : List Char → Int → Prop
  | none : IsExponent [] 0
  | plain {e : Char} {ds : List Char} : e = 'e' ∨ e = 'E' → IsDigits ds →
    IsExponent (e :: ds) (Nat.ofDigitChars 10 ds 0)
  | plus {e : Char} {ds : List Char} : e = 'e' ∨ e = 'E' → IsDigits ds →
    IsExponent (e :: '+' :: ds) (Nat.ofDigitChars 10 ds 0)
  | minus {e : Char} {ds : List Char} : e = 'e' ∨ e = 'E' → IsDigits ds →
    IsExponent (e :: '-' :: ds) (-Nat.ofDigitChars 10 ds 0)

/-- A number without its sign. Only a lone zero starts with a zero. -/
inductive IsUnsigned : List Char → Nat → Int → Prop
  | mk {ds fs gs es : List Char} {e : Int} : IsDigits ds → (ds.head? = some '0' → ds = ['0']) →
    IsFraction fs gs → IsExponent es e →
    IsUnsigned (ds ++ (fs ++ es)) (Nat.ofDigitChars 10 (ds ++ gs) 0) (e - gs.length)

/-- A number. -/
inductive IsNumber : List Char → Int → Int → Prop
  | positive {cs : List Char} {m : Nat} {e : Int} : IsUnsigned cs m e → IsNumber cs m e
  | negative {cs : List Char} {m : Nat} {e : Int} : IsUnsigned cs m e → IsNumber ('-' :: cs) (-m) e

/-- What may follow a backslash, with the character it stands for. -/
inductive IsEscape : List Char → Char → Prop
  | short {c d : Char} : short? c = some d → IsEscape [c] d
  | unit {ds : List Char} {n : Nat} : ds.length = 4 → hex? ds = some n →
    isHigh n = false → isLow n = false → IsEscape ('u' :: ds) (Char.ofNat n)
  | pair {ds es : List Char} {high low : Nat} : ds.length = 4 → es.length = 4 →
    hex? ds = some high → hex? es = some low → isHigh high → isLow low →
    IsEscape ('u' :: ds ++ '\\' :: 'u' :: es) (pairChar high low)

/-- What may stand between quotation marks, with the characters it stands for. -/
inductive IsContents : List Char → List Char → Prop
  | nil : IsContents [] []
  | plain {c : Char} {cs s : List Char} : isPlain c → IsContents cs s →
    IsContents (c :: cs) (c :: s)
  | escape {e cs s : List Char} {c : Char} : IsEscape e c → IsContents cs s →
    IsContents ('\\' :: e ++ cs) (c :: s)

/-- A string with its quotation marks. -/
inductive IsString : List Char → String → Prop
  | mk {cs s : List Char} : IsContents cs s → IsString ('"' :: (cs ++ ['"'])) (String.ofList s)

/-- The characters are the name of a member and the colon behind it. -/
inductive IsKey : List Char → String → Prop
  | mk {w cs w' w'' : List Char} {k : String} : Blank w → IsString cs k → Blank w' → Blank w'' →
    IsKey (w ++ (cs ++ (w' ++ ':' :: w''))) k

mutual

/-- The characters are the value. -/
inductive IsValue : List Char → Value → Prop
  | null : IsValue ['n', 'u', 'l', 'l'] .null
  | true : IsValue ['t', 'r', 'u', 'e'] (.bool true)
  | false : IsValue ['f', 'a', 'l', 's', 'e'] (.bool false)
  | number {cs : List Char} {m e : Int} : IsNumber cs m e → IsValue cs (.number m e)
  | string {cs : List Char} {s : String} : IsString cs s → IsValue cs (.string s)
  | emptyArray {w : List Char} : Blank w → IsValue ('[' :: (w ++ [']'])) (.array [])
  | array {cs : List Char} {vs : List Value} : IsItems cs vs →
    IsValue ('[' :: (cs ++ [']'])) (.array vs)
  | emptyObject {w : List Char} : Blank w → IsValue ('\x7b' :: (w ++ ['\x7d'])) (.object [])
  | object {cs : List Char} {ms : List (String × Value)} : IsMembers cs ms →
    IsValue ('\x7b' :: (cs ++ ['\x7d'])) (.object ms)

/-- The characters are the items of a list, with commas between them. -/
inductive IsItems : List Char → List Value → Prop
  | last {w cs w' : List Char} {v : Value} : Blank w → IsValue cs v → Blank w' →
    IsItems (w ++ (cs ++ w')) [v]
  | cons {w cs w' ds : List Char} {v : Value} {vs : List Value} : Blank w → IsValue cs v →
    Blank w' → IsItems ds vs → IsItems (w ++ (cs ++ (w' ++ ',' :: ds))) (v :: vs)

/-- The characters are the members of an object, with commas between them. -/
inductive IsMembers : List Char → List (String × Value) → Prop
  | last {ks cs w : List Char} {k : String} {v : Value} : IsKey ks k → IsValue cs v → Blank w →
    IsMembers (ks ++ (cs ++ w)) [(k, v)]
  | cons {ks cs w ds : List Char} {k : String} {v : Value} {ms : List (String × Value)} :
    IsKey ks k → IsValue cs v → Blank w → IsMembers ds ms →
    IsMembers (ks ++ (cs ++ (w ++ ',' :: ds))) ((k, v) :: ms)

end

/-- The characters are a whole text with the value. -/
inductive IsText : List Char → Value → Prop
  | mk {w cs w' : List Char} {v : Value} : Blank w → IsValue cs v → Blank w' →
    IsText (w ++ (cs ++ w')) v

/-! ## Reading -/

/-- The digits of a fraction, and what follows it. -/
def fraction? : List Char → Option (List Char × List Char)
  | '.' :: cs =>
    if cs.takeWhile Char.isDigit = [] then none
    else some (cs.takeWhile Char.isDigit, cs.dropWhile Char.isDigit)
  | cs => some ([], cs)

/-- The value of an exponent that stands at the end of a number. -/
def exponent? : List Char → Option Int
  | [] => some 0
  | e :: cs =>
    if e = 'e' ∨ e = 'E' then
      match cs with
      | '+' :: ds => (Lexeme.number? (String.ofList ds)).map (↑)
      | '-' :: ds => (Lexeme.number? (String.ofList ds)).map (-↑·)
      | ds => (Lexeme.number? (String.ofList ds)).map (↑)
    else none

/-- Mantissa and exponent of a number without a sign. -/
def unsigned? (cs : List Char) : Option (Nat × Int) :=
  let ds := cs.takeWhile Char.isDigit
  if ds ≠ [] ∧ (ds.head? = some '0' → ds = ['0']) then do
    let (gs, rest) ← fraction? (cs.dropWhile Char.isDigit)
    let e ← exponent? rest
    some (Nat.ofDigitChars 10 (ds ++ gs) 0, e - gs.length)
  else none

/-- Mantissa and exponent of a number. -/
def number? : List Char → Option (Int × Int)
  | '-' :: cs => (unsigned? cs).map fun (m, e) => (-m, e)
  | cs => (unsigned? cs).map fun (m, e) => (m, e)

/-- The value of a name or a number. -/
def word? (cs : List Char) : Option Value :=
  match number? cs with
  | some (m, e) => some (.number m e)
  | none =>
    if cs = ['n', 'u', 'l', 'l'] then some .null
    else if cs = ['t', 'r', 'u', 'e'] then some (.bool true)
    else if cs = ['f', 'a', 'l', 's', 'e'] then some (.bool false)
    else none

/-- How far an escape has come. -/
inductive Progress
  | unfinished
  | done (c : Char)
  | wrong

/-- How far the characters behind a backslash have come. -/
def progress : List Char → Progress
  | 'u' :: cs =>
    if cs.length < 4 then .unfinished
    else
      match hex? (cs.take 4) with
      | none => .wrong
      | some n =>
        if isLow n then .wrong
        else if isHigh n then
          if cs.length < 10 then .unfinished
          else
            match cs.drop 4 with
            | '\\' :: 'u' :: ds =>
              match hex? ds with
              | some m => if isLow m then .done (pairChar n m) else .wrong
              | none => .wrong
            | _ => .wrong
        else .done (Char.ofNat n)
  | [c] =>
    match short? c with
    | some d => .done d
    | none => .wrong
  | _ => .wrong

/-- What a reader puts on its stack. -/
inductive Piece
  | value (v : Value)
  | comma
  | colon
  | beginArray
  | beginObject

/-- The items on top of the stack, down to the opening bracket, in front of `vs`, and
    the stack below. -/
def takeItems (vs : List Value) : List Piece → Option (List Value × List Piece)
  | .value v :: .comma :: stack => takeItems (v :: vs) stack
  | .value v :: .beginArray :: stack => some (v :: vs, stack)
  | _ => none

/-- The members on top of the stack, down to the opening brace, in front of `ms`, and
    the stack below. -/
def takeMembers (ms : List (String × Value)) :
    List Piece → Option (List (String × Value) × List Piece)
  | .value v :: .colon :: .value (.string k) :: .comma :: stack => takeMembers ((k, v) :: ms) stack
  | .value v :: .colon :: .value (.string k) :: .beginObject :: stack => some ((k, v) :: ms, stack)
  | _ => none

/-- Put a list together. -/
def closeArray : List Piece → Option (List Piece)
  | .beginArray :: stack => some (.value (.array []) :: stack)
  | stack => (takeItems [] stack).map fun (vs, stack) => .value (.array vs) :: stack

/-- Put an object together. -/
def closeObject : List Piece → Option (List Piece)
  | .beginObject :: stack => some (.value (.object []) :: stack)
  | stack => (takeMembers [] stack).map fun (ms, stack) => .value (.object ms) :: stack

/-- What punctuation does to the stack. -/
def punctuate (stack : List Piece) (c : Char) : Option (List Piece) :=
  if c = ',' then some (.comma :: stack)
  else if c = ':' then some (.colon :: stack)
  else if c = '[' then some (.beginArray :: stack)
  else if c = ']' then closeArray stack
  else if c = '\x7b' then some (.beginObject :: stack)
  else if c = '\x7d' then closeObject stack
  else none

/-- What the reader is in the middle of. -/
inductive Scan
  | between
  /-- A name or a number; its characters last first. -/
  | word (cs : List Char)
  /-- A string; its contents last first. -/
  | text (cs : List Char)
  /-- An escape, behind the contents of a string; its characters in order. -/
  | escape (cs e : List Char)

/-- A reader in the middle of a text. -/
structure Reader where
  stack : List Piece
  scan : Scan

namespace Reader

/-- Start on the next piece of the text. -/
def start (stack : List Piece) (c : Char) : Option Reader :=
  if isBlank c then some ⟨stack, .between⟩
  else if isWordChar c then some ⟨stack, .word [c]⟩
  else if c = '"' then some ⟨stack, .text []⟩
  else (punctuate stack c).map (⟨·, .between⟩)

/-- Read a character. -/
def step (r : Reader) (c : Char) : Option Reader :=
  match r.scan with
  | .between => start r.stack c
  | .word cs =>
    if isWordChar c then some ⟨r.stack, .word (c :: cs)⟩
    else (word? cs.reverse).bind fun v => start (.value v :: r.stack) c
  | .text cs =>
    if c = '"' then some ⟨.value (.string (String.ofList cs.reverse)) :: r.stack, .between⟩
    else if c = '\\' then some ⟨r.stack, .escape cs []⟩
    else if isPlain c then some ⟨r.stack, .text (c :: cs)⟩
    else none
  | .escape cs e =>
    match progress (e ++ [c]) with
    | .unfinished => some ⟨r.stack, .escape cs (e ++ [c])⟩
    | .done d => some ⟨r.stack, .text (d :: cs)⟩
    | .wrong => none

/-- The stack at the end of the text. -/
def settle (r : Reader) : Option (List Piece) :=
  match r.scan with
  | .between => some r.stack
  | .word cs => (word? cs.reverse).map (.value · :: r.stack)
  | .text _ | .escape .. => none

/-- Read on to the end of the text. -/
def run (r : Reader) : List Char → Option (List Piece)
  | [] => r.settle
  | c :: cs => (r.step c).bind (run · cs)

end Reader

/-- The value of a text. -/
def read (text : List Char) : Option Value :=
  match Reader.run ⟨[], .between⟩ text with
  | some [.value v] => some v
  | _ => none

/-! ## Numbers -/

theorem takeWhile_isDigit {ds rest : List Char} (hds : ∀ c ∈ ds, c.isDigit)
    (hrest : ∀ c ∈ rest.head?, c.isDigit = false) :
    (ds ++ rest).takeWhile Char.isDigit = ds ∧ (ds ++ rest).dropWhile Char.isDigit = rest := by
  rw [List.takeWhile_append_of_pos hds, List.dropWhile_append_of_pos hds]
  cases rest with
  | nil => simp
  | cons c rest => simp [hrest c rfl]

theorem IsDigits.number? {ds : List Char} (h : IsDigits ds) :
    Lexeme.number? (String.ofList ds) = some (Nat.ofDigitChars 10 ds 0) := by
  simp [Lexeme.number?, h.1, List.all_eq_true.2 h.2]

theorem IsExponent.head? {es : List Char} {e : Int} (h : IsExponent es e) :
    ∀ c ∈ es.head?, c = 'e' ∨ c = 'E' := by
  cases h <;> simp_all

theorem IsExponent.exponent? {es : List Char} {e : Int} (h : IsExponent es e) :
    exponent? es = some e := by
  cases h with
  | none => rfl
  | plain he hds =>
    unfold Json.exponent?
    simp only [if_pos he]
    split
    · exact absurd (hds.2 '+' (by simp)) (by decide)
    · exact absurd (hds.2 '-' (by simp)) (by decide)
    · rw [hds.number?]
      rfl
  | plus he hds => simp [Json.exponent?, he, hds.number?]
  | minus he hds => simp [Json.exponent?, he, hds.number?]

theorem IsFraction.fraction? {fs gs es : List Char} {e : Int} (h : IsFraction fs gs)
    (he : IsExponent es e) : fraction? (fs ++ es) = some (gs, es) := by
  have hes : ∀ c ∈ es.head?, c.isDigit = false ∧ c ≠ '.' := by
    intro c hc
    rcases he.head? c hc with rfl | rfl <;> decide
  cases h with
  | none =>
    rw [List.nil_append]
    unfold Json.fraction?
    split
    · exact absurd rfl (hes '.' rfl).2
    · rfl
  | point hgs =>
    obtain ⟨htake, hdrop⟩ := takeWhile_isDigit hgs.2 fun c hc => (hes c hc).1
    rw [List.cons_append, Json.fraction?, htake, hdrop, if_neg hgs.1]

theorem IsUnsigned.unsigned? {cs : List Char} {m : Nat} {e : Int} (h : IsUnsigned cs m e) :
    unsigned? cs = some (m, e) := by
  obtain ⟨hds, hzero, hf, he⟩ := h
  rename_i ds fs gs es e
  have hrest : ∀ c ∈ (fs ++ es).head?, c.isDigit = false := by
    intro c hc
    cases hf with
    | none => rcases he.head? c hc with rfl | rfl <;> decide
    | point =>
      obtain rfl : '.' = c := Option.some.inj hc
      decide
  obtain ⟨htake, hdrop⟩ := takeWhile_isDigit hds.2 hrest
  simp only [Json.unsigned?, htake, hdrop]
  rw [if_pos ⟨hds.1, hzero⟩, hf.fraction? he, Option.bind_eq_bind, Option.bind_some, he.exponent?]
  rfl

theorem IsUnsigned.exists_eq_cons {cs : List Char} {m : Nat} {e : Int} (h : IsUnsigned cs m e) :
    ∃ c rest, cs = c :: rest ∧ c.isDigit := by
  obtain ⟨⟨hne, hall⟩, -, -, -⟩ := h
  obtain ⟨c, ds, rfl⟩ := List.exists_cons_of_ne_nil hne
  exact ⟨c, _, rfl, hall c List.mem_cons_self⟩

theorem IsNumber.number? {cs : List Char} {m e : Int} (h : IsNumber cs m e) :
    number? cs = some (m, e) := by
  cases h with
  | positive hu =>
    obtain ⟨c, rest, rfl, hc⟩ := hu.exists_eq_cons
    unfold Json.number?
    split
    · next h =>
      obtain rfl := (List.cons.inj h).1
      exact absurd hc (by decide)
    · rw [hu.unsigned?]
      rfl
  | negative hu =>
    rw [Json.number?, hu.unsigned?]
    rfl

/-! ## Words -/

theorem isWordChar_of_isDigit {c : Char} (h : c.isDigit) : isWordChar c := by
  simp [isWordChar, Char.isAlphanum, h]

theorem isWordChar_of_isBlank {c : Char} (h : isBlank c) : isWordChar c = false := by
  simp only [isBlank, Bool.or_eq_true, decide_eq_true_eq] at h
  rcases h with ((rfl | rfl) | rfl) | rfl <;> decide

theorem IsDigits.isWordChar {ds : List Char} (h : IsDigits ds) : ∀ c ∈ ds, isWordChar c :=
  fun c hc => isWordChar_of_isDigit (h.2 c hc)

theorem IsFraction.isWordChar {fs gs : List Char} (h : IsFraction fs gs) :
    ∀ c ∈ fs, isWordChar c := by
  cases h with
  | none => exact List.forall_mem_nil _
  | point hgs => exact List.forall_mem_cons.2 ⟨by decide, hgs.isWordChar⟩

theorem IsExponent.isWordChar {es : List Char} {e : Int} (h : IsExponent es e) :
    ∀ c ∈ es, isWordChar c := by
  have hletter {e : Char} (he : e = 'e' ∨ e = 'E') : Json.isWordChar e := by
    rcases he with rfl | rfl <;> decide
  cases h with
  | none => exact List.forall_mem_nil _
  | plain he hds => exact List.forall_mem_cons.2 ⟨hletter he, hds.isWordChar⟩
  | plus he hds | minus he hds =>
    exact List.forall_mem_cons.2 ⟨hletter he, List.forall_mem_cons.2 ⟨by decide, hds.isWordChar⟩⟩

theorem IsUnsigned.isWordChar {cs : List Char} {m : Nat} {e : Int} (h : IsUnsigned cs m e) :
    ∀ c ∈ cs, isWordChar c := by
  obtain ⟨hds, -, hf, he⟩ := h
  exact List.forall_mem_append.2
    ⟨hds.isWordChar, List.forall_mem_append.2 ⟨hf.isWordChar, he.isWordChar⟩⟩

theorem IsNumber.isWordChar {cs : List Char} {m e : Int} (h : IsNumber cs m e) :
    ∀ c ∈ cs, isWordChar c := by
  cases h with
  | positive hu => exact hu.isWordChar
  | negative hu => exact List.forall_mem_cons.2 ⟨by decide, hu.isWordChar⟩

theorem IsNumber.ne_nil {cs : List Char} {m e : Int} (h : IsNumber cs m e) : cs ≠ [] := by
  cases h with
  | positive hu =>
    obtain ⟨c, rest, rfl, -⟩ := hu.exists_eq_cons
    simp
  | negative => simp

theorem blank_nil : Blank [] := by simp [Blank]

/-- No name or number goes on here. -/
def Delimited (rest : List Char) : Prop :=
  ∀ c ∈ rest.head?, isWordChar c = false

theorem delimited_nil : Delimited [] := by simp [Delimited]

theorem delimited_cons {c : Char} {rest : List Char} (h : isWordChar c = false) :
    Delimited (c :: rest) := by
  simpa [Delimited] using h

theorem Blank.delimited {w rest : List Char} (hw : Blank w) (h : Delimited rest) :
    Delimited (w ++ rest) := by
  cases w with
  | nil => exact h
  | cons c w =>
    intro d hd
    obtain rfl : c = d := Option.some.inj hd
    exact isWordChar_of_isBlank (hw c List.mem_cons_self)

namespace Reader

variable {stack : List Piece} {rest : List Char}

theorem run_cons (r : Reader) (c : Char) (cs : List Char) :
    r.run (c :: cs) = (r.step c).bind (run · cs) := rfl

theorem run_blank {w : List Char} (hw : Blank w) :
    run ⟨stack, .between⟩ (w ++ rest) = run ⟨stack, .between⟩ rest := by
  induction w with
  | nil => rfl
  | cons c w ih =>
    obtain ⟨hc, hw⟩ := List.forall_mem_cons.1 hw
    rw [List.cons_append, run_cons, step, start, if_pos hc, Option.bind_some, ih hw]

theorem run_word_append {cs : List Char} (hcs : ∀ c ∈ cs, isWordChar c) :
    ∀ seen, run ⟨stack, .word seen⟩ (cs ++ rest) =
      run ⟨stack, .word (cs.reverse ++ seen)⟩ rest := by
  induction cs with
  | nil => simp
  | cons c cs ih =>
    intro seen
    obtain ⟨hc, hcs⟩ := List.forall_mem_cons.1 hcs
    have hstep : step ⟨stack, .word seen⟩ c = some ⟨stack, .word (c :: seen)⟩ := by simp [step, hc]
    rw [List.cons_append, run_cons, hstep, Option.bind_some, ih hcs, List.reverse_cons,
      List.append_assoc, List.singleton_append]

/-- A word ends where the text ends or something else follows. -/
theorem run_word_end {seen : List Char} {v : Value} (hv : word? seen.reverse = some v)
    (hrest : Delimited rest) :
    run ⟨stack, .word seen⟩ rest = run ⟨.value v :: stack, .between⟩ rest := by
  cases rest with
  | nil => simp [run, settle, hv]
  | cons c rest => simp [run_cons, step, hrest c rfl, hv]

theorem run_word {cs : List Char} {v : Value} (hne : cs ≠ []) (hcs : cs.all isWordChar)
    (hv : word? cs = some v) (hrest : Delimited rest) :
    run ⟨stack, .between⟩ (cs ++ rest) = run ⟨.value v :: stack, .between⟩ rest := by
  obtain ⟨c, cs, rfl⟩ := List.exists_cons_of_ne_nil hne
  obtain ⟨hc, hcs⟩ := List.forall_mem_cons.1 (List.all_eq_true.1 hcs)
  have hblank : isBlank c = false := by
    by_contra h
    rw [isWordChar_of_isBlank (by simpa using h)] at hc
    cases hc
  have hstep : step ⟨stack, .between⟩ c = some ⟨stack, .word [c]⟩ := by
    simp [step, start, hblank, hc]
  rw [List.cons_append, run_cons, hstep, Option.bind_some, run_word_append hcs]
  exact run_word_end (by simpa using hv) hrest

/-! ## Strings -/

theorem isLow_of_isHigh {n : Nat} (h : isHigh n) : isLow n = false := by
  simp only [isHigh, Bool.and_eq_true, decide_eq_true_eq] at h
  simp [isLow, h.2]

theorem run_escape_cons {cs e : List Char} {c : Char} (h : progress (e ++ [c]) = .unfinished) :
    run ⟨stack, .escape cs e⟩ (c :: rest) = run ⟨stack, .escape cs (e ++ [c])⟩ rest := by
  simp [run_cons, step, h]

theorem run_escape_last {cs e : List Char} {c d : Char} (h : progress (e ++ [c]) = .done d) :
    run ⟨stack, .escape cs e⟩ (c :: rest) = run ⟨stack, .text (d :: cs)⟩ rest := by
  simp [run_cons, step, h]

/-- An escape adds its character. -/
theorem run_escape {e cs : List Char} {c : Char} (h : IsEscape e c) :
    run ⟨stack, .escape cs []⟩ (e ++ rest) = run ⟨stack, .text (c :: cs)⟩ rest := by
  cases h with
  | @short x _ h =>
    have hx : x ≠ 'u' := by
      rintro rfl
      cases h
    exact run_escape_last (by simp [progress, h])
  | @unit ds _ hlen hn hhigh hlow =>
    match ds, hlen with
    | [a, b, c, d], _ =>
      iterate 4 refine (run_escape_cons (by simp [progress])).trans ?_
      exact run_escape_last (by simp [progress, hn, hhigh, hlow])
  | @pair ds es _ _ hds hes hd he hhigh hlow =>
    match ds, es, hds, hes with
    | [a, b, c, d], [a', b', c', d'], _, _ =>
      have hfirst := isLow_of_isHigh hhigh
      iterate 10 refine (run_escape_cons (by simp [progress, hd, hhigh, hfirst])).trans ?_
      exact run_escape_last (by simp [progress, hd, he, hhigh, hlow, hfirst])

theorem run_contents {cs s : List Char} (h : IsContents cs s) :
    ∀ seen, run ⟨stack, .text seen⟩ (cs ++ rest) = run ⟨stack, .text (s.reverse ++ seen)⟩ rest := by
  induction h with
  | nil => simp
  | @plain c cs s hc _ ih =>
    intro seen
    have hstep : step ⟨stack, .text seen⟩ c = some ⟨stack, .text (c :: seen)⟩ := by
      have h := hc
      simp only [isPlain, Bool.and_eq_true, decide_eq_true_eq] at h
      simp [step, h.1.1, h.1.2, hc]
    rw [List.cons_append, run_cons, hstep, Option.bind_some, ih, List.reverse_cons,
      List.append_assoc, List.singleton_append]
  | @escape e cs s c he _ ih =>
    intro seen
    have hstep : step ⟨stack, .text seen⟩ '\\' = some ⟨stack, .escape seen []⟩ := by simp [step]
    rw [List.cons_append, List.cons_append, run_cons, hstep, Option.bind_some, List.append_assoc,
      run_escape he, ih, List.reverse_cons, List.append_assoc, List.singleton_append]

theorem run_string {cs : List Char} {s : String} (h : IsString cs s) :
    run ⟨stack, .between⟩ (cs ++ rest) = run ⟨.value (.string s) :: stack, .between⟩ rest := by
  cases h with
  | @mk cs s h =>
    have hopen : step ⟨stack, .between⟩ '"' = some ⟨stack, .text []⟩ := by rfl
    rw [List.cons_append, run_cons, hopen, Option.bind_some, List.append_assoc, run_contents h]
    simp [run_cons, step]

/-! ## Lists and objects -/

theorem run_punctuation {c : Char} {stack' : List Piece} (hblank : isBlank c = false)
    (hword : isWordChar c = false) (hquote : c ≠ '"') (h : punctuate stack c = some stack') :
    run ⟨stack, .between⟩ (c :: rest) = run ⟨stack', .between⟩ rest := by
  simp [run_cons, step, start, hblank, hword, hquote, h]

/-- Whatever value comes next is the item behind `vs` of a list on top of `below`. -/
def AwaitsItem (stack : List Piece) (vs : List Value) (below : List Piece) : Prop :=
  ∀ v us, takeItems us (.value v :: stack) = some (vs ++ v :: us, below)

/-- Whatever member comes next is the one behind `ms` of an object on top of `below`. -/
def AwaitsMember (stack : List Piece) (ms : List (String × Value)) (below : List Piece) : Prop :=
  ∀ k v us, takeMembers us (.value v :: .colon :: .value (.string k) :: stack) =
    some (ms ++ (k, v) :: us, below)

theorem awaitsItem_begin (below : List Piece) : AwaitsItem (.beginArray :: below) [] below :=
  fun _ _ => rfl

theorem awaitsMember_begin (below : List Piece) : AwaitsMember (.beginObject :: below) [] below :=
  fun _ _ _ => rfl

theorem AwaitsItem.next {vs : List Value} {below : List Piece} (h : AwaitsItem stack vs below)
    (v : Value) : AwaitsItem (.comma :: .value v :: stack) (vs ++ [v]) below := by
  intro u us
  rw [takeItems, h, List.append_assoc, List.singleton_append]

theorem AwaitsMember.next {ms : List (String × Value)} {below : List Piece}
    (h : AwaitsMember stack ms below) (k : String) (v : Value) :
    AwaitsMember (.comma :: .value v :: .colon :: .value (.string k) :: stack) (ms ++ [(k, v)])
      below := by
  intro k' v' us
  rw [takeMembers, h, List.append_assoc, List.singleton_append]

theorem AwaitsItem.close {vs : List Value} {below : List Piece} (h : AwaitsItem stack vs below)
    (v : Value) :
    run ⟨.value v :: stack, .between⟩ (']' :: rest) =
      run ⟨.value (.array (vs ++ [v])) :: below, .between⟩ rest :=
  run_punctuation rfl rfl (by decide) (by simp [punctuate, closeArray, h v []])

theorem AwaitsMember.close {ms : List (String × Value)} {below : List Piece}
    (h : AwaitsMember stack ms below) (k : String) (v : Value) :
    run ⟨.value v :: .colon :: .value (.string k) :: stack, .between⟩ ('\x7d' :: rest) =
      run ⟨.value (.object (ms ++ [(k, v)])) :: below, .between⟩ rest :=
  run_punctuation rfl rfl (by decide) (by simp [punctuate, closeObject, h k v []])

theorem run_key {cs : List Char} {k : String} (h : IsKey cs k) :
    run ⟨stack, .between⟩ (cs ++ rest) =
      run ⟨.colon :: .value (.string k) :: stack, .between⟩ rest := by
  obtain ⟨hw, hk, hw', hw''⟩ := h
  simp only [List.append_assoc, List.cons_append]
  rw [run_blank hw, run_string hk, run_blank hw', run_punctuation rfl rfl (by decide) rfl,
    run_blank hw'']

end Reader

open Reader

mutual

/-- A value goes onto the stack. -/
theorem IsValue.run {cs : List Char} {v : Value} {stack : List Piece} {rest : List Char}
    (h : IsValue cs v) (hrest : Delimited rest) :
    Reader.run ⟨stack, .between⟩ (cs ++ rest) = Reader.run ⟨.value v :: stack, .between⟩ rest := by
  cases h with
  | null | true | false => exact run_word (by simp) (by decide) rfl hrest
  | number h =>
    refine run_word h.ne_nil (List.all_eq_true.2 h.isWordChar) ?_ hrest
    rw [word?, h.number?]
  | string h => exact run_string h
  | emptyArray hw =>
    rw [List.cons_append, run_punctuation rfl rfl (by decide) rfl, List.append_assoc, run_blank hw]
    exact run_punctuation rfl rfl (by decide) rfl
  | array h =>
    rw [List.cons_append, run_punctuation rfl rfl (by decide) rfl, List.append_assoc]
    exact h.run (awaitsItem_begin stack)
  | emptyObject hw =>
    rw [List.cons_append, run_punctuation rfl rfl (by decide) rfl, List.append_assoc, run_blank hw]
    exact run_punctuation rfl rfl (by decide) rfl
  | object h =>
    rw [List.cons_append, run_punctuation rfl rfl (by decide) rfl, List.append_assoc]
    exact h.run (awaitsMember_begin stack)

/-- The items up to the closing bracket become one list, with those before them. -/
theorem IsItems.run {cs : List Char} {vs us : List Value} {stack below : List Piece}
    {rest : List Char} (h : IsItems cs vs) (hstack : AwaitsItem stack us below) :
    Reader.run ⟨stack, .between⟩ (cs ++ ']' :: rest) =
      Reader.run ⟨.value (.array (us ++ vs)) :: below, .between⟩ rest := by
  cases h with
  | last hw hv hw' =>
    simp only [List.append_assoc]
    rw [run_blank hw, hv.run (hw'.delimited (delimited_cons rfl)), run_blank hw', hstack.close]
  | @cons _ _ _ _ v _ hw hv hw' hds =>
    simp only [List.append_assoc, List.cons_append]
    rw [run_blank hw, hv.run (hw'.delimited (delimited_cons rfl)), run_blank hw',
      run_punctuation rfl rfl (by decide) rfl, hds.run (hstack.next v), List.append_assoc,
      List.singleton_append]

/-- The members up to the closing brace become one object, with those before them. -/
theorem IsMembers.run {cs : List Char} {ms us : List (String × Value)} {stack below : List Piece}
    {rest : List Char} (h : IsMembers cs ms) (hstack : AwaitsMember stack us below) :
    Reader.run ⟨stack, .between⟩ (cs ++ '\x7d' :: rest) =
      Reader.run ⟨.value (.object (us ++ ms)) :: below, .between⟩ rest := by
  cases h with
  | last hk hv hw =>
    simp only [List.append_assoc]
    rw [run_key hk, hv.run (hw.delimited (delimited_cons rfl)), run_blank hw, hstack.close]
  | @cons _ _ _ _ k v _ hk hv hw hds =>
    simp only [List.append_assoc, List.cons_append]
    rw [run_key hk, hv.run (hw.delimited (delimited_cons rfl)), run_blank hw,
      run_punctuation rfl rfl (by decide) rfl, hds.run (hstack.next k v), List.append_assoc,
      List.singleton_append]

end

/-- The reader finds the value of every text. -/
theorem IsText.read {text : List Char} {v : Value} (h : IsText text v) : read text = some v := by
  obtain ⟨hw, hv, hw'⟩ := h
  rename_i w cs w'
  have hend : Reader.run ⟨[.value v], .between⟩ (w' ++ []) = some [.value v] := run_blank hw'
  rw [Json.read, run_blank hw, ← List.append_nil w', hv.run (hw'.delimited delimited_nil), hend]

example : read "[-1.50e2, \"\\ud83d\\ude00\", true]".toList =
    some (.array [.number (-150) 0, .string "😀", .bool true]) := rfl

/-- No text stands for two values. -/
theorem IsText.unique {text : List Char} {v v' : Value} (h : IsText text v)
    (h' : IsText text v') : v = v' :=
  Option.some.inj (h.read.symm.trans h'.read)

end TapeCompiler.Json
