import TapeCompiler.Text.Bytes

/-!
# Environment variables in text

A dollar sign puts the value of a variable into a text. The name after it is one
special character or digit, a run of letters, digits and underscores, or any text in
braces. Braces that hold nothing vanish with the dollar sign, and so do the dollar sign
and an opening brace that is never closed. A dollar sign before anything else stays.
-/

namespace TapeCompiler.Expansion

/-- The byte that starts a reference. -/
def dollar : UInt8 := 0x24

/-- The byte that opens a name in braces. -/
def openBrace : UInt8 := 0x7B

/-- The byte that closes a name in braces. -/
def closeBrace : UInt8 := 0x7D

/-- Whether a byte is a name by itself. -/
def isSpecial (b : UInt8) : Bool :=
  (Bytes.ofString "*#$@!?-0123456789").contains b

/-- Whether a byte can stand in a name. -/
def isNameByte (b : UInt8) : Bool :=
  b = '_'.toUInt8 || ('0'.toUInt8 ≤ b && b ≤ '9'.toUInt8) ||
    ('a'.toUInt8 ≤ b && b ≤ 'z'.toUInt8) || ('A'.toUInt8 ≤ b && b ≤ 'Z'.toUInt8)

/-- What follows a dollar sign. -/
inductive Reference where
  /-- A variable; the number of bytes that name it. -/
  | variable (name : Bytes) (length : Nat)
  /-- Nothing that has a value; the number of bytes that vanish. -/
  | vanishing (length : Nat)
  /-- No name: the dollar sign stays. -/
  | none
  deriving DecidableEq, Repr

/-- What a text after a dollar sign refers to. -/
def reference (text : Bytes) : Reference :=
  match text with
  | [] => .none
  | b :: rest =>
    if b = openBrace then
      let name := rest.takeWhile (· != closeBrace)
      if name.length = rest.length then .vanishing 1
      else if name.isEmpty then .vanishing 2
      else .variable name (name.length + 2)
    else if isSpecial b then .variable [b] 1
    else
      let name := text.takeWhile isNameByte
      if name.isEmpty then .none else .variable name name.length

/-- Replaces the variables of a text; `skip` counts the bytes that belong to the last
    reference. -/
def expandOnto (value : Bytes → Bytes) (acc : Bytes) (skip : Nat) : Bytes → Bytes
  | [] => acc.reverse
  | b :: rest =>
    match skip with
    | n + 1 => expandOnto value acc n rest
    | 0 =>
      if b = dollar then
        match reference rest with
        | .variable name length => expandOnto value ((value name).reverse ++ acc) length rest
        | .vanishing length => expandOnto value acc length rest
        | .none => expandOnto value (b :: acc) 0 rest
      else
        expandOnto value (b :: acc) 0 rest

/-- The text with its variables replaced by their values. -/
def expand (value : Bytes → Bytes) (text : Bytes) : Bytes :=
  expandOnto value [] 0 text

/-- The names of the variables of a text, last first, in front of `acc`. -/
def namesOnto (acc : List Bytes) (skip : Nat) : Bytes → List Bytes
  | [] => acc
  | b :: rest =>
    match skip with
    | n + 1 => namesOnto acc n rest
    | 0 =>
      if b = dollar then
        match reference rest with
        | .variable name length => namesOnto (name :: acc) length rest
        | .vanishing length => namesOnto acc length rest
        | .none => namesOnto acc 0 rest
      else
        namesOnto acc 0 rest

end TapeCompiler.Expansion
