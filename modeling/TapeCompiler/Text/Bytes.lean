/-!
# Byte strings

Source text, tool output, file contents, paths and the words of command lines are byte
strings: nothing promises that they are well-formed UTF-8. A `String` is used only where
the text is known to be well formed. It can stand where bytes are wanted, and means its
UTF-8 form there (`Bytes.ofString`).
-/

namespace TapeCompiler

/-- A string of bytes in no particular encoding. -/
abbrev Bytes := List UInt8

/-- The UTF-8 bytes of a list of characters. -/
def Bytes.ofChars (cs : List Char) : Bytes :=
  cs.flatMap String.utf8EncodeChar

/-- The UTF-8 bytes of a string. -/
def Bytes.ofString (s : String) : Bytes :=
  Bytes.ofChars s.toList

instance : Coe String Bytes := ⟨Bytes.ofString⟩

@[simp] theorem Bytes.ofChars_nil : Bytes.ofChars [] = [] := rfl

@[simp] theorem Bytes.ofChars_append (cs ds : List Char) :
    Bytes.ofChars (cs ++ ds) = Bytes.ofChars cs ++ Bytes.ofChars ds := by
  simp [Bytes.ofChars]

@[simp] theorem Bytes.ofString_append (s t : String) :
    Bytes.ofString (s ++ t) = Bytes.ofString s ++ Bytes.ofString t := by
  simp [Bytes.ofString]

end TapeCompiler
