import TapeCompiler.Text.Glyph

/-!
# Letters without case

Command words, target names and file extensions are compared after lower-casing,
and they are all ASCII words. So only the letters whose lower case is an ASCII
letter matter: `A` to `Z` and the two letters beyond ASCII with that property,
U+0130 (dotted capital I) and U+212A (the Kelvin sign). Any other character keeps
its place and cannot turn into part of an ASCII word.

Names of settings are compared by case *folding*, which differs from lower-casing
beyond ASCII: the Kelvin sign folds to `k` and U+017F (long s) to `s`, while
U+0130 folds to nothing else.
-/

namespace TapeCompiler.Letter

/-- The lower case of a character, as far as it is an ASCII letter. -/
def lower (c : Char) : Char :=
  if c = '\u0130' then 'i' else if c = '\u212a' then 'k' else c.toLower

/-- The folded form of a character, as far as it is an ASCII letter. -/
def fold (c : Char) : Char :=
  if c = '\u017f' then 's' else if c = '\u212a' then 'k' else c.toLower

/-- Whether the lower case of a byte string is the ASCII word `word`. -/
def isWord (word : String) (b : Bytes) : Bool :=
  (Glyph.chars b).map lower == word.toList

/-- Whether two strings are equal up to case folding. -/
def sameFolded (s t : String) : Bool :=
  s.toList.map fold == t.toList.map fold

end TapeCompiler.Letter
