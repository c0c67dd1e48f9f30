/-! Blank characters, by the Unicode property White_Space. Trimming and splitting at blanks are
functions on character lists, so that what they keep can be stated by list lemmas. -/
namespace Articulation.Text

/-- Closed ranges of code points with the property White_Space, ascending and apart. -/
def blankRanges : List (Nat × Nat) :=
  [(0x09, 0x0D), (0x20, 0x20), (0x85, 0x85), (0xA0, 0xA0), (0x1680, 0x1680), (0x2000, 0x200A),
   (0x2028, 0x2029), (0x202F, 0x202F), (0x205F, 0x205F), (0x3000, 0x3000)]

def isBlank (c : Char) : Bool :=
  blankRanges.any fun range => range.1 ≤ c.toNat && c.toNat ≤ range.2

theorem isBlank_of_isWhitespace {c : Char} (h : c.isWhitespace = true) : isBlank c = true := by
  simp only [Char.isWhitespace, Bool.or_eq_true, decide_eq_true_eq] at h
  rcases h with ((h | h) | h) | h <;> subst h <;> decide

def trim (cs : List Char) : List Char :=
  ((cs.dropWhile isBlank).reverse.dropWhile isBlank).reverse

/-- A finished word, unless no character of it was read. -/
def closeWord (reversed : List Char) : List (List Char) :=
  if reversed.isEmpty then [] else [reversed.reverse]

/-- Words of the text after the characters `reversed`, which are the current word read backwards. -/
def wordsFrom (reversed : List Char) : List Char → List (List Char)
  | [] => closeWord reversed
  | c :: cs => if isBlank c then closeWord reversed ++ wordsFrom [] cs else wordsFrom (c :: reversed) cs

/-- The maximal runs of characters that are not blank. -/
def words (cs : List Char) : List (List Char) := wordsFrom [] cs

end Articulation.Text
