import Articulation.Number.Decimal
/-! Numbers read from text. A numeral is the whole text: no blanks, no digit separators, ASCII digits
only. -/
namespace Articulation.Number

/-- A text of ASCII digits, at least one. -/
def natural? (cs : List Char) : Option Nat :=
  if cs.isEmpty || !cs.all Char.isDigit then none else some (Nat.ofDigitChars 10 cs 0)

def hexDigit? (c : Char) : Option Nat :=
  if '0' ≤ c ∧ c ≤ '9' then some (c.toNat - '0'.toNat)
  else if 'a' ≤ c ∧ c ≤ 'f' then some (c.toNat - 'a'.toNat + 10)
  else if 'A' ≤ c ∧ c ≤ 'F' then some (c.toNat - 'A'.toNat + 10)
  else none

/-- A number in hexadecimal digits of either case, at least one. -/
def hexadecimal? (cs : List Char) : Option Nat :=
  if cs.isEmpty then none
  else (cs.mapM hexDigit?).map fun digits => digits.foldl (fun n d => 16 * n + d) 0

def integer? : List Char → Option Int
  | '-' :: cs => (natural? cs).map fun n => -(n : Int)
  | '+' :: cs => (natural? cs).map fun n => (n : Int)
  | cs => (natural? cs).map fun n => (n : Int)

def fitsInt64 (n : Int) : Bool := Int64.minValue.toInt ≤ n && n ≤ Int64.maxValue.toInt

def int64? (cs : List Char) : Option Int64 := ((integer? cs).filter fitsInt64).map Int64.ofInt

/-- The exponent part of a decimal: nothing, or `e` or `E` before an integer. -/
def exponent? : List Char → Option Int
  | [] => some 0
  | c :: cs => if c = 'e' ∨ c = 'E' then integer? cs else none

/-- Digits with at most one point, at least one digit in all, and an optional exponent. -/
def decimal? (cs : List Char) : Option Decimal :=
  let whole := cs.takeWhile Char.isDigit
  let rest := cs.dropWhile Char.isDigit
  let (fraction, rest) := match rest with
    | '.' :: cs => (cs.takeWhile Char.isDigit, cs.dropWhile Char.isDigit)
    | cs => ([], cs)
  if whole.isEmpty && fraction.isEmpty then none
  else (exponent? rest).map fun e =>
    ⟨Nat.ofDigitChars 10 (whole ++ fraction) 0, e - fraction.length⟩

def isWord (word : String) (cs : List Char) : Bool := cs.map Char.toLower == word.toList

def magnitude32? (cs : List Char) : Option Float32 :=
  if isWord "inf" cs || isWord "infinity" cs then some (1 / 0)
  else if isWord "nan" cs then some (0 / 0)
  else (decimal? cs).map Decimal.toBinary32

def binary32? : List Char → Option Float32
  | '-' :: cs => (magnitude32? cs).map fun x => -x
  | '+' :: cs => magnitude32? cs
  | cs => magnitude32? cs

end Articulation.Number
