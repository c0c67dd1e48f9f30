import Articulation.Number.Reading
import Articulation.Toml.Scan
/-! Numbers, dates and times of TOML. Digits may be set apart by single underscores. -/
namespace Articulation.Toml.Scan

/-- Digits with single underscores between them, read without those. -/
def digits (accepts : Char → Bool) : Scan (List Char) := do
  let first ← one accepts
  let rest ← all (optional (char '_') *> one accepts)
  return first :: rest

def sign : Scan Bool := do
  match ← optional (one fun c => c = '+' || c = '-') with
  | some '-' => return true
  | _ => return false

/-- Decimal digits; a leading zero stands alone. -/
def wholeDigits : Scan (List Char) := do
  if (← next) = some '0' then
    char '0'
    return ['0']
  else digits Char.isDigit

def integerOf (negative : Bool) (magnitude : Nat) : Scan Toml :=
  let value : Int := if negative then -magnitude else magnitude
  if Number.fitsInt64 value then pure (.integer value) else fail

def decimalInteger : Scan Toml := do
  let negative ← sign
  integerOf negative (Nat.ofDigitChars 10 (← wholeDigits) 0)

def digitValue (c : Char) : Nat := (Number.hexDigit? c).getD 0

def basedInteger (mark : Char) (base : Nat) : Scan Toml := do
  text ['0', mark]
  let read ← digits fun c => match Number.hexDigit? c with
    | some d => d < base
    | none => false
  integerOf false (read.foldl (fun n c => base * n + digitValue c) 0)

def integer : Scan Toml :=
  basedInteger 'x' 16 <|> basedInteger 'o' 8 <|> basedInteger 'b' 2 <|> decimalInteger

def fraction : Scan (List Char) := char '.' *> digits Char.isDigit

def exponent : Scan Int := do
  discard (one fun c => c = 'e' || c = 'E')
  let negative ← sign
  let magnitude : Int := Nat.ofDigitChars 10 (← digits Char.isDigit) 0
  return if negative then -magnitude else magnitude

/-- A decimal with a fraction, an exponent or both. One that rounds to positive infinity is refused. -/
def decimalFloat : Scan Toml := do
  let negative ← sign
  let whole ← wholeDigits
  let behind ← optional fraction
  let power ← optional exponent
  require (behind.isSome || power.isSome)
  let behind := behind.getD []
  let decimal : Number.Decimal :=
    ⟨Nat.ofDigitChars 10 (whole ++ behind) 0, power.getD 0 - behind.length⟩
  let magnitude := decimal.toBinary64
  require (negative || magnitude.isFinite)
  return .float (if negative then -magnitude else magnitude)

def infinity : Scan Float := text ['i', 'n', 'f'] *> pure (1 / 0)

def notANumber : Scan Float := text ['n', 'a', 'n'] *> pure (0 / 0)

def specialFloat : Scan Toml := do
  let negative ← sign
  let magnitude ← infinity <|> notANumber
  return .float (if negative then -magnitude else magnitude)

/-! ### Dates and times -/

/-- A number of exactly so many digits, in a range. -/
def field (width least greatest : Nat) : Scan Nat := do
  let read ← (List.replicate width ()).mapM fun _ => one Char.isDigit
  let value := Nat.ofDigitChars 10 read 0
  require (least ≤ value && value ≤ greatest)
  return value

def daysInMonth (year month : Nat) : Nat :=
  if month = 2 then
    if year % 4 = 0 ∧ (year % 100 ≠ 0 ∨ year % 400 = 0) then 29 else 28
  else if month = 4 ∨ month = 6 ∨ month = 9 ∨ month = 11 then 30
  else 31

def date : Scan Unit := do
  let year ← field 4 0 9999
  char '-'
  let month ← field 2 1 12
  char '-'
  discard (field 2 1 (daysInMonth year month))

/-- A time of day; a minute may have a leap second. -/
def time : Scan Unit := do
  discard (field 2 0 23)
  char ':'
  discard (field 2 0 59)
  char ':'
  discard (field 2 0 60)
  discard (optional do
    char '.'
    discard (one Char.isDigit)
    discard (many Char.isDigit))

def offset : Scan Unit :=
  (discard (one fun c => c = 'Z' || c = 'z')) <|> do
    discard (one fun c => c = '+' || c = '-')
    discard (field 2 0 23)
    char ':'
    discard (field 2 0 59)

def datetime : Scan Toml := do
  (do
    date
    discard (optional do
      discard (one fun c => c = 'T' || c = 't' || c = ' ')
      time
      discard (optional offset))) <|> time
  return .datetime

def number : Scan Toml := datetime <|> decimalFloat <|> specialFloat <|> integer

end Articulation.Toml.Scan
