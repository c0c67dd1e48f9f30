import Articulation.Number.Reading
import Articulation.Toml.Scan
/-! Strings of TOML: quoted ones with escapes, literal ones without, and both kinds over several lines.
A line end in a string reads as a line feed. -/
namespace Articulation.Toml.Scan

/-- The character of as many hexadecimal digits as given. -/
def codePoint (digits : Nat) : Scan (List Char) := fun cs =>
  if cs.length < digits then none
  else (Number.hexadecimal? (cs.take digits)).bind fun code =>
    if code.isValidChar then some ([Char.ofNat code], cs.drop digits) else none

def escaped : Scan (List Char) := do
  match ← one fun _ => true with
  | 'b' => return ['\x08']
  | 't' => return ['\t']
  | 'n' => return ['\n']
  | 'f' => return ['\x0c']
  | 'r' => return ['\r']
  | '"' => return ['"']
  | '\\' => return ['\\']
  | 'u' => codePoint 4
  | 'U' => codePoint 8
  | _ => fail

def escape : Scan (List Char) := char '\\' *> escaped

def plain (quote : Char) : Scan (List Char) :=
  (fun c => [c]) <$> one fun c => isPrintable c && c ≠ quote && (quote ≠ '"' || c ≠ '\\')

def quoted : Scan String := do
  char '"'
  let parts ← all (plain '"' <|> escape)
  char '"'
  return String.ofList parts.flatten

def literal : Scan String := do
  char '\''
  let parts ← all (plain '\'')
  char '\''
  return String.ofList parts.flatten

/-- A backslash at the end of a line takes away all blanks and line ends behind it. -/
def lineJoin : Scan (List Char) := do
  char '\\'
  blanks
  lineBreak
  discard (all ((discard (one isBlank)) <|> lineBreak))
  return []

/-- One or two quotes that do not end the string. -/
def innerQuotes (quote : Char) : Scan (List Char) := do
  let run ← many (· == quote)
  require (run.length == 1 || run.length == 2)
  require (← next).isSome
  return run

/-- The end of a string over several lines: three quotes, and one or two more that belong to it. -/
def closingQuotes (quote : Char) : Scan (List Char) := do
  let run ← many (· == quote)
  require (3 ≤ run.length && run.length ≤ 5)
  return run.drop 3

def multiline (quote : Char) (part : Scan (List Char)) : Scan String := do
  text [quote, quote, quote]
  discard (optional lineBreak)
  let parts ← all (part <|> (lineBreak *> pure ['\n']) <|> innerQuotes quote)
  let last ← closingQuotes quote
  return String.ofList (parts.flatten ++ last)

def string : Scan String :=
  multiline '"' (plain '"' <|> lineJoin <|> escape) <|> quoted
    <|> multiline '\'' (plain '\'') <|> literal

end Articulation.Toml.Scan
