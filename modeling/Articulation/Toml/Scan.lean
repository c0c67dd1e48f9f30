import Articulation.Toml.Basic
/-! Reading TOML from left to right. A reader either takes characters from the front of the text or
fails; where readers are tried in turn, each one starts from the same text. -/
namespace Articulation.Toml

abbrev Scan := StateT (List Char) Option

namespace Scan

def one (accepts : Char → Bool) : Scan Char := fun cs =>
  match cs with
  | c :: cs => if accepts c then some (c, cs) else none
  | [] => none

def many (accepts : Char → Bool) : Scan (List Char) := fun cs =>
  some (cs.takeWhile accepts, cs.dropWhile accepts)

def text (expected : List Char) : Scan Unit := fun cs =>
  if expected.isPrefixOf cs then some ((), cs.drop expected.length) else none

def char (expected : Char) : Scan Unit := text [expected]

/-- What comes next, which is left in place. -/
def next : Scan (Option Char) := fun cs => some (cs.head?, cs)

def fail {α : Type} : Scan α := fun _ => none

def optional {α : Type} (reader : Scan α) : Scan (Option α) := (some <$> reader) <|> pure none

/-- Reads what a reader accepts as often as it does, at most `fuel` times. -/
def repeated {α : Type} (reader : Scan α) : Nat → Scan (List α)
  | 0 => pure []
  | fuel + 1 => do
    match ← optional reader with
    | none => return []
    | some item => return item :: (← repeated reader fuel)

/-- Reads what a reader that takes at least one character accepts, as often as it does. -/
def all {α : Type} (reader : Scan α) : Scan (List α) := do
  repeated reader (← get).length

def separated {α : Type} (mark : Char) (item : Scan α) : Scan (List α) := do
  let first ← item
  return first :: (← all (char mark *> item))

def require (condition : Bool) : Scan Unit := if condition then pure () else fail

def isBlank (c : Char) : Bool := c = ' ' || c = '\t'

/-- Characters of comments: all but control characters other than the tab. -/
def isPrintable (c : Char) : Bool := c = '\t' || (' ' ≤ c && c ≠ '\x7f')

def blanks : Scan Unit := discard (many isBlank)

/-- The end of a line: a line feed, with or without a carriage return before it. -/
def lineBreak : Scan Unit := text ['\n'] <|> text ['\r', '\n']

def comment : Scan Unit := do
  char '#'
  discard (many isPrintable)

def endOfText : Scan Unit := fun cs => if cs.isEmpty then some ((), []) else none

def lineEnd : Scan Unit := do
  blanks
  discard (optional comment)
  lineBreak <|> endOfText

def space : Scan Unit := do
  blanks
  discard (all do
    discard (optional comment)
    lineBreak
    blanks)

end Scan

end Articulation.Toml
