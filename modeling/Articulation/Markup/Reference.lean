import Articulation.Number.Reading
/-! Character references and the five named entities of attribute values. -/
namespace Articulation.Markup

def entity? : String → Option Char
  | "lt" => some '<'
  | "gt" => some '>'
  | "amp" => some '&'
  | "apos" => some '\''
  | "quot" => some '"'
  | _ => none

/-- The character of a code point; zero and surrogates have none. -/
def character? (code : Nat) : Option Char :=
  if code ≠ 0 ∧ code.isValidChar then some (Char.ofNat code) else none

/-- The character that stands between `&` and `;`. -/
def reference? : List Char → Option Char
  | '#' :: 'x' :: digits => (Number.hexadecimal? digits).bind character?
  | '#' :: digits => (Number.natural? digits).bind character?
  | name => entity? (String.ofList name)

/-- A value with its references replaced, behind the characters already `done` (read backwards). The
characters of a reference being read are held backwards in `pending`. -/
def unescapeFrom (done : List Char) : Option (List Char) → List Char → Option (List Char)
  | none, [] => some done.reverse
  | none, c :: cs =>
    if c = '&' then unescapeFrom done (some []) cs else unescapeFrom (c :: done) none cs
  | some _, [] => none
  | some pending, c :: cs =>
    if c = '&' then none
    else if c = ';' then
      match reference? pending.reverse with
      | some referred => unescapeFrom (referred :: done) none cs
      | none => none
    else unescapeFrom done (some (c :: pending)) cs

/-- The value with its references replaced. An ampersand that begins no reference spoils it. -/
def unescape? (cs : List Char) : Option (List Char) := unescapeFrom [] none cs

end Articulation.Markup
