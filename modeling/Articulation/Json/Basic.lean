import Articulation.Json.Numeral
/-! JSON values as written: literals of numbers, members in order and with repetitions. A string whose
escapes spell half a character has no text; whether that matters is left to whoever reads it. -/
namespace Articulation

inductive Json where
  | null
  | bool (value : Bool)
  | number (literal : Json.Numeral)
  | string (text : Option String)
  | array (items : List Json)
  | object (members : List (Option String × Json))

namespace Json

def text? : Json → Option String
  | string text => text
  | _ => none

def int64? : Json → Option Int
  | number literal => literal.int64?
  | _ => none

def binary32? : Json → Option Float32
  | number literal => literal.binary32?
  | _ => none

def depthLimit : Nat := 127

mutual
/-- Whether a value at some depth nests no deeper than the limit, has a text for every string and a
value for every number. -/
def isSound (depth : Nat) : Json → Bool
  | null | bool _ => true
  | number literal => literal.binary64?.isSome
  | string text => text.isSome
  | array items => if depth ≥ depthLimit then false else areSound (depth + 1) items
  | object members => if depth ≥ depthLimit then false else areSoundMembers (depth + 1) members

def areSound (depth : Nat) : List Json → Bool
  | [] => true
  | item :: items => item.isSound depth && areSound depth items

def areSoundMembers (depth : Nat) : List (Option String × Json) → Bool
  | [] => true
  | (name, value) :: members => name.isSome && value.isSound depth && areSoundMembers depth members
end

end Json

end Articulation
