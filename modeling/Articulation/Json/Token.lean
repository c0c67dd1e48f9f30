import Articulation.Json.Basic
/-! Tokens of a JSON text. -/
namespace Articulation.Json

inductive Token where
  | openObject
  | closeObject
  | openArray
  | closeArray
  | comma
  | colon
  | null
  | bool (value : Bool)
  | number (literal : Numeral)
  | string (text : Option String)

def isBlank (c : Char) : Bool := c = ' ' || c = '\t' || c = '\r' || c = '\n'

/-! ### Strings -/

/-- The characters of code units: a code point stands for itself, and a high surrogate forms one with
the low surrogate directly behind it. -/
def decodeUnits (done : List Char) : List Nat → Option (List Char)
  | [] => some done.reverse
  | unit :: units =>
    if 0xD800 ≤ unit ∧ unit < 0xDC00 then
      match units with
      | low :: units =>
        if 0xDC00 ≤ low ∧ low < 0xE000 then
          decodeUnits (Char.ofNat (0x10000 + 0x400 * (unit - 0xD800) + (low - 0xDC00)) :: done) units
        else none
      | [] => none
    else if unit.isValidChar then decodeUnits (Char.ofNat unit :: done) units
    else none

def escape? : Char → Option Char
  | '"' => some '"'
  | '\\' => some '\\'
  | '/' => some '/'
  | 'b' => some '\x08'
  | 'f' => some '\x0c'
  | 'n' => some '\n'
  | 'r' => some '\r'
  | 't' => some '\t'
  | _ => none

def codeUnit? (a b c d : Char) : Option Nat := Number.hexadecimal? [a, b, c, d]

/-- The code units of a string behind its opening quote, after those already `read` (backwards), and
the text behind its closing quote. -/
def readString (read : List Nat) : List Char → Option (List Nat × List Char)
  | [] => none
  | '"' :: cs => some (read.reverse, cs)
  | '\\' :: 'u' :: a :: b :: c :: d :: cs =>
    match codeUnit? a b c d with
    | some unit => readString (unit :: read) cs
    | none => none
  | '\\' :: e :: cs =>
    match escape? e with
    | some c => readString (c.toNat :: read) cs
    | none => none
  | c :: cs => if c = '\\' ∨ c.toNat < 0x20 then none else readString (c.toNat :: read) cs

theorem readString_length {read units : List Nat} {cs rest : List Char}
    (h : readString read cs = some (units, rest)) : rest.length < cs.length := by
  fun_induction readString read cs with
  | case1 => simp at h
  | case2 => simp_all
  | case3 _ _ _ _ _ _ _ _ ih => have := ih h; simp only [List.length_cons]; omega
  | case4 => simp at h
  | case5 _ _ _ _ _ _ ih => have := ih h; simp only [List.length_cons]; omega
  | case6 => simp at h
  | case7 => simp at h
  | case8 _ _ _ _ _ _ _ ih => have := ih h; simp only [List.length_cons]; omega

/-! ### Numbers -/

def readDigits? (cs : List Char) : Option (List Char × List Char) :=
  let digits := cs.takeWhile Char.isDigit
  if digits.isEmpty then none else some (digits, cs.dropWhile Char.isDigit)

theorem readDigits?_length {cs digits rest : List Char}
    (h : readDigits? cs = some (digits, rest)) : rest.length < cs.length := by
  have split := congrArg List.length (List.takeWhile_append_dropWhile (p := Char.isDigit) (l := cs))
  simp only [List.length_append] at split
  unfold readDigits? at h
  simp only at h
  split at h
  · simp at h
  · rename_i some_digit
    simp only [Option.some.injEq, Prod.mk.injEq] at h
    obtain ⟨_, rfl⟩ := h
    have : 0 < (cs.takeWhile Char.isDigit).length := by
      cases hd : cs.takeWhile Char.isDigit with
      | nil => simp [hd] at some_digit
      | cons => simp
    omega

/-- The fraction at the start of a text, if a point begins one. -/
def readFraction? : List Char → Option (Option (List Char) × List Char)
  | '.' :: cs => (readDigits? cs).map fun (digits, rest) => (some digits, rest)
  | cs => some (none, cs)

def readSign : List Char → Bool × List Char
  | '-' :: cs => (true, cs)
  | '+' :: cs => (false, cs)
  | cs => (false, cs)

/-- The exponent at the start of a text, if `e` or `E` begins one. -/
def readExponent? : List Char → Option (Option Int × List Char)
  | [] => some (none, [])
  | c :: cs =>
    if c = 'e' ∨ c = 'E' then
      let (negative, cs) := readSign cs
      (readDigits? cs).map fun (digits, rest) =>
        let magnitude : Int := Nat.ofDigitChars 10 digits 0
        (some (if negative then -magnitude else magnitude), rest)
    else some (none, c :: cs)

theorem readFraction?_length {cs rest : List Char} {fraction : Option (List Char)}
    (h : readFraction? cs = some (fraction, rest)) : rest.length ≤ cs.length := by
  unfold readFraction? at h
  split at h
  · obtain ⟨⟨digits, rest'⟩, read, same⟩ := Option.map_eq_some_iff.1 h
    have := readDigits?_length read
    simp only [Prod.mk.injEq] at same
    obtain ⟨_, rfl⟩ := same
    simp only [List.length_cons]
    omega
  · simp only [Option.some.injEq, Prod.mk.injEq] at h
    simp [h.2]

theorem readSign_length (cs : List Char) : (readSign cs).2.length ≤ cs.length := by
  unfold readSign
  split <;> simp

theorem readExponent?_length {cs rest : List Char} {exponent : Option Int}
    (h : readExponent? cs = some (exponent, rest)) : rest.length ≤ cs.length := by
  cases cs with
  | nil => simp_all [readExponent?]
  | cons c cs =>
    simp only [readExponent?] at h
    split at h
    · obtain ⟨⟨digits, rest'⟩, read, same⟩ := Option.map_eq_some_iff.1 h
      have := readDigits?_length read
      have := readSign_length cs
      simp only [Prod.mk.injEq] at same
      obtain ⟨_, rfl⟩ := same
      simp only [List.length_cons]
      omega
    · simp only [Option.some.injEq, Prod.mk.injEq] at h
      simp [h.2]

/-- The digits before the point; a zero stands alone. -/
def readWhole? (cs : List Char) : Option (List Char × List Char) :=
  (readDigits? cs).filter fun read => read.1.head? != some '0' || read.1.length == 1

def readMagnitude? (negative : Bool) (cs : List Char) : Option (Numeral × List Char) := do
  let (whole, cs) ← readWhole? cs
  let (fraction, cs) ← readFraction? cs
  let (exponent, cs) ← readExponent? cs
  return (⟨negative, whole, fraction, exponent⟩, cs)

def readNumber? : List Char → Option (Numeral × List Char)
  | '-' :: cs => readMagnitude? true cs
  | cs => readMagnitude? false cs

theorem readMagnitude?_length {negative : Bool} {cs rest : List Char} {n : Numeral}
    (h : readMagnitude? negative cs = some (n, rest)) : rest.length < cs.length := by
  simp only [readMagnitude?, Option.bind_eq_bind, Option.bind_eq_some_iff] at h
  obtain ⟨⟨whole, afterWhole⟩, hw, ⟨fraction, afterFraction⟩, hf, ⟨exponent, afterExponent⟩, he, h⟩ := h
  have lw := readDigits?_length (Option.filter_eq_some_iff.1 hw).1
  have lf : afterFraction.length ≤ afterWhole.length := readFraction?_length hf
  have le : afterExponent.length ≤ afterFraction.length := readExponent?_length he
  simp only [Option.pure_def, Option.some.injEq, Prod.mk.injEq] at h
  obtain ⟨_, rfl⟩ := h
  omega

theorem readNumber?_length {cs rest : List Char} {n : Numeral}
    (h : readNumber? cs = some (n, rest)) : rest.length < cs.length := by
  unfold readNumber? at h
  split at h
  · have := readMagnitude?_length h
    simp only [List.length_cons]
    omega
  · exact readMagnitude?_length h

/-! ### Texts -/

/-- The token at the start of a text without blanks before it, and the text behind it. -/
def readToken? : List Char → Option (Token × List Char)
  | '\x7b' :: cs => some (.openObject, cs)
  | '\x7d' :: cs => some (.closeObject, cs)
  | '[' :: cs => some (.openArray, cs)
  | ']' :: cs => some (.closeArray, cs)
  | ',' :: cs => some (.comma, cs)
  | ':' :: cs => some (.colon, cs)
  | 'n' :: 'u' :: 'l' :: 'l' :: cs => some (.null, cs)
  | 't' :: 'r' :: 'u' :: 'e' :: cs => some (.bool true, cs)
  | 'f' :: 'a' :: 'l' :: 's' :: 'e' :: cs => some (.bool false, cs)
  | '"' :: cs =>
    (readString [] cs).map fun (units, rest) =>
      (.string ((decodeUnits [] units).map String.ofList), rest)
  | cs => (readNumber? cs).map fun (literal, rest) => (.number literal, rest)

theorem readToken?_length {cs rest : List Char} {token : Token}
    (h : readToken? cs = some (token, rest)) : rest.length < cs.length := by
  unfold readToken? at h
  split at h
  case h_10 =>
    obtain ⟨⟨units, rest'⟩, read, same⟩ := Option.map_eq_some_iff.1 h
    have := readString_length read
    simp only [Prod.mk.injEq] at same
    obtain ⟨_, rfl⟩ := same
    simp only [List.length_cons]
    omega
  case h_11 =>
    obtain ⟨⟨literal, rest'⟩, read, same⟩ := Option.map_eq_some_iff.1 h
    have := readNumber?_length read
    simp only [Prod.mk.injEq] at same
    obtain ⟨_, rfl⟩ := same
    exact this
  all_goals
    simp only [Option.some.injEq, Prod.mk.injEq] at h
    obtain ⟨_, rfl⟩ := h
    simp only [List.length_cons]
    omega

/-- The tokens of a text, behind those already `read` (backwards). -/
def tokensFrom (read : List Token) (cs : List Char) : Option (List Token) :=
  match _blanks : cs.dropWhile isBlank with
  | [] => some read.reverse
  | c :: rest =>
    match _token : readToken? (c :: rest) with
    | none => none
    | some (token, after) => tokensFrom (token :: read) after
termination_by cs.length
decreasing_by
  have shorter := readToken?_length _token
  have blanks := (List.dropWhile_suffix isBlank (l := cs)).length_le
  rw [_blanks] at blanks
  omega

def tokens? (text : String) : Option (List Token) := tokensFrom [] text.toList

end Articulation.Json
