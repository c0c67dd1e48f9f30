import Articulation.Text.Scan
/-! Tags of a marked-up text. Comments, instructions, document types, uninterpreted sections and the
text between tags are passed over. A tag ends at the first `>` outside quotes, its name at the first
blank; its attributes are read but not yet judged, since those of a skipped element do not matter. -/
namespace Articulation.Markup

/-- The raw text of each attribute in order, unless they are ill-formed. -/
abbrev RawAttributes := Option (List (String × List Char))

inductive Token where
  | opening (name : String) (attributes : RawAttributes)
  | empty (name : String) (attributes : RawAttributes)
  | closing (name : String)
deriving DecidableEq, Repr

def isBlank (c : Char) : Bool := c = ' ' || c = '\t' || c = '\r' || c = '\n'

/-- The automaton that stops at the first `>` outside quotes. -/
def tagStep (quote : Option Char) (c : Char) : Option (Option Char) :=
  match quote with
  | none => if c = '>' then none else some (if c = '"' ∨ c = '\'' then some c else none)
  | some mark => some (if c = mark then none else some mark)

/-- The automaton that stops at the first `>` not preceded by a `<` of its own. -/
def balanceStep (depth : Nat) (c : Char) : Option Nat :=
  if c = '<' then some (depth + 1)
  else if c = '>' then (if depth = 0 then none else some (depth - 1))
  else some depth

def untilChar (mark : Char) (_ : Unit) (c : Char) : Option Unit :=
  if c = mark then none else some ()

/-- One attribute at the start of a text that begins with no blank, and the text behind it. -/
def readAttribute? : List Char → Option ((String × List Char) × List Char)
  | [] => none
  | first :: cs =>
    let name := first :: cs.takeWhile fun c => c != '=' && !isBlank c
    match (cs.dropWhile fun c => c != '=' && !isBlank c).dropWhile isBlank with
    | '=' :: cs =>
      match cs.dropWhile isBlank with
      | quote :: cs =>
        if quote = '"' ∨ quote = '\'' then
          (Text.splitWhere (untilChar quote) () [] cs).map fun (value, rest) =>
            ((String.ofList name, value), rest)
        else none
      | [] => none
    | _ => none

theorem readAttribute?_length {cs rest : List Char} {entry : String × List Char}
    (h : readAttribute? cs = some (entry, rest)) : rest.length < cs.length := by
  cases cs with
  | nil => simp [readAttribute?] at h
  | cons first cs =>
    simp only [readAttribute?] at h
    have outer := (List.dropWhile_suffix isBlank
      (l := cs.dropWhile fun c => c != '=' && !isBlank c)).length_le
    have inner := (List.dropWhile_suffix (fun c => c != '=' && !isBlank c) (l := cs)).length_le
    split at h
    · rename_i tail heq
      rw [heq] at outer
      have blanks := (List.dropWhile_suffix isBlank (l := tail)).length_le
      split at h
      · rename_i quote after heq2
        rw [heq2] at blanks
        split at h
        · obtain ⟨⟨value, rest'⟩, split, same⟩ := Option.map_eq_some_iff.1 h
          have shorter := Text.splitWhere_length split
          simp only [Prod.mk.injEq] at same
          obtain ⟨_, rfl⟩ := same
          simp only [List.length_cons] at *
          omega
        · simp at h
      · simp at h
    · simp at h

/-- The attributes of a tag. No name may come twice. -/
def readAttributes (names : List String) (cs : List Char) : RawAttributes :=
  match _blanks : cs.dropWhile isBlank with
  | [] => some []
  | c :: rest =>
    match _read : readAttribute? (c :: rest) with
    | none => none
    | some (entry, after) =>
      if names.contains entry.1 then none
      else (readAttributes (entry.1 :: names) after).map (entry :: ·)
termination_by cs.length
decreasing_by
  have shorter := readAttribute?_length _read
  have blanks := (List.dropWhile_suffix isBlank (l := cs)).length_le
  rw [_blanks] at blanks
  omega

/-- The token of an opening tag from the text between `<` and `>`. A stroke at its end makes the
element empty. -/
def Token.ofTag (content : List Char) : Token :=
  let isEmpty := content.getLast? = some '/'
  let content := if isEmpty then content.dropLast else content
  let name := String.ofList (content.takeWhile fun c => !isBlank c)
  let attributes := readAttributes [] (content.dropWhile fun c => !isBlank c)
  if isEmpty then .empty name attributes else .opening name attributes

/-- The name in a closing tag; blanks behind it do not count. -/
def closingName (content : List Char) : String :=
  if content.all isBlank then String.ofList content
  else String.ofList (content.reverse.dropWhile isBlank).reverse

inductive Lead where
  | nothing
  | fault
  | skipped (rest : List Char)
  | token (token : Token) (rest : List Char)

/-- Passes over a part of the text that ends where the automaton stops. -/
def Lead.pass {σ : Type} (step : σ → Char → Option σ) (state : σ) (cs : List Char) : Lead :=
  match Text.splitWhere step state [] cs with
  | some (_, rest) => .skipped rest
  | none => .fault

def Lead.tag (token : List Char → Token) (cs : List Char) : Lead :=
  match Text.splitWhere tagStep none [] cs with
  | some (content, rest) => .token (token content) rest
  | none => .fault

/-- Passes over a document type, from the text behind its keyword. It must name something. -/
def Lead.ofDocumentType (cs : List Char) : Lead :=
  match Text.splitWhere balanceStep 0 [] cs with
  | some (content, rest) => if content.all isBlank then .fault else .skipped rest
  | none => .fault

/-- What begins at the text behind `<!`. The keyword of an uninterpreted section is in capitals, that
of a document type in letters of either case. -/
def Lead.ofDeclaration : List Char → Lead
  | '-' :: '-' :: cs => .pass (Text.afterRun '-' '>' 2) 0 cs
  | '[' :: 'C' :: 'D' :: 'A' :: 'T' :: 'A' :: '[' :: cs => .pass (Text.afterRun ']' '>' 2) 0 cs
  | cs =>
    match Text.dropStart? ['d', 'o', 'c', 't', 'y', 'p', 'e'] cs with
    | some type => .ofDocumentType type
    | none => .fault

/-- What a text begins with once the characters before the next `<` are passed over. -/
def Lead.of (cs : List Char) : Lead :=
  match cs.dropWhile (· != '<') with
  | _ :: '!' :: cs => .ofDeclaration cs
  | _ :: '?' :: '>' :: _ => .fault
  | _ :: '?' :: cs => .pass (Text.afterRun '?' '>' 1) 0 cs
  | _ :: '/' :: cs => .tag (fun content => .closing (closingName content)) cs
  | _ :: c :: cs => .tag .ofTag (c :: cs)
  | [_] => .fault
  | [] => .nothing

def Lead.rest? : Lead → Option (List Char)
  | skipped rest | token _ rest => some rest
  | nothing | fault => none

theorem Lead.pass_length {σ : Type} {step : σ → Char → Option σ} {state : σ} {cs rest : List Char}
    (h : (Lead.pass step state cs).rest? = some rest) : rest.length < cs.length := by
  unfold Lead.pass at h
  split at h
  · rename_i split
    simp only [Lead.rest?, Option.some.injEq] at h
    exact h ▸ Text.splitWhere_length split
  · simp [Lead.rest?] at h

theorem Lead.tag_length {token : List Char → Token} {cs rest : List Char}
    (h : (Lead.tag token cs).rest? = some rest) : rest.length < cs.length := by
  unfold Lead.tag at h
  split at h
  · rename_i split
    simp only [Lead.rest?, Option.some.injEq] at h
    exact h ▸ Text.splitWhere_length split
  · simp [Lead.rest?] at h

theorem Lead.ofDocumentType_length {cs rest : List Char}
    (h : (Lead.ofDocumentType cs).rest? = some rest) : rest.length < cs.length := by
  unfold Lead.ofDocumentType at h
  split at h
  · rename_i split
    split at h
    · simp [Lead.rest?] at h
    · simp only [Lead.rest?, Option.some.injEq] at h
      exact h ▸ Text.splitWhere_length split
  · simp [Lead.rest?] at h

theorem Lead.ofDeclaration_length {cs rest : List Char}
    (h : (Lead.ofDeclaration cs).rest? = some rest) : rest.length < cs.length := by
  unfold Lead.ofDeclaration at h
  split at h
  · have := Lead.pass_length h
    simp only [List.length_cons]
    omega
  · have := Lead.pass_length h
    simp only [List.length_cons]
    omega
  · split at h
    · rename_i start
      exact Nat.lt_of_lt_of_le (Lead.ofDocumentType_length h) (Text.dropStart?_length start)
    · simp [Lead.rest?] at h

theorem Lead.of_length {cs rest : List Char} (h : (Lead.of cs).rest? = some rest) :
    rest.length < cs.length := by
  have whole := (List.dropWhile_suffix (· != '<') (l := cs)).length_le
  unfold Lead.of at h
  split at h <;> rename_i heq <;> rw [heq] at whole <;>
    simp only [List.length_cons, List.length_nil] at whole
  · have := Lead.ofDeclaration_length h
    omega
  · simp [Lead.rest?] at h
  · have := Lead.pass_length h
    omega
  · have := Lead.tag_length h
    omega
  · have := Lead.tag_length h
    simp only [List.length_cons] at this
    omega
  · simp [Lead.rest?] at h
  · simp [Lead.rest?] at h

/-- The tokens of a text up to its end or its first fault. -/
structure Reading where
  tokens : List Token
  complete : Bool

/-- The tokens of a text, behind those already `read` (backwards). -/
def readFrom (read : List Token) (cs : List Char) : Reading :=
  match _lead : Lead.of cs with
  | .nothing => ⟨read.reverse, true⟩
  | .fault => ⟨read.reverse, false⟩
  | .skipped rest => readFrom read rest
  | .token token rest => readFrom (token :: read) rest
termination_by cs.length
decreasing_by
  · exact Lead.of_length (by rw [_lead]; rfl)
  · exact Lead.of_length (by rw [_lead]; rfl)

/-- Reads a text. A byte order mark at its start does not belong to it. -/
def Reading.of (text : String) : Reading :=
  match text.toList with
  | '\uFEFF' :: cs => readFrom [] cs
  | cs => readFrom [] cs

end Articulation.Markup
