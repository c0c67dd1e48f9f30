/-! Splitting a text at the first character where an automaton stops. The rest is always shorter than
the text, so a reader that goes on from it ends. -/
namespace Articulation.Text

/-- The characters before the one where the automaton stops, behind those already `taken` (read
backwards), and the characters after it. -/
def splitWhere {σ : Type} (step : σ → Char → Option σ) (state : σ) (taken : List Char) :
    List Char → Option (List Char × List Char)
  | [] => none
  | c :: cs =>
    match step state c with
    | none => some (taken.reverse, cs)
    | some state => splitWhere step state (c :: taken) cs

theorem splitWhere_length {σ : Type} {step : σ → Char → Option σ} {state : σ}
    {taken cs before rest : List Char} (h : splitWhere step state taken cs = some (before, rest)) :
    rest.length < cs.length := by
  induction cs generalizing state taken with
  | nil => simp [splitWhere] at h
  | cons c cs ih =>
    unfold splitWhere at h
    split at h
    · simp only [Option.some.injEq, Prod.mk.injEq] at h
      simp [h.2]
    · exact Nat.lt_succ_of_lt (ih h)

/-- The automaton that stops at `last` when it directly follows `count` or more of the character
`mark`. -/
def afterRun (mark last : Char) (count : Nat) (run : Nat) (c : Char) : Option Nat :=
  if c = last ∧ count ≤ run then none
  else some (if c = mark then run + 1 else 0)

/-- The text behind a beginning, whose ASCII letters may be of either case. -/
def dropStart? : List Char → List Char → Option (List Char)
  | [], cs => some cs
  | _ :: _, [] => none
  | c :: start, d :: cs => if c.toLower = d.toLower then dropStart? start cs else none

theorem dropStart?_length {start cs rest : List Char} (h : dropStart? start cs = some rest) :
    rest.length ≤ cs.length := by
  fun_induction dropStart? start cs with
  | case1 => simp_all
  | case2 => simp at h
  | case3 c start d cs _ ih => exact Nat.le_succ_of_le (ih h)
  | case4 => simp at h

end Articulation.Text
