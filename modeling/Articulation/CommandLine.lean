import Articulation.Load
import Articulation.Report
/-! The command line: its grammar, and what each command prints. Options may stand before or behind the
command where they apply to all commands; behind it they win. -/
namespace Articulation.CommandLine

/-! ### Arguments -/

/-- An option, which may have a letter, and whether a value follows it. -/
structure OptionForm where
  name : String
  letter : Option Char
  takesValue : Bool

structure Arguments where
  options : List (String × String)
  operands : List String

namespace Arguments

def none : Arguments := ⟨[], []⟩

/-- Adds an option, which may come only once. -/
def addOption (a : Arguments) (name value : String) : Option Arguments :=
  if (a.options.lookup name).isSome then .none
  else some { a with options := a.options ++ [(name, value)] }

def addOperand (a : Arguments) (operand : String) : Arguments :=
  { a with operands := a.operands ++ [operand] }

end Arguments

def isOption (arg : String) : Bool := arg.startsWith "-" && arg != "-"

/-- An option of which a value is still to come. -/
abbrev Pending := Option String

/-- Reads letters run together. What stands behind an option with a value is its value. -/
def readLetters (forms : List OptionForm) (a : Arguments) : List Char → Option (Arguments × Pending)
  | [] => some (a, .none)
  | c :: cs =>
    match forms.find? fun form => form.letter == some c with
    | .none => .none
    | some form =>
      if form.takesValue then
        match cs with
        | [] => some (a, some form.name)
        | '=' :: value => (a.addOption form.name (String.ofList value)).map (·, .none)
        | value => (a.addOption form.name (String.ofList value)).map (·, .none)
      else (a.addOption form.name "").bind fun a => readLetters forms a cs

def readLong (forms : List OptionForm) (a : Arguments) (cs : List Char) :
    Option (Arguments × Pending) :=
  let name := String.ofList (cs.takeWhile (· != '='))
  match forms.find? fun form => form.name == name, cs.dropWhile (· != '=') with
  | .none, _ => .none
  | some form, [] =>
    if form.takesValue then some (a, some form.name)
    else (a.addOption form.name "").map (·, .none)
  | some form, _ :: value =>
    if form.takesValue then (a.addOption form.name (String.ofList value)).map (·, .none) else .none

/-- Reads arguments up to the first operand, if that ends them, and gives those behind it. -/
def readArguments (forms : List OptionForm) (stopAtOperand : Bool) (a : Arguments) :
    Pending → List String → Option (Arguments × List String)
  | some _, [] => .none
  | .none, [] => some (a, [])
  | some name, arg :: args =>
    if isOption arg then .none
    else (a.addOption name arg).bind fun a => readArguments forms stopAtOperand a .none args
  | .none, arg :: args =>
    if arg = "--" then
      if stopAtOperand then .none else some ({ a with operands := a.operands ++ args }, [])
    else
      match arg.toList with
      | '-' :: '-' :: cs =>
        (readLong forms a cs).bind fun (a, pending) =>
          readArguments forms stopAtOperand a pending args
      | '-' :: c :: cs =>
        (readLetters forms a (c :: cs)).bind fun (a, pending) =>
          readArguments forms stopAtOperand a pending args
      | _ =>
        if stopAtOperand then some (a.addOperand arg, args)
        else readArguments forms stopAtOperand (a.addOperand arg) .none args

/-! ### Commands -/

inductive Command where
  | inspect (file : String) (dialect : Dialect)
  | check (file : String) (dialect : Dialect) (strict : Bool)
  | schema (kind : SchemaKind)
deriving DecidableEq, Repr

structure Invocation where
  settingsFile : Option String
  command : Command
deriving DecidableEq, Repr

def commonForms : List OptionForm :=
  [⟨"config", some 'c', true⟩, ⟨"verbose", some 'v', false⟩]

def dialectForm : OptionForm := ⟨"dialect", some 'd', true⟩

def strictForm : OptionForm := ⟨"strict", .none, false⟩

def file? (arg : String) : Option String := if arg.isEmpty then .none else some arg

/-- The file of the settings; an empty name is refused. -/
def settingsFile? (a : Arguments) : Option (Option String) :=
  match a.options.lookup "config" with
  | .none => some .none
  | some file => (file? file).map some

def dialect? (a : Arguments) : Option Dialect :=
  (a.options.lookup "dialect").bind fun word => (Dialect.ofWord word).toOption

def operandFile? (a : Arguments) : Option String :=
  match a.operands with
  | [file] => file? file
  | _ => .none

def schemaKind? (a : Arguments) : Option SchemaKind :=
  match a.operands with
  | ["mjcf"] => some .mjcf
  | ["urdf"] => some .urdf
  | _ => .none

/-- The forms of a command's own options, and its reading from its arguments. -/
def command? : String → Option (List OptionForm × (Arguments → Option Command))
  | "inspect" => some ([dialectForm], fun a => do return .inspect (← operandFile? a) (← dialect? a))
  | "check" => some ([dialectForm, strictForm], fun a => do
      return .check (← operandFile? a) (← dialect? a) (a.options.lookup "strict").isSome)
  | "schema" => some ([], fun a => do return .schema (← schemaKind? a))
  | _ => .none

def Invocation.read? (args : List String) : Option Invocation := do
  let (outer, rest) ← readArguments commonForms true .none .none args
  let name ← outer.operands.head?
  let (forms, read) ← command? name
  let (inner, _) ← readArguments (commonForms ++ forms) false .none .none rest
  let outerFile ← settingsFile? outer
  let innerFile ← settingsFile? inner
  return ⟨innerFile.or outerFile, ← read inner⟩

/-! ### Running -/

/-- What a run leaves: an exit code, what it printed, and a complaint if it failed. -/
structure Outcome where
  code : Nat
  output : String
  complaint : String
deriving DecidableEq, Repr

def printed (rows : List String) : String := String.join (rows.map (· ++ "\n"))

def usage : String := "usage: articulation (inspect | check | schema) [options]"

def failure (message : Option String) : Outcome := ⟨1, "", message.getD "the text cannot be read"⟩

def execute (read : FileReader) (settings : Settings) : Command → Outcome
  | .inspect file dialect =>
    match loadFile read file dialect settings with
    | .ok robot => ⟨0, printed robot.inspection, ""⟩
    | .error e => failure e.message?
  | .check file dialect strict =>
    match loadFile read file dialect settings with
    | .ok robot =>
      let failed := strict && !robot.diagnostics.isEmpty
      ⟨if failed then 1 else 0, printed robot.findings,
        if failed then s!"{robot.diagnostics.length} diagnostics recorded" else ""⟩
    | .error e => failure e.message?
  | .schema kind => ⟨0, kind.schema.text, ""⟩

def Invocation.files (i : Invocation) : List String :=
  i.settingsFile.toList ++ match i.command with
    | .inspect file _ | .check file _ _ => [file]
    | .schema _ => []

def Invocation.run (read : FileReader) (i : Invocation) : Outcome :=
  match i.settingsFile with
  | .none => execute read .standard i.command
  | some path =>
    match Settings.ofFile read path with
    | .ok settings => execute read settings i.command
    | .error e => failure e.message?

/-- Runs a command line; one that is not understood has the exit code 2. -/
def run (read : FileReader) (args : List String) : Outcome :=
  match Invocation.read? args with
  | .none => ⟨2, "", usage⟩
  | some invocation => invocation.run read

end Articulation.CommandLine
