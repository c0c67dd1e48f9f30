import Articulation.CommandLine
/-! The program: reads the files that the command line names, runs it and prints. -/
namespace Articulation

def readText (path : String) : IO (Except FileFault String) := do
  try
    let bytes ← IO.FS.readBinFile path
    return match String.fromUTF8? bytes with
      | some text => .ok text
      | none => .error .notText
  catch
    | .inappropriateType _ 21 _ => return .error .isDirectory
    | .inappropriateType .. => return .error .notDirectory
    | .invalidArgument _ 36 _ => return .error .nameTooLong
    | _ => return .error .notFound

end Articulation

open Articulation in
def main (args : List String) : IO UInt32 := do
  let paths := ((CommandLine.Invocation.read? args).map (·.files)).getD []
  let texts ← paths.mapM fun path => do return (path, ← readText path)
  let outcome := CommandLine.run (fun path => (texts.lookup path).getD (.error .notFound)) args
  IO.print outcome.output
  if !outcome.complaint.isEmpty then IO.eprintln outcome.complaint
  return UInt32.ofNat outcome.code
