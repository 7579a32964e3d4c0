import PuzzleMachine.CommandLine

set_option autoImplicit false

namespace PuzzleMachine

def readText (path : String) : IO (Except ReadError String) := do
  try
    let bytes ← IO.FS.readBinFile path
    match String.fromUTF8? bytes with
    | some text => return .ok text
    | none => return .error .notText
  catch e =>
    match e with
    | .noFileOrDirectory .. => return .error .notFound
    | .inappropriateType .. => return .error .isDirectory
    | e => return .error (.system (toString e))

def Command.paths : Command → List String
  | .compile sources hardware => sources ++ hardware.toList
  | .run sources hardware puzzle _ _ => sources ++ hardware.toList ++ puzzle.toList
  | .checkSpec hardware puzzle => hardware.toList ++ puzzle.toList

def Request.paths : Request → List String
  | .command c => c.paths
  | _ => []

def LogFilter.ofName : Option String → LogFilter
  | some "off" => none
  | some "error" => some .error
  | some "warn" => some .warn
  | some "debug" => some .debug
  | some "trace" => some .trace
  | _ => some .info

end PuzzleMachine

open PuzzleMachine in
def main (args : List String) : IO UInt32 := do
  let paths := ((Request.parse? args).map Request.paths).getD []
  let contents ← paths.mapM fun path => return (path, ← readText path)
  let read : ReadFile := fun path => (contents.lookup path).getD (.error .notFound)
  let filter := LogFilter.ofName (← IO.getEnv "LOG_LEVEL")
  match CommandLine.answer read filter args with
  | .ok (some transcript) =>
      IO.print transcript.output
      return transcript.exitCode
  | .ok none =>
      IO.eprint CommandLine.usage
      return 2
  | .error breach =>
      IO.eprintln (breach.message?.getD "value out of range")
      return 101
