import Squirrel.CommandLine.Basic

/-! The program on the console. -/

namespace Squirrel.CommandLine

partial def readAll (stream : IO.FS.Stream) (text : String) : IO String := do
  let line ← stream.getLine
  if line.isEmpty then return text else readAll stream (text ++ line)

/-- Standard input is read only if no source is given. -/
def readInput (request : Request) : IO String := do
  if request.source.isSome then return "" else readAll (← IO.getStdin) ""

def readFile? (name : String) : IO (Option String) :=
  try some <$> IO.FS.readFile name catch _ => return none

def deliver (outcome : Outcome) : IO UInt32 := do
  IO.print outcome.output
  IO.eprint outcome.log
  return outcome.exitCode.toUInt32

def refuse (cause : Halt) : IO UInt32 := do
  IO.eprintln cause.message
  return 1

def perform (request : Request) : IO UInt32 := do
  let input ← readInput request
  let found ← readFile? (request.source.getD "")
  match sourceText request input fun _ => found with
  | .ok source => deliver (request.run source)
  | .error cause => refuse cause

end Squirrel.CommandLine

def main (arguments : List String) : IO UInt32 := do
  match Squirrel.CommandLine.Request.ofArguments arguments with
  | .ok request => Squirrel.CommandLine.perform request
  | .error .help => Squirrel.CommandLine.deliver .help
  | .error cause => Squirrel.CommandLine.refuse cause
