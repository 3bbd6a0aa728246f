import Squirrel.CommandLine.Log
import Squirrel.Text.Numeral

/-! The command line. -/

namespace Squirrel.CommandLine

def usage : String :=
  "usage: squirrel-ref \x7bformat,check,ast\x7d [--width=N] [--spaces=N] [--global=NAME] " ++
    "[--verbose] [FILE|-|SOURCE]"

inductive Command where
  | format | check | ast
  deriving DecidableEq, Repr

def Command.ofName? : String → Option Command
  | "format" => some .format
  | "check" => some .check
  | "ast" => some .ast
  | _ => none

/-- Why nothing is done. -/
inductive Halt where
  | help
  | notAnInteger (flag value : String)
  | notPositive (flag : String)
  | unknownCommand (name : String)
  | unexpectedArgument (argument : String)
  | noCommand
  | noInput
  deriving DecidableEq, Repr

def Halt.message : Halt → String
  | .help => usage
  | .notAnInteger flag value => flag ++ " expects an integer, got " ++ Text.quoted value
  | .notPositive flag => flag ++ " must be positive"
  | .unknownCommand name => "Unknown command: " ++ name ++ "\n" ++ usage
  | .unexpectedArgument argument => "Unexpected argument: " ++ argument
  | .noCommand => usage
  | .noInput => "No input provided on stdin"

/-- What has been read from the arguments so far. -/
structure Arguments where
  options : FormatOptions
  known : List String
  verbose : Bool
  command : Option Command
  source : Option String

def Arguments.initial : Arguments := ⟨.standard, [], false, none, none⟩

/-- The value of a flag that is written with an equals sign. -/
def flagValue? (flag argument : String) : Option String :=
  let start := flag.toList ++ ['=']
  if start.isPrefixOf argument.toList then some (String.ofList (argument.toList.drop start.length))
  else none

def positive (flag value : String) : Except Halt Nat :=
  match Text.integer? value with
  | none => .error (.notAnInteger flag value)
  | some number => if number ≤ 0 then .error (.notPositive flag) else .ok number.toNat

def spaces (count : Nat) : String := String.ofList (List.replicate count ' ')

/-- The first plain argument is the command, and the second one the source. -/
def Arguments.addPlain (arguments : Arguments) (argument : String) : Except Halt Arguments :=
  match arguments.command, arguments.source with
  | none, _ =>
    match Command.ofName? argument with
    | some command => .ok { arguments with command := some command }
    | none => .error (.unknownCommand argument)
  | some _, none => .ok { arguments with source := some argument }
  | some _, some _ => .error (.unexpectedArgument argument)

def Arguments.add (arguments : Arguments) (argument : String) : Except Halt Arguments :=
  if argument = "-h" ∨ argument = "--help" then .error .help
  else if argument = "--verbose" then .ok { arguments with verbose := true }
  else if let some value := flagValue? "--width" argument then do
    let width ← positive "--width" value
    return { arguments with options := { arguments.options with maxWidth := width } }
  else if let some value := flagValue? "--spaces" argument then do
    let count ← positive "--spaces" value
    return { arguments with options := { arguments.options with indent := spaces count } }
  else if let some value := flagValue? "--global" argument then
    .ok { arguments with known := arguments.known ++ [value] }
  else arguments.addPlain argument

/-- What is asked for. Without a source, or with a dash for it, the standard input is read. -/
structure Request where
  command : Command
  options : FormatOptions
  known : List String
  verbose : Bool
  source : Option String

def Request.ofArguments (arguments : List String) : Except Halt Request := do
  let read ← arguments.foldlM Arguments.add .initial
  match read.command with
  | none => .error .noCommand
  | some command =>
    let source := read.source.filter fun source => source ≠ "-" ∧ source ≠ ""
    return ⟨command, read.options, read.known, read.verbose, source⟩

/-- All line breaks of a file count as line feeds. -/
def unifyLineBreaks : List Char → List Char
  | [] => []
  | '\r' :: '\n' :: text => '\n' :: unifyLineBreaks text
  | '\r' :: text => '\n' :: unifyLineBreaks text
  | c :: text => c :: unifyLineBreaks text

def inputText (input : String) : Except Halt String :=
  if input = "" then .error .noInput else .ok input

/-- An argument is the name of a file, or else the source itself. -/
def argumentText (file? : String → Option String) (argument : String) : String :=
  match file? argument with
  | some text => String.ofList (unifyLineBreaks text.toList)
  | none => argument

structure Outcome where
  exitCode : Nat
  output : String
  log : String
  deriving DecidableEq, Repr

def reportLines (diagnostics : List Diagnostic) : String :=
  String.join (diagnostics.map fun diagnostic => diagnostic.render ++ "\n")

/-- Does what is asked for with a source text. -/
def Request.run (request : Request) (source : String) : Outcome :=
  let logged (lines : List LogLine) : String := if request.verbose then renderLog lines else ""
  match request.command with
  | .format =>
    let text := Squirrel.format request.options source
    ⟨0, text, logged (formatLog source text)⟩
  | .ast =>
    let parsed := parse source
    ⟨if parsed.diagnostics.isEmpty then 0 else 1,
      parsed.tree.outline ++ "\n" ++ reportLines parsed.diagnostics, logged (parseLog source)⟩
  | .check =>
    let diagnostics := analyze request.known source
    ⟨if diagnostics.any (·.severity = .error) then 1 else 0, reportLines diagnostics,
      logged (analysisLog source request.known)⟩

def Outcome.help : Outcome := ⟨0, usage ++ "\n", ""⟩

def sourceText (request : Request) (input : String) (file? : String → Option String) :
    Except Halt String :=
  match request.source with
  | some argument => .ok (argumentText file? argument)
  | none => inputText input

/-- The whole program, for given arguments, standard input and files. -/
def run (arguments : List String) (input : String) (file? : String → Option String) :
    Except Halt Outcome :=
  match Request.ofArguments arguments with
  | .error .help => .ok .help
  | .error cause => .error cause
  | .ok request => (sourceText request input file?).map request.run

end Squirrel.CommandLine
