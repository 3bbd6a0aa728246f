import Squirrel.Diagnostic
import Squirrel.Tree.Basic

/-! Reading trees from tokens: the state of a reader, its failures, and the steps of a rule. -/

namespace Squirrel.Grammar

/-- The tokens still to be read, and what was wrong with those before them. -/
structure State where
  rest : List Token
  diagnostics : List Diagnostic
  deriving Repr

/-- Why a rule gives up. What was read and reported before stays so. -/
inductive Failure where
  | fault (cause : SyntaxFault) (token : Token)
  | tooDeep
  deriving Repr

abbrev Rule (α : Type) : Type := EStateM Failure State α

def noToken : Token := ⟨⟨.endOfInput, ""⟩, ⟨0, 0, 0, 0⟩, [], []⟩

namespace State

def ofTokens (tokens : List Token) : State := ⟨tokens, []⟩

def current (state : State) : Token := state.rest.headD noToken

/-- The token `distance` places ahead, or the last one. -/
def lookahead? (state : State) (distance : Nat) : Option Token :=
  state.rest[distance]?.or state.rest.getLast?

def advance (state : State) : State :=
  match state.rest with
  | _ :: next :: rest => { state with rest := next :: rest }
  | _ => state

def report (state : State) (fault : SyntaxFault) (token : Token) : State :=
  { state with
    diagnostics := state.diagnostics ++ [⟨.grammatical fault, .error, token.span⟩] }

/-- The tokens read on the way from `start` to `stop`. -/
def between (start stop : State) : List Token :=
  start.rest.take (start.rest.length - stop.rest.length)

end State

def current : Rule Token := return (← get).current

def next? (distance : Nat) : Rule (Option Token) := return (← get).lookahead? distance

def sees (kind : Kind) : Rule Bool := return (← current).kind = kind

def seesAny (kinds : List Kind) : Rule Bool := return kinds.contains (← current).kind

def atEnd : Rule Bool := sees .endOfInput

def onNewLine : Rule Bool := return (← current).startsLine

/-- Takes the current token, whatever it is. -/
def take : Rule Tree := do
  let token ← current
  modify (·.advance)
  return .leaf token

def fail {α : Type} (fault : SyntaxFault) : Rule α := do
  throw (.fault fault (← current))

def accept? (kind : Kind) : Rule (Option Tree) := do
  if ← sees kind then some <$> take else return none

/-- The current token if it is of this kind, as a list of children. -/
def optional (kind : Kind) : Rule (List Tree) := do
  if ← sees kind then return [← take] else return []

def expectOr (kind : Kind) (fault : SyntaxFault) : Rule Tree := do
  if ← sees kind then take else fail fault

def expect (kind : Kind) : Rule Tree := do
  expectOr kind (.expected kind (← current).toLexeme)

/-- Repeats `step` until it answers `none`, or reads nothing. -/
def iterate {α : Type} (step : α → Rule (Option α)) (value : α) : Rule α := fun state =>
  match step value state with
  | .error failure stop => .error failure stop
  | .ok none stop => .ok value stop
  | .ok (some further) stop =>
    if stop.rest.length < state.rest.length then iterate step further stop else .ok further stop
termination_by state => state.rest.length

/-- Puts the children that `step` reads behind those read before. -/
def gather (step : Rule (Option (List Tree))) (read : List Tree) : Rule (Option (List Tree)) :=
  return (← step).map (read ++ ·)

/-- Joins the children that `step` reads, one run after the other. -/
def many (step : Rule (Option (List Tree))) : Rule (List Tree) := iterate (gather step) []

/-- An optional semicolon; without one, a brace, the end or a line break has to follow. -/
def endStatement : Rule (List Tree) := do
  match ← accept? .semicolon with
  | some semicolon => return [semicolon]
  | none =>
    if (← seesAny [.rightBrace, .endOfInput]) || (← onNewLine) then return []
    else fail (.unterminatedStatement (← current).toLexeme)

/-- The rules that others refer to while they are being defined. Each use goes one level deeper. -/
structure Rules where
  statement : Rule Tree
  expression : Rule Tree
  ternary : Rule Tree
  binary : Nat → Rule Tree
  unary : Rule Tree

end Squirrel.Grammar
