import Squirrel.Grammar.Program

/-! A reader that stands between two rules, with its place in a list of tokens. -/

namespace Squirrel.Grammar

structure Session where
  tokens : List Token
  state : State

inductive SessionError where
  | failure (cause : Failure)
  | noTokens

def Failure.message : Failure → String
  | .fault cause token =>
    cause.message ++ " at line " ++ toString token.span.line ++ ", col " ++
      toString token.span.column
  | .tooDeep => SyntaxFault.nestingTooDeep.message

def SessionError.message : SessionError → String
  | .failure cause => cause.message
  | .noTokens => "list index out of range"

/-- The current token if it is of one of these kinds. -/
def acceptAny? (kinds : List Kind) : Rule (Option Tree) := do
  if ← seesAny kinds then some <$> take else return none

namespace Session

def ofTokens (tokens : List Token) : Session := ⟨tokens, .ofTokens tokens⟩

def position (session : Session) : Nat := session.tokens.length - session.state.rest.length

/-- Runs a rule. What it read stays read when it fails. -/
def run {α : Type} (session : Session) (rule : Rule α) : Except SessionError α × Session :=
  match rule session.state with
  | .ok value stop => (.ok value, { session with state := stop })
  | .error failure stop => (.error (.failure failure), { session with state := stop })

def peek (session : Session) (distance : Nat) : Except SessionError Token :=
  match session.state.lookahead? distance with
  | some token => .ok token
  | none => .error .noTokens

def program [NestingLimit] (session : Session) : Except SessionError Tree × Session :=
  if session.tokens.isEmpty then (.error .noTokens, session)
  else
    let (tree, stop) := Grammar.program session.tokens session.state
    (.ok tree, { session with state := stop })

def skipTo (session : Session) (rest : List Token) : Session :=
  { session with state := { session.state with rest := rest } }

/-- Skips a malformed statement that began at token number `start`. -/
def skipStatement (session : Session) (start : Nat) : Session :=
  session.skipTo (Grammar.skipStatement (start + 1 - session.position) 0 session.state.rest)

/-- Skips a malformed table entry that began at token number `start`. -/
def skipEntry (session : Session) (start : Nat) : Session :=
  session.skipTo (if session.position = start then skipFreshEntry session.state.rest
    else Grammar.skipEntry 0 session.state.rest)

/-- The tokens from number `start` up to the current one, as an error node. -/
def errorNode (session : Session) (start : Nat) : Tree :=
  Grammar.errorNode ((session.tokens.drop start).take (session.position - start))

end Session

end Squirrel.Grammar
