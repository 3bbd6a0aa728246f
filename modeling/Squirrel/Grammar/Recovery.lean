import Squirrel.Grammar.Basic

/-! Going on after a malformed statement or table entry. -/

namespace Squirrel.Grammar

def errorNode (tokens : List Token) : Tree := .node .error (tokens.map .leaf)

/-- Bracket depth after a token; a closer without an opener counts for nothing. -/
def depthAfter (depth : Nat) (token : Token) : Nat :=
  if token.kind.isOpener then depth + 1
  else if token.kind.isCloser then depth - 1
  else depth

/-- Skips a malformed statement: at least `due` tokens, then up to a line start or a closing brace,
or past a semicolon, outside brackets. -/
def skipStatement (due depth : Nat) : List Token → List Token
  | token :: next :: rest =>
    if token.kind = .endOfInput then token :: next :: rest
    else if due = 0 ∧ depth = 0 ∧ (token.kind = .rightBrace ∨ token.startsLine) then
      token :: next :: rest
    else if token.kind = .semicolon ∧ depth = 0 then next :: rest
    else skipStatement (due - 1) (depthAfter depth token) (next :: rest)
  | rest => rest

/-- Skips a malformed table entry up to a comma, a closing brace or a line start, outside
brackets. -/
def skipEntry (depth : Nat) : List Token → List Token
  | token :: next :: rest =>
    if token.kind = .endOfInput then token :: next :: rest
    else if depth = 0 ∧ (token.kind = .comma ∨ token.kind = .rightBrace ∨ token.startsLine) then
      token :: next :: rest
    else skipEntry (depthAfter depth token) (next :: rest)
  | rest => rest

/-- Skips an entry of which nothing has been read: its first token goes in any case. -/
def skipFreshEntry : List Token → List Token
  | token :: next :: rest =>
    if token.kind = .comma then next :: rest
    else skipEntry (if token.kind.isOpener then 1 else 0) (next :: rest)
  | rest => rest

/-- Reads a tree by `rule`. If it fails, `skip` is given where the rule started and where it
stopped, and what lies before the place it chooses becomes an error node. -/
def recovering (rule : Rule Tree) (skip : State → State → List Token) : Rule Tree := fun start =>
  match rule start with
  | .error (.fault fault token) stop =>
    let reported := stop.report fault token
    let resumed := { reported with rest := skip start stop }
    .ok (errorNode (start.between resumed)) resumed
  | result => result

def skipFailedStatement (start stop : State) : List Token :=
  skipStatement (if stop.rest.length < start.rest.length then 0 else 1) 0 stop.rest

def skipFailedEntry (start stop : State) : List Token :=
  if stop.rest.length < start.rest.length then skipEntry 0 stop.rest
  else skipFreshEntry stop.rest

def statementRound (rules : Rules) (closers : List Kind) : Rule (Option (List Tree)) := do
  if (← atEnd) || (← seesAny closers) then return none
  else return some [← recovering rules.statement skipFailedStatement]

/-- Statements up to the end or to one of `closers`. -/
def statements (rules : Rules) (closers : List Kind) : Rule (List Tree) :=
  many (statementRound rules closers)

def block (rules : Rules) : Rule Tree := do
  let opener ← expect .leftBrace
  let body ← statements rules [.rightBrace]
  let closer ← expect .rightBrace
  return .node .block (opener :: body ++ [closer])

end Squirrel.Grammar
