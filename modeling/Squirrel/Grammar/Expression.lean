import Squirrel.Grammar.Recovery

/-! Expressions, from the loosest binding to the tightest one. -/

namespace Squirrel.Grammar

/-- A lambda that has only this parameter, and a function for its body, wraps that function. -/
def hookParameter : String := "__original"

def parentheses (rules : Rules) : Rule (List Tree) := do
  let opener ← expect .leftParen
  let inner ← rules.expression
  let closer ← expect .rightParen
  return [opener, inner, closer]

def commaRound (item : Rule Tree) : Rule (Option (List Tree)) := do
  match ← accept? .comma with
  | some comma => return some [comma, ← item]
  | none => return none

/-- Items of the given rule, with a comma between each two of them. -/
def commaSeparated (item : Rule Tree) : Rule (List Tree) := do
  let first ← item
  let others ← many (commaRound item)
  return first :: others

def arguments (rules : Rules) : Rule Tree := do
  let opener ← expect .leftParen
  let values ← if ← sees .rightParen then pure [] else commaSeparated rules.expression
  let closer ← expect .rightParen
  return .node .arguments (opener :: values ++ [closer])

def parameter (rules : Rules) : Rule Tree := do
  if ← sees .ellipsis then
    return .node .parameter [← take]
  else
    let name ← expectOr .identifier (.expectedParameter (← current).toLexeme)
    match ← accept? .assign with
    | some assign => return .node .parameter [name, assign, ← rules.ternary]
    | none => return .node .parameter [name]

/-- A parameter and the comma after it; none follows where the comma is missing. The flag says
whether another parameter may follow. -/
def parameterRound (rules : Rules) : List Tree × Bool → Rule (Option (List Tree × Bool))
  | (read, open?) => do
    if !open? || (← sees .rightParen) then return none
    else
      let one ← parameter rules
      match ← accept? .comma with
      | some comma => return some (read ++ [one, comma], true)
      | none => return some (read ++ [one], false)

def parameterList (rules : Rules) : Rule (List Tree) := do
  let read ← iterate (parameterRound rules) ([], true)
  return read.1

def parameters (rules : Rules) : Rule Tree := do
  let opener ← expect .leftParen
  let list ← parameterList rules
  let closer ← expect .rightParen
  return .node .parameters (opener :: list ++ [closer])

/-- The names of a parameter list; a parameter without one gives `none`. -/
def parameterNames (list : Tree) : List (Option String) :=
  list.subtrees.map fun parameter => parameter.children.head?.bind (·.identifier?)

def lambda (rules : Rules) : Rule Tree := do
  let sign ← expect .atSign
  let list ← parameters rules
  let body ← if ← sees .leftBrace then block rules else rules.expression
  let label : Label :=
    if parameterNames list = [some hookParameter] ∧ body.hasLabel .functionLiteral then .hookWrapper
    else .lambdaLiteral
  return .node label [sign, list, body]

/-- An element in front of one of `closers`; the comma after it may be missing. -/
def elementRound (element : Rule Tree) (closers : List Kind) : Rule (Option (List Tree)) := do
  if ← seesAny closers then return none
  else
    let one ← element
    return some (one :: (← optional .comma))

def array (rules : Rules) : Rule Tree := do
  let opener ← expect .leftBracket
  let items ← many (elementRound rules.expression [.rightBracket, .endOfInput])
  let closer ← expect .rightBracket
  return .node .array (opener :: items ++ [closer])

def tableSlot (rules : Rules) (label : Label) : Rule Tree := do
  let key ← take
  let sign ← take
  return .node label [key, sign, ← rules.expression]

def tableComputed (rules : Rules) : Rule Tree := do
  let opener ← take
  let key ← rules.expression
  let closer ← expect .rightBracket
  let assign ← expect .assign
  return .node .tableComputed [opener, key, closer, assign, ← rules.expression]

def tableMethod (rules : Rules) : Rule Tree := do
  let keyword ← take
  let name ← expectOr .identifier .expectedMethodName
  let list ← parameters rules
  return .node .tableMethod [keyword, name, list, ← block rules]

def tableEntry (rules : Rules) : Rule Tree := do
  let token ← current
  let following := (← next? 1).map (·.kind)
  if token.kind = .identifier ∧ following = some .assign then tableSlot rules .tableSlot
  else if token.kind = .leftBracket then tableComputed rules
  else if token.kind = .string ∧ following = some .colon then tableSlot rules .tableQuoted
  else if token.kind = .kwFunction then tableMethod rules
  else fail (.expectedTableEntry token.toLexeme)

/-- A malformed entry of a table is skipped. -/
def table (rules : Rules) : Rule Tree := do
  let opener ← expect .leftBrace
  let entries ← many (elementRound (recovering (tableEntry rules) skipFailedEntry)
    [.rightBrace, .endOfInput])
  let closer ← expect .rightBrace
  return .node .table (opener :: entries ++ [closer])

def functionLiteral (rules : Rules) : Rule Tree := do
  let keyword ← take
  let list ← parameters rules
  return .node .functionLiteral [keyword, list, ← block rules]

def rootReference : Rule Tree := do
  let colons ← take
  return .node .rootReference [colons, ← expectOr .identifier .expectedRootName]

/-- The rule for an operand that starts with `token`. A malformed token is an expression: it has
been reported before. -/
def primaryFrom (rules : Rules) (token : Token) : Rule Tree :=
  match token.kind with
  | .identifier => return .node .reference [← take]
  | .kwThis => return .node .thisObject [← take]
  | .kwBase => return .node .baseObject [← take]
  | .doubleColon => rootReference
  | .leftParen => return .node .parenthesized (← parentheses rules)
  | .leftBrace => table rules
  | .leftBracket => array rules
  | .kwFunction => functionLiteral rules
  | .atSign => lambda rules
  | .error => return .node .error [← take]
  | kind =>
    if kind.isLiteral then return .node .literal [← take] else fail (.unexpected token.toLexeme)

def primary (rules : Rules) : Rule Tree := do primaryFrom rules (← current)

def calleeName? : Tree → Option String
  | .node .reference (.leaf token :: _) => some token.text
  | .node .member children => (children.getLast?.bind (·.token?)).map (·.text)
  | .node .rootReference children => (children.getLast?.bind (·.token?)).map (·.text)
  | _ => none

/-- A call of `inherit` with a base and a table is marked as such. -/
def makeCall (callee list : Tree) : Tree :=
  match list.subtrees with
  | [_, body] =>
    if body.hasLabel .table ∧ calleeName? callee = some "inherit" then
      .node .inheritCall [callee, list]
    else .node .call [callee, list]
  | _ => .node .call [callee, list]

/-- One member access, call, index or update after an operand. An index or an update has to start
on the operand's line. -/
def suffixStep (rules : Rules) (operand : Tree) : Rule (Option Tree) := do
  let token ← current
  match token.kind with
  | .dot =>
    let dot ← take
    let name ← expectOr .identifier (.expectedMember (← current).toLexeme)
    return some (.node .member [operand, dot, name])
  | .leftParen => return some (makeCall operand (← arguments rules))
  | .leftBracket =>
    if token.startsLine then return none
    else
      let opener ← take
      let key ← rules.expression
      let closer ← expect .rightBracket
      return some (.node .index [operand, opener, key, closer])
  | .increment | .decrement =>
    if token.startsLine then return none
    else return some (.node .postUpdate [operand, ← take])
  | _ => return none

def suffixed (rules : Rules) : Rule Tree := do
  iterate (suffixStep rules) (← primary rules)

def unary (rules : Rules) : Rule Tree := do
  if (← current).kind.isUnary then
    let operator ← take
    return .node .unary [operator, ← rules.unary]
  else
    suffixed rules

def operatorLabel (operator : Kind) : Label :=
  if operator = .logicalAnd ∨ operator = .logicalOr then .logical else .binary

/-- One operator that binds at least as tightly as `least`, and its right operand. -/
def binaryStep (rules : Rules) (least : Nat) (left : Tree) : Rule (Option Tree) := do
  let token ← current
  match token.kind.precedence? with
  | none => return none
  | some precedence =>
    if precedence < least then return none
    else
      let operator ← take
      let right ← rules.binary (precedence + 1)
      return some (.node (operatorLabel token.kind) [left, operator, right])

def binary (rules : Rules) (least : Nat) : Rule Tree := do
  iterate (binaryStep rules least) (← unary rules)

def ternary (rules : Rules) : Rule Tree := do
  let condition ← binary rules 1
  match ← accept? .question with
  | none => return condition
  | some question =>
    let first ← rules.expression
    let colon ← expect .colon
    let second ← rules.expression
    return .node .ternary [condition, question, first, colon, second]

def expression (rules : Rules) : Rule Tree := do
  let target ← ternary rules
  let token ← current
  if token.kind.isAssignment then
    let operator ← take
    let value ← rules.expression
    return .node (if token.kind = .newSlot then .newSlot else .assign) [target, operator, value]
  else
    return target

end Squirrel.Grammar
