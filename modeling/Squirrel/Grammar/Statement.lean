import Squirrel.Grammar.Expression

/-! Statements. -/

namespace Squirrel.Grammar

def ifStatement (rules : Rules) : Rule Tree := do
  let keyword ← expect .kwIf
  let condition ← parentheses rules
  let body ← rules.statement
  let head := keyword :: condition ++ [body]
  match ← accept? .kwElse with
  | some otherwise => return .node .ifStatement (head ++ [otherwise, ← rules.statement])
  | none => return .node .ifStatement head

def whileStatement (rules : Rules) : Rule Tree := do
  let keyword ← expect .kwWhile
  let condition ← parentheses rules
  return .node .whileStatement (keyword :: condition ++ [← rules.statement])

def doWhileStatement (rules : Rules) : Rule Tree := do
  let keyword ← expect .kwDo
  let body ← rules.statement
  let whileWord ← expect .kwWhile
  let condition ← parentheses rules
  let ending ← endStatement
  return .node .doWhileStatement ([keyword, body, whileWord] ++ condition ++ ending)

def declarator (rules : Rules) : Rule Tree := do
  let name ← expectOr .identifier (.expectedVariable (← current).toLexeme)
  match ← accept? .assign with
  | some assign => return .node .declarator [name, assign, ← rules.expression]
  | none => return .node .declarator [name]

/-- The children of a declaration of local variables, up to its end. -/
def localVariables (rules : Rules) : Rule (List Tree) := do
  let keyword ← expect .kwLocal
  return keyword :: (← commaSeparated (declarator rules))

def localDeclaration (rules : Rules) : Rule Tree := do
  let children ← localVariables rules
  return .node .localDeclaration (children ++ (← endStatement))

def constDeclaration (rules : Rules) : Rule Tree := do
  let keyword ← expect .kwConst
  let name ← expectOr .identifier .expectedConstant
  let assign ← expect .assign
  let value ← rules.expression
  return .node .constDeclaration ([keyword, name, assign, value] ++ (← endStatement))

def forInit (rules : Rules) : Rule (List Tree) := do
  if ← sees .kwLocal then return [.node .localDeclaration (← localVariables rules)]
  else if ← sees .semicolon then return []
  else return [← rules.expression]

/-- An expression, or nothing in front of a `closer`. -/
def optionalExpression (rules : Rules) (closer : Kind) : Rule (List Tree) := do
  if ← sees closer then return [] else return [← rules.expression]

def forStatement (rules : Rules) : Rule Tree := do
  let keyword ← expect .kwFor
  let opener ← expect .leftParen
  let init ← forInit rules
  let first ← expect .semicolon
  let condition ← optionalExpression rules .semicolon
  let second ← expect .semicolon
  let step ← optionalExpression rules .rightParen
  let closer ← expect .rightParen
  let body ← rules.statement
  return .node .forStatement [keyword, opener, .node .forInit init, first,
    .node .forCondition condition, second, .node .forStep step, closer, body]

def foreachVariables : Rule Tree := do
  let name ← expectOr .identifier .expectedLoopVariable
  match ← accept? .comma with
  | some comma =>
    return .node .foreachVariables [name, comma, ← expectOr .identifier .expectedLoopVariable]
  | none => return .node .foreachVariables [name]

def foreachStatement (rules : Rules) : Rule Tree := do
  let keyword ← expect .kwForeach
  let opener ← expect .leftParen
  let names ← foreachVariables
  let inWord ← expect .kwIn
  let container ← rules.expression
  let closer ← expect .rightParen
  let body ← rules.statement
  return .node .foreachStatement [keyword, opener, names, inWord, container, closer, body]

def caseBody (rules : Rules) : Rule Tree :=
  return .node .caseBody (← statements rules [.kwCase, .kwDefault, .rightBrace])

def switchClause (rules : Rules) : Rule Tree := do
  if ← sees .kwCase then
    let keyword ← take
    let value ← rules.expression
    let colon ← expect .colon
    return .node .caseClause [keyword, value, colon, ← caseBody rules]
  else if ← sees .kwDefault then
    let keyword ← take
    let colon ← expect .colon
    return .node .defaultClause [keyword, colon, ← caseBody rules]
  else
    fail (.expectedClause (← current).toLexeme)

def clauseRound (rules : Rules) : Rule (Option (List Tree)) := do
  if ← seesAny [.rightBrace, .endOfInput] then return none
  else return some [← switchClause rules]

def switchStatement (rules : Rules) : Rule Tree := do
  let keyword ← expect .kwSwitch
  let subject ← parentheses rules
  let opener ← expect .leftBrace
  let clauses ← many (clauseRound rules)
  let closer ← expect .rightBrace
  return .node .switchStatement (keyword :: subject ++ [opener] ++ clauses ++ [closer])

def tryStatement (rules : Rules) : Rule Tree := do
  let keyword ← expect .kwTry
  let body ← rules.statement
  let catchWord ← expect .kwCatch
  let opener ← expect .leftParen
  let name ← expectOr .identifier .expectedCatchVariable
  let closer ← expect .rightParen
  let handler ← rules.statement
  return .node .tryStatement [keyword, body, catchWord, opener, name, closer, handler]

def pathRound : Rule (Option (List Tree)) := do
  if ← seesAny [.doubleColon, .dot] then
    let separator ← take
    return some [separator, ← expectOr .identifier .expectedFunctionName]
  else return none

def functionName : Rule Tree := do
  let root ← optional .doubleColon
  let name ← expectOr .identifier .expectedFunctionName
  let path ← many pathRound
  return .node .functionName (root ++ [name] ++ path)

/-- A semicolon on the line of the closing brace belongs to the function. -/
def functionDeclaration (rules : Rules) : Rule Tree := do
  let scope ← optional .kwLocal
  let keyword ← expect .kwFunction
  let name ← functionName
  let list ← parameters rules
  let body ← block rules
  let ending ← if (← sees .semicolon) && !(← onNewLine) then pure [← take] else pure []
  return .node .functionDeclaration (scope ++ [keyword, name, list, body] ++ ending)

/-- The value has to start on the line of the keyword. -/
def returnStatement (rules : Rules) : Rule Tree := do
  let keyword ← expect .kwReturn
  let value ←
    if (← seesAny [.semicolon, .rightBrace, .endOfInput]) || (← onNewLine) then pure []
    else pure [← rules.expression]
  return .node .returnStatement (keyword :: value ++ (← endStatement))

def jumpStatement (label : Label) : Rule Tree := do
  let keyword ← take
  return .node label (keyword :: (← endStatement))

def throwStatement (rules : Rules) : Rule Tree := do
  let keyword ← take
  let value ← rules.expression
  return .node .throwStatement ([keyword, value] ++ (← endStatement))

def expressionStatement (rules : Rules) : Rule Tree := do
  let value ← rules.expression
  return .node .expressionStatement (value :: (← endStatement))

/-- The rule for a statement whose first token is of kind `first`, with `following` after it. -/
def statementFrom (rules : Rules) (first : Kind) (following : Option Kind) : Rule Tree :=
  match first with
  | .leftBrace => block rules
  | .semicolon => return .node .emptyStatement [← take]
  | .kwIf => ifStatement rules
  | .kwWhile => whileStatement rules
  | .kwDo => doWhileStatement rules
  | .kwFor => forStatement rules
  | .kwForeach => foreachStatement rules
  | .kwSwitch => switchStatement rules
  | .kwTry => tryStatement rules
  | .kwLocal =>
    if following = some .kwFunction then functionDeclaration rules else localDeclaration rules
  | .kwConst => constDeclaration rules
  | .kwFunction =>
    if following = some .leftParen then expressionStatement rules else functionDeclaration rules
  | .kwReturn => returnStatement rules
  | .kwBreak => jumpStatement .breakStatement
  | .kwContinue => jumpStatement .continueStatement
  | .kwThrow => throwStatement rules
  | _ => expressionStatement rules

def statement (rules : Rules) : Rule Tree := do
  let following := (← next? 1).map (·.kind)
  statementFrom rules (← current).kind following

end Squirrel.Grammar
