import Squirrel.Analysis.Basic

/-! The walk over a tree. An expression gives the scope of the table that it stands for, if any. -/

namespace Squirrel.Analysis

/-- A table that holds state of its own: its members are not names. -/
def stateTable : String := "m"

abbrev Visitor : Type := Tree → Walk (Option ScopeId)

def walkAll (walk : Visitor) : List Tree → Walk Unit
  | [] => return ()
  | tree :: trees => do
    let _ ← walk tree
    walkAll walk trees

def walkOne (walk : Visitor) (tree : Tree) : Walk Unit := do
  let _ ← walk tree

/-- The statements of a block, or a single statement or expression. -/
def walkBody (walk : Visitor) : Tree → Walk Unit
  | .node .block children => walkAll walk children
  | tree => walkOne walk tree

/-- A statement in a block scope of its own. -/
def nested (walk : Visitor) (statement : Tree) : Walk Unit :=
  inScope .block fun _ => walkBody walk statement

def walkParameter (walk : Visitor) (parameter : Tree) : Walk Unit := do
  match parameter.children with
  | .leaf name :: rest =>
    if name.kind = .identifier then
      let _ ← declare name .parameter
    match rest with
    | [_, value] => walkOne walk value
    | _ => return ()
  | _ => misshapen .parameter

def walkParameters (walk : Visitor) : List Tree → Walk Unit
  | [] => return ()
  | parameter :: parameters => do
    walkParameter walk parameter
    walkParameters walk parameters

def declareHook : Option Token → Walk Unit
  | some hook => do
    let _ ← declare hook .hookParameter
  | none => return ()

/-- A function scope holds the parameters and the statements of the body, and in a hook the name
for what it replaces. -/
def function (walk : Visitor) (parameters body : Tree) (hook? : Option Token) : Walk Unit :=
  inScope .function fun _ => deferring do
    declareHook hook?
    walkParameters walk parameters.subtrees
    walkBody walk body

/-- The scope for a function's name: one at the top of the file belongs to the root. -/
def functionScope (isLocal : Bool) : Walk ScopeId := do
  let scope := (← get).scope
  let atTop := (← demand ((← get).graph.scope scope)).parent = some ScopeGraph.root
  return if atTop ∧ !isLocal then ScopeGraph.root else scope

def isKind (kinds : List Kind) (token? : Option Token) : Bool :=
  token?.any fun token => kinds.contains token.kind

/-- Names that a malformed statement still shows. `before` is the token in front, and `earlier`
the one in front of it. -/
def recoverNames (earlier before : Option Token) : List Token → Walk Unit
  | [] => return ()
  | token :: rest => do
    let after := rest.head?
    if token.kind = .identifier then
      if isKind [.kwLocal] before then
        recover (← get).scope token .localVariable
      else if isKind [.kwFunction] before && !isKind [.dot, .doubleColon] after then
        recover (← functionScope (isKind [.kwLocal] earlier)) token .function
      else if isKind [.newSlot] after && !isKind [.dot] before then
        recover ScopeGraph.root token .tableSlot
    recoverNames before (some token) rest

def localVariable (walk : Visitor) (declarator : Tree) : Walk Unit := do
  match declarator.children with
  | .leaf name :: rest =>
    let tableScope ← match rest with
      | [_, value] => walk value
      | _ => pure none
    let id ← declare name .localVariable
    updateDeclaration id ({ · with tableScope := tableScope })
  | _ => misshapen .declarator

def localDeclaration (walk : Visitor) : List Tree → Walk Unit
  | [] => return ()
  | declarator :: declarators => do
    localVariable walk declarator
    localDeclaration walk declarators

/-- Only a plain name declares something; a longer one extends what its first part stands for. -/
def functionName (isLocal : Bool) : Tree → Walk Unit
  | .node _ [.leaf name] => do
    let _ ← declareIn (← functionScope isLocal) name.text .function name.span
  | .node _ (.leaf first :: _) => if first.kind = .identifier then read first else return ()
  | _ => misshapen .functionName

def functionDeclaration (walk : Visitor) (children : List Tree) : Walk Unit := do
  match children.filter (·.isNode) with
  | [name, parameters, body] =>
    functionName (children.head?.any (·.isToken .kwLocal)) name
    function walk parameters body none
  | _ => misshapen .functionDeclaration

def foreachNames : List Tree → Walk Unit
  | [] => return ()
  | .leaf name :: names => do
    if name.kind = .identifier then
      let _ ← declare name .localVariable
    foreachNames names
  | _ :: names => foreachNames names

def switchClause (walk : Visitor) : Tree → Walk Unit
  | .node .caseClause [_, value, _, body] => do
    walkOne walk value
    walkAll walk body.children
  | .node .defaultClause [_, _, body] => walkAll walk body.children
  | _ => misshapen .switchStatement

def switchClauses (walk : Visitor) : List Tree → Walk Unit
  | [] => return ()
  | clause :: clauses => do
    switchClause walk clause
    switchClauses walk clauses

/-- An increment or a decrement of a plain name reads and writes it; other operators only read. -/
def update (walk : Visitor) (operator : Token) (operand : Tree) : Walk Unit :=
  match operand with
  | .node .reference [.leaf name] =>
    if operator.kind = .increment ∨ operator.kind = .decrement then refer name false true true
    else walkOne walk operand
  | _ => walkOne walk operand

/-- An assignment with another operator than the plain one reads the old value. -/
def assign (walk : Visitor) (target : Tree) (operator : Token) (value : Tree) : Walk Unit := do
  walkOne walk value
  match target with
  | .node .reference [.leaf name] => refer name false (operator.kind ≠ .assign) true
  | _ => walkOne walk target

/-- A new slot that has no table named belongs to the root. -/
def newSlot (walk : Visitor) (target value : Tree) : Walk Unit := do
  let tableScope ← walk value
  let slot (name : Token) : Walk Unit := do
    let id ← declareIn ScopeGraph.root name.text .tableSlot name.span
    updateDeclaration id ({ · with tableScope := tableScope })
  match target with
  | .node .reference [.leaf name] => slot name
  | .node .rootReference [_, .leaf name] => slot name
  | _ => walkOne walk target

def callee (walk : Visitor) (tree : Tree) : Walk Unit :=
  match tree with
  | .node .reference [.leaf name] => refer name true true false
  | _ => walkOne walk tree

def inherit (walk : Visitor) (called base body : Tree) : Walk (Option ScopeId) := do
  callee walk called
  walkOne walk base
  match ← walk body with
  | some tableScope =>
    let seq ← nextSeq
    modify fun state =>
      { state with
        inheritances := state.inheritances ++
          [⟨tableScope, base, state.scope, seq, 0 < state.functionDepth⟩] }
    return some tableScope
  | none => misshapen .inheritCall

/-- The name that an entry of a table declares; a quoted key declares what it quotes. -/
def slotName? : Tree → Option (String × Span)
  | .node .tableSlot (.leaf key :: _) => some (key.text, key.span)
  | .node .tableMethod (_ :: .leaf key :: _) => some (key.text, key.span)
  | .node .tableQuoted (.leaf key :: _) =>
    some (String.ofList (key.text.toList.drop 1).dropLast, key.span)
  | _ => none

/-- Declares the names of all entries, before any of them is walked. -/
def declareSlots (tableScope : ScopeId) : List Tree → Walk (List (Tree × Option DeclarationId))
  | [] => return []
  | entry :: entries => do
    let slot ← match slotName? entry with
      | some (name, span) => some <$> declareIn tableScope name .tableSlot span
      | none => pure none
    return (entry, slot) :: (← declareSlots tableScope entries)

def walkEntry (walk : Visitor) (entry : Tree) (slot : Option DeclarationId) : Walk Unit := do
  match entry with
  | .node .tableMethod [_, _, parameters, body] => function walk parameters body none
  | .node .tableSlot [_, _, value] | .node .tableQuoted [_, _, value] =>
    let tableScope ← walk value
    match slot with
    | some id => updateDeclaration id ({ · with tableScope := tableScope })
    | none => misshapen .table
  | .node .tableComputed [_, key, _, _, value] =>
    walkOne walk key
    walkOne walk value
  | .node .error _ => return ()
  | _ => misshapen .table

def walkEntries (walk : Visitor) : List (Tree × Option DeclarationId) → Walk Unit
  | [] => return ()
  | (entry, slot) :: entries => do
    walkEntry walk entry slot
    walkEntries walk entries

def table (walk : Visitor) (entries : List Tree) : Walk ScopeId :=
  inScope .table fun tableScope => do
    walkEntries walk (← declareSlots tableScope entries)
    return tableScope

/-- Visits a statement, or a node that gives no table. -/
def visitPlain (walk : Visitor) (label : Label) (children : List Tree) : Walk Unit := do
  match label, children with
  | .program, _ => inScope .function fun _ => walkAll walk children
  | .block, _ => inScope .block fun _ => walkAll walk children
  | .error, _ => recoverNames none none (Tree.tokensOf children)
  | .localDeclaration, _ => localDeclaration walk (children.filter (·.isNode))
  | .constDeclaration, _ :: .leaf name :: _ :: value :: _ =>
    walkOne walk value
    let _ ← declareIn ScopeGraph.root name.text .constant name.span
  | .functionDeclaration, _ => functionDeclaration walk children
  | .ifStatement, _ :: _ :: condition :: _ :: first :: rest =>
    walkOne walk condition
    nested walk first
    match rest with
    | [_, second] => nested walk second
    | _ => return ()
  | .whileStatement, [_, _, condition, _, body] =>
    walkOne walk condition
    nested walk body
  | .doWhileStatement, _ :: body :: _ :: _ :: condition :: _ =>
    nested walk body
    walkOne walk condition
  | .forStatement, [_, _, init, _, condition, _, step, _, body] =>
    inScope .block fun _ => do
      walkAll walk init.children
      walkAll walk condition.children
      walkAll walk step.children
      nested walk body
  | .foreachStatement, [_, _, names, _, container, _, body] =>
    walkOne walk container
    inScope .block fun _ => do
      foreachNames names.children
      nested walk body
  | .switchStatement, _ :: _ :: subject :: rest =>
    walkOne walk subject
    inScope .block fun _ => switchClauses walk (rest.filter (·.isNode))
  | .tryStatement, [_, body, _, _, .leaf name, _, handler] =>
    nested walk body
    inScope .block fun _ => do
      let id ← declare name .parameter
      updateDeclaration id ({ · with quiet := true })
      nested walk handler
  | .reference, .leaf name :: _ => read name
  | .unary, [.leaf operator, operand] => update walk operator operand
  | .postUpdate, [operand, .leaf operator] => update walk operator operand
  | .assign, [target, .leaf operator, value] => assign walk target operator value
  | .newSlot, [target, _, value] => newSlot walk target value
  | .member, object :: _ =>
    if object.hasLabel .reference ∧ object.identifier? = some stateTable then return ()
    else walkOne walk object
  | .call, [called, arguments] =>
    callee walk called
    walkOne walk arguments
  | .functionLiteral, [_, parameters, body] => function walk parameters body none
  | .lambdaLiteral, [_, parameters, body] => function walk parameters body none
  | .hookWrapper, [_, parameters, .node _ [_, inner, body]] =>
    match (parameters.subtrees.head?.bind (·.children.head?)).bind (·.token?) with
    | some hook => function walk inner body (some hook)
    | none => misshapen .hookWrapper
  | .literal, _ | .thisObject, _ | .baseObject, _ | .rootReference, _ | .emptyStatement, _
  | .breakStatement, _ | .continueStatement, _ => return ()
  | _, _ => walkAll walk children

/-- Visits a node that is made of what its label asks for. -/
def visitFitting (walk : Visitor) (label : Label) (children : List Tree) :
    Walk (Option ScopeId) := do
  match label, children with
  | .parenthesized, [_, inner, _] => walk inner
  | .table, _ => some <$> table walk (children.filter (·.isNode))
  | .inheritCall, [called, arguments] =>
    match arguments.subtrees with
    | [base, body] => inherit walk called base body
    | _ => misshapen .inheritCall
  | _, _ =>
    visitPlain walk label children
    return none

def visit (walk : Visitor) (label : Label) (children : List Tree) : Walk (Option ScopeId) :=
  if Tree.admits label children then visitFitting walk label children else misshapen label

/-- Walks as long as the nesting stays within a number of levels. -/
def walk : Nat → Visitor
  | _, .leaf _ => return none
  | 0, .node _ _ => throw .tooDeep
  | levels + 1, .node label children => visit (walk levels) label children

end Squirrel.Analysis
