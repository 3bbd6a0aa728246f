import Squirrel.Layout.Comments

/-! How the parts of a node are put together. -/

namespace Squirrel.Layout

open Doc (hardLine plainLine softLine space groupOf indentOf misfit)

/-- Operands that are joined by one operator: the first of them, then the others, each with the
operator before it. -/
structure Chain where
  operator : Kind
  head : Doc
  tail : List Doc

/-- A tree with the document made for it. -/
structure Part where
  tree : Tree
  doc : Doc
  chain? : Option Chain

namespace Part

def isNode (part : Part) : Bool := part.tree.isNode

def hasLabel (part : Part) (label : Label) : Bool := part.tree.hasLabel label

def isToken (part : Part) (kind : Kind) : Bool := part.tree.isToken kind

end Part

def docs (parts : List Part) : List Doc := parts.map (·.doc)

def inOrder (parts : List Part) : Doc := .concat (docs parts)

/-- The first part, those in between, and the last one. -/
def bracketed? : List Part → Option (Part × List Part × Part)
  | first :: second :: rest =>
    some (first, (second :: rest).dropLast, (second :: rest).getLast (by simp))
  | _ => none

def dangling (afterUnits : Bool) (closer : Part) : List Doc :=
  match closer.tree with
  | .leaf token => danglingComments afterUnits token
  | .node _ _ => [misfit]

def unitLines (seen : Bool) : List Part → List Doc
  | [] => []
  | unit :: units =>
    (if seen then [hardLine] else []) ++ unitComments seen unit.tree ++ [unit.doc] ++
      unitLines true units

/-- Brackets around an indented run of lines. -/
def enclosed (opener : Part) (inner : List Doc) (closer : Part) : Doc :=
  .concat [opener.doc, indentOf (hardLine :: inner), hardLine, closer.doc]

def hollow (opener : Part) (comments : List Doc) (closer : Part) : Doc :=
  if comments.isEmpty then .concat [opener.doc, closer.doc] else enclosed opener comments closer

def program (parts : List Part) : Doc :=
  match parts.getLast? with
  | some closer =>
    let units := parts.dropLast
    .concat (unitLines false units ++ dangling (!units.isEmpty) closer)
  | none => misfit

def block (parts : List Part) : Doc :=
  match bracketed? parts with
  | some (opener, units, closer) =>
    let comments := dangling (!units.isEmpty) closer
    if units.isEmpty then hollow opener comments closer
    else enclosed opener (unitLines false units ++ comments) closer
  | none => misfit

/-- The statement that a control statement governs: a block stays on its line. -/
def body (statement : Part) : Doc :=
  if statement.hasLabel .block then .concat [space, statement.doc]
  else if statement.hasLabel .emptyStatement then statement.doc
  else indentOf [hardLine, statement.doc]

/-- What separates a body from the keyword that goes on with its statement. -/
def gapAfterBody (statement : Part) : Doc :=
  if statement.hasLabel .block ∧
      ¬ statement.tree.lastToken?.any (·.trailing.any (·.kind = .lineComment)) then space
  else hardLine

/-- What stands after the condition: a chain of conditions stays at one level. -/
def alternative (statement : Part) : Doc :=
  if statement.hasLabel .ifStatement then .concat [space, statement.doc] else body statement

def ifStatement : List Part → Doc
  | [keyword, opener, condition, closer, first] =>
    .concat [keyword.doc, space, opener.doc, condition.doc, closer.doc, body first]
  | [keyword, opener, condition, closer, first, otherwise, second] =>
    .concat [keyword.doc, space, opener.doc, condition.doc, closer.doc, body first,
      gapAfterBody first, otherwise.doc, alternative second]
  | _ => misfit

def whileStatement : List Part → Doc
  | [keyword, opener, condition, closer, statement] =>
    .concat [keyword.doc, space, opener.doc, condition.doc, closer.doc, body statement]
  | _ => misfit

def doWhileStatement : List Part → Doc
  | keyword :: statement :: whileWord :: opener :: condition :: closer :: ending =>
    .concat ([keyword.doc, body statement, gapAfterBody statement, whileWord.doc, space, opener.doc,
      condition.doc, closer.doc] ++ docs ending)
  | _ => misfit

/-- A clause of a loop head, with a space before it if it is not empty. -/
def headClause (clause : Part) : List Doc :=
  if clause.tree.children.isEmpty then [clause.doc] else [space, clause.doc]

def forStatement : List Part → Doc
  | [keyword, opener, init, first, condition, second, step, closer, statement] =>
    .concat ([keyword.doc, space, opener.doc, init.doc, first.doc] ++ headClause condition ++
      [second.doc] ++ headClause step ++ [closer.doc, body statement])
  | _ => misfit

def foreachStatement : List Part → Doc
  | [keyword, opener, names, inWord, container, closer, statement] =>
    .concat [keyword.doc, space, opener.doc, names.doc, space, inWord.doc, space, container.doc,
      closer.doc, body statement]
  | _ => misfit

/-- Parts in a row, with a space after each one of the given kinds. -/
def spacedAfter (kinds : List Kind) (parts : List Part) : Doc :=
  .concat (parts.flatMap fun part =>
    if kinds.any part.isToken then [part.doc, space] else [part.doc])

/-- Clauses start at the indentation of the switch itself. -/
def switchStatement : List Part → Doc
  | keyword :: opener :: subject :: closer :: rest =>
    let head := [keyword.doc, space, opener.doc, subject.doc, closer.doc, space]
    match bracketed? rest with
    | some (brace, clauses, unbrace) =>
      let comments := dangling (!clauses.isEmpty) unbrace
      if clauses.isEmpty then .concat (head ++ [hollow brace comments unbrace])
      else
        .concat (head ++ [brace.doc, hardLine] ++ unitLines false clauses ++ comments ++
          [hardLine, unbrace.doc])
    | none => misfit
  | _ => misfit

def caseClause : List Part → Doc
  | [keyword, value, colon, statements] =>
    .concat [keyword.doc, space, value.doc, colon.doc, statements.doc]
  | _ => misfit

def caseBody (parts : List Part) : Doc :=
  if parts.isEmpty then .nothing else indentOf (hardLine :: unitLines false parts)

def tryStatement : List Part → Doc
  | [keyword, statement, catchWord, opener, name, closer, handler] =>
    .concat [keyword.doc, body statement, gapAfterBody statement, catchWord.doc, space, opener.doc,
      name.doc, closer.doc, body handler]
  | _ => misfit

def returnStatement (parts : List Part) : Doc :=
  .concat (parts.flatMap fun part => if part.isNode then [space, part.doc] else [part.doc])

def throwStatement : List Part → Doc
  | keyword :: rest => .concat (keyword.doc :: space :: docs rest)
  | [] => misfit

def functionDeclaration (parts : List Part) : Doc :=
  .concat (parts.flatMap fun part =>
    if part.hasLabel .block then [space, part.doc]
    else if part.isToken .kwLocal || part.isToken .kwFunction then [part.doc, space]
    else [part.doc])

def binding : List Part → Doc
  | [name] => .concat [name.doc]
  | [name, assign, value] => .concat [name.doc, space, assign.doc, space, value.doc]
  | _ => misfit

def constDeclaration : List Part → Doc
  | keyword :: name :: assign :: value :: ending =>
    .concat ([keyword.doc, space, name.doc, space, assign.doc, space, value.doc] ++ docs ending)
  | _ => misfit

/-- A chain goes on as long as the operator stays the same. -/
def chainOf (left operator right : Part) : Option Chain := do
  let token ← operator.tree.token?
  let link := .concat [plainLine, operator.doc, space, right.doc]
  match left.chain? with
  | some chain =>
    if chain.operator = token.kind then some { chain with tail := chain.tail ++ [link] }
    else some ⟨token.kind, left.doc, [link]⟩
  | none => some ⟨token.kind, left.doc, [link]⟩

/-- A broken chain has the operator first on each further line. -/
def Chain.doc (chain : Chain) : Doc := groupOf [chain.head, indentOf chain.tail]

def logical (tree : Tree) (parts : List Part) : Part :=
  match parts with
  | [left, operator, right] =>
    match chainOf left operator right with
    | some chain => ⟨tree, chain.doc, some chain⟩
    | none => ⟨tree, misfit, none⟩
  | _ => ⟨tree, misfit, none⟩

def ternary : List Part → Doc
  | [condition, question, first, colon, second] =>
    groupOf [condition.doc, indentOf [plainLine, question.doc, space, first.doc, plainLine,
      colon.doc, space, second.doc]]
  | _ => misfit

def isWordOperator : Kind → Bool
  | .kwTypeOf | .kwClone | .kwDelete | .kwResume => true
  | _ => false

/-- Whether a sign and the operand after it would read as another operator. -/
def glues (operator : Token) (operand : Tree) : Bool :=
  match operand.firstToken?.bind (·.text.toList.head?) with
  | some c => (c = '-' || c = '+') && operator.text.toList.getLast? = some c
  | none => false

def unary : List Part → Doc
  | [operator, operand] =>
    if operator.tree.token?.any fun token => isWordOperator token.kind || glues token operand.tree
    then .concat [operator.doc, space, operand.doc]
    else .concat [operator.doc, operand.doc]
  | _ => misfit

def emptyParentheses (opener closer : Part) : Doc := hollow opener (dangling false closer) closer

def withCommas : List Part → List Part → List Doc
  | [], _ => []
  | value :: values, [] => value.doc :: withCommas values []
  | value :: values, comma :: commas => .concat [value.doc, comma.doc] :: withCommas values commas

def commaGroup (opener : Part) (inner : List Part) (closer : Part) : Doc :=
  let values := inner.filter (·.isNode)
  let commas := inner.filter (!·.isNode)
  groupOf [opener.doc, indentOf (softLine :: (withCommas values commas).intersperse plainLine),
    softLine, closer.doc]

def isHuggable (part : Part) : Bool :=
  match part.tree.label? with
  | some label =>
    [Label.table, .array, .functionLiteral, .lambdaLiteral, .hookWrapper].contains label
  | none => false

def hasNoComment (part : Part) : Bool := part.tree.tokens.all (·.comments.isEmpty)

/-- Whether the brackets stay around the last argument while it breaks. -/
def canHug (opener : Part) (inner : List Part) (closer : Part) : Bool :=
  inner.getLast?.any isHuggable && !inner.dropLast.any isHuggable &&
    (opener :: closer :: inner.dropLast).all hasNoComment

def arguments (parts : List Part) : Doc :=
  match bracketed? parts with
  | some (opener, inner, closer) =>
    if inner.isEmpty then emptyParentheses opener closer
    else if canHug opener inner closer then
      .concat (opener.doc :: (inner.flatMap fun part =>
        if part.isNode then [part.doc] else [part.doc, space]) ++ [closer.doc])
    else commaGroup opener inner closer
  | none => misfit

def parameters (parts : List Part) : Doc :=
  match bracketed? parts with
  | some (opener, inner, closer) =>
    if inner.isEmpty then emptyParentheses opener closer else commaGroup opener inner closer
  | none => misfit

/-- Entries, each with the comma after it if there is one. -/
def entries : List Part → List (Part × Option Part)
  | [] => []
  | [entry] => if entry.isNode then [(entry, none)] else []
  | entry :: next :: rest =>
    if entry.isNode then
      if next.isNode then (entry, none) :: entries (next :: rest)
      else (entry, some next) :: entries rest
    else entries (next :: rest)

/-- What follows an entry. A comma after the last one stays only if the list is broken, and a
missing comma is added if the list is flat or has others. -/
def afterEntry (comma? : Option Part) (isLast anyComma : Bool) : List Doc :=
  match comma?, isLast with
  | some comma, true => [.ifBreak comma.doc (.text "")]
  | none, true => []
  | some comma, false => [comma.doc]
  | none, false => [if anyComma then .text "," else .ifBreak (.text "") (.text ",")]

def entryLines (anyComma seen : Bool) : List (Part × Option Part) → List Doc
  | [] => []
  | (entry, comma?) :: rest =>
    (if seen then [plainLine] else []) ++ unitComments seen entry.tree ++ [entry.doc] ++
      afterEntry comma? rest.isEmpty anyComma ++ entryLines anyComma true rest

/-- Entries between brackets, where commas are optional; `pad` separates them from the brackets. -/
def sequence (pad : Doc) (parts : List Part) : Doc :=
  match bracketed? parts with
  | some (opener, inner, closer) =>
    let pairs := entries inner
    let comments := dangling (!pairs.isEmpty) closer
    if pairs.isEmpty then hollow opener comments closer
    else
      groupOf [opener.doc,
        indentOf (pad :: entryLines (pairs.any (·.2.isSome)) false pairs ++ comments), pad,
        closer.doc]
  | none => misfit

def functionLiteral : List Part → Doc
  | [keyword, list, statements] => .concat [keyword.doc, list.doc, space, statements.doc]
  | _ => misfit

def tableComputed : List Part → Doc
  | [opener, key, closer, assign, value] =>
    .concat [opener.doc, key.doc, closer.doc, space, assign.doc, space, value.doc]
  | _ => misfit

def tableQuoted : List Part → Doc
  | [key, colon, value] => .concat [key.doc, colon.doc, space, value.doc]
  | _ => misfit

def tableMethod : List Part → Doc
  | [keyword, name, list, statements] =>
    .concat [keyword.doc, space, name.doc, list.doc, space, statements.doc]
  | _ => misfit

/-- The document of a node, from those of its children. -/
def arrange : Label → List Part → Doc
  | .program => program
  | .block => block
  | .localDeclaration => spacedAfter [.kwLocal, .comma]
  | .declarator | .parameter | .binary | .assign | .newSlot | .tableSlot => binding
  | .constDeclaration => constDeclaration
  | .ifStatement => ifStatement
  | .whileStatement => whileStatement
  | .doWhileStatement => doWhileStatement
  | .forStatement => forStatement
  | .foreachStatement => foreachStatement
  | .foreachVariables => spacedAfter [.comma]
  | .switchStatement => switchStatement
  | .caseClause => caseClause
  | .caseBody => caseBody
  | .tryStatement => tryStatement
  | .returnStatement => returnStatement
  | .throwStatement => throwStatement
  | .functionDeclaration => functionDeclaration
  | .ternary => ternary
  | .unary => unary
  | .arguments => arguments
  | .parameters => parameters
  | .functionLiteral | .lambdaLiteral | .hookWrapper => functionLiteral
  | .table => sequence plainLine
  | .array => sequence softLine
  | .tableComputed => tableComputed
  | .tableQuoted => tableQuoted
  | .tableMethod => tableMethod
  | _ => inOrder

end Squirrel.Layout
