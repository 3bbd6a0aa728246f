import Squirrel.Tree.Basic

/-! The children that a node of each label is taken apart into. -/

namespace Squirrel

/-- Whether only nodes stand between the first token and the last one. -/
def enclosesNodes : List Bool → Bool
  | false :: rest => rest.getLast? = some false && rest.dropLast.all id
  | _ => false

/-- Whether a token stands first and another one last. -/
def isEnclosed : List Bool → Bool
  | false :: rest => rest.getLast? = some false
  | _ => false

/-- Nothing, or the token that ends a statement. -/
def isEnding : List Bool → Bool
  | [] | [false] => true
  | _ => false

/-- Whether the children of a statement are these, up to its ending. -/
def endsAfter (head kinds : List Bool) : Bool :=
  kinds.take head.length = head && isEnding (kinds.drop head.length)

/-- Whether a node with a label can be taken apart into children of which those that are nodes are
given, in order. -/
def Label.fits : Label → List Bool → Bool
  | .program, kinds => kinds.getLast? = some false && kinds.dropLast.all id
  | .block, kinds => enclosesNodes kinds
  | .caseBody, kinds => kinds.all id
  | .error, kinds | .foreachVariables, kinds => kinds.all (!·)
  | .emptyStatement, kinds | .reference, kinds | .literal, kinds | .thisObject, kinds
  | .baseObject, kinds => kinds = [false]
  | .breakStatement, kinds | .continueStatement, kinds => endsAfter [false] kinds
  | .throwStatement, kinds => endsAfter [false, true] kinds
  | .returnStatement, kinds => endsAfter [false] kinds || endsAfter [false, true] kinds
  | .expressionStatement, kinds => endsAfter [true] kinds
  | .constDeclaration, kinds => endsAfter [false, false, false, true] kinds
  | .doWhileStatement, kinds => endsAfter [false, true, false, false, true, false] kinds
  | .ifStatement, kinds =>
    kinds = [false, false, true, false, true] ||
      kinds = [false, false, true, false, true, false, true]
  | .whileStatement, kinds => kinds = [false, false, true, false, true]
  | .forStatement, kinds =>
    kinds = [false, false, true, false, true, false, true, false, true]
  | .forInit, kinds | .forCondition, kinds | .forStep, kinds => kinds = [] || kinds = [true]
  | .foreachStatement, kinds => kinds = [false, false, true, false, true, false, true]
  | .switchStatement, kinds =>
    kinds.take 4 = [false, false, true, false] && enclosesNodes (kinds.drop 4)
  | .caseClause, kinds => kinds = [false, true, false, true]
  | .defaultClause, kinds => kinds = [false, false, true]
  | .tryStatement, kinds => kinds = [false, true, false, false, false, false, true]
  | .localDeclaration, kinds => kinds.head? = some false
  | .declarator, kinds | .parameter, kinds => kinds = [false] || kinds = [false, false, true]
  | .functionDeclaration, kinds => kinds.count true = 3
  | .functionName, kinds => kinds.head? = some false && kinds.all (!·)
  | .assign, kinds | .newSlot, kinds | .logical, kinds | .binary, kinds =>
    kinds = [true, false, true]
  | .ternary, kinds => kinds = [true, false, true, false, true]
  | .unary, kinds => kinds = [false, true]
  | .postUpdate, kinds => kinds = [true, false]
  | .member, kinds => kinds = [true, false, false]
  | .index, kinds => kinds = [true, false, true, false]
  | .call, kinds | .inheritCall, kinds => kinds = [true, true]
  | .arguments, kinds | .parameters, kinds | .array, kinds | .table, kinds => isEnclosed kinds
  | .rootReference, kinds => kinds = [false, false]
  | .parenthesized, kinds => kinds = [false, true, false]
  | .functionLiteral, kinds | .lambdaLiteral, kinds | .hookWrapper, kinds =>
    kinds = [false, true, true]
  | .tableSlot, kinds | .tableQuoted, kinds => kinds = [false, false, true]
  | .tableComputed, kinds => kinds = [false, true, false, false, true]
  | .tableMethod, kinds => kinds = [false, false, true, true]

namespace Tree

/-- Whether the children that are nodes have one of these labels. -/
def nodesAre (labels : List Label) (children : List Tree) : Bool :=
  children.all fun child => child.isLeaf || child.label?.any labels.contains

def entryLabels : List Label := [.tableSlot, .tableQuoted, .tableComputed, .tableMethod, .error]

/-- What labels ask of the children that are taken apart in their turn: parameters, declarators,
clauses and entries are where they belong. A table that inherits stands beside its base, and a hook
has a parameter, which is a name, and a function for its body. -/
def admitsWithin : Label → List Tree → Bool
  | .localDeclaration, children => nodesAre [.declarator] children
  | .parameters, children => nodesAre [.parameter] children
  | .switchStatement, children => nodesAre [.caseClause, .defaultClause] (children.drop 4)
  | .table, children => nodesAre entryLabels children
  | .functionDeclaration, children =>
    (children.filter (·.isNode)).map (·.label?) =
      [some .functionName, some .parameters, some .block]
  | .functionLiteral, [_, list, _] | .lambdaLiteral, [_, list, _]
  | .tableMethod, [_, _, list, _] => list.hasLabel .parameters
  | .inheritCall, [_, list] =>
    match list.subtrees with
    | [_, body] => body.hasLabel .table
    | _ => false
  | .hookWrapper, [_, list, function] =>
    function.hasLabel .functionLiteral &&
      list.subtrees.head?.any fun parameter => parameter.children.head?.any (·.isLeaf)
  | _, _ => true

/-- Whether a node with this label can be taken apart into these children. -/
def admits (label : Label) (children : List Tree) : Bool :=
  label.fits (children.map (·.isNode)) && admitsWithin label children

end Tree

end Squirrel
