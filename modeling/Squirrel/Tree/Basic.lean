import Squirrel.Token.Basic
import Squirrel.Tree.Label

/-! Concrete trees: the leaves are the tokens of the text, punctuation included. -/

namespace Squirrel

inductive Tree where
  | leaf (token : Token)
  | node (label : Label) (children : List Tree)
  deriving Repr, Inhabited

namespace Tree

def isLeaf : Tree → Bool
  | .leaf _ => true
  | .node _ _ => false

def isNode (tree : Tree) : Bool := !tree.isLeaf

def label? : Tree → Option Label
  | .leaf _ => none
  | .node label _ => some label

def hasLabel (tree : Tree) (label : Label) : Bool := tree.label? = some label

def token? : Tree → Option Token
  | .leaf token => some token
  | .node _ _ => none

def children : Tree → List Tree
  | .leaf _ => []
  | .node _ children => children

def isToken (tree : Tree) (kind : Kind) : Bool := tree.token?.any (·.kind = kind)

def subtrees (tree : Tree) : List Tree := tree.children.filter (·.isNode)

mutual

def tokens : Tree → List Token
  | .leaf token => [token]
  | .node _ children => tokensOf children

def tokensOf : List Tree → List Token
  | [] => []
  | tree :: trees => tree.tokens ++ tokensOf trees

end

mutual

def firstToken? : Tree → Option Token
  | .leaf token => some token
  | .node _ children => firstTokenOf? children

def firstTokenOf? : List Tree → Option Token
  | [] => none
  | tree :: trees => tree.firstToken?.or (firstTokenOf? trees)

end

mutual

def lastToken? : Tree → Option Token
  | .leaf token => some token
  | .node _ children => lastTokenOf? children

def lastTokenOf? : List Tree → Option Token
  | [] => none
  | tree :: trees => (lastTokenOf? trees).or tree.lastToken?

end

def isEmpty (tree : Tree) : Bool := tree.firstToken?.isNone

/-- The text that the tokens cover, without the trivia around it. -/
def range (tree : Tree) : Nat × Nat :=
  match tree.firstToken?, tree.lastToken? with
  | some first, some last => (first.span.start, last.span.stop)
  | _, _ => (0, 0)

def span (tree : Tree) : Span :=
  match tree.firstToken? with
  | some first => ⟨tree.range.1, tree.range.2, first.span.line, first.span.column⟩
  | none => ⟨tree.range.1, tree.range.2, 1, 1⟩

/-- The text of a tree, cut from the source it was read from. -/
def sourceText (tree : Tree) (source : List Char) : List Char :=
  slice source tree.range.1 tree.range.2

/-- Whether a child of a `parent` node stands on its own: it is laid out and recovered apart from
its surroundings. These are statements of a list, clauses of a switch and entries of a table. -/
def isUnitOf (parent : Label) : Tree → Bool
  | .leaf _ => false
  | .node label _ =>
    match parent with
    | .program | .block | .caseBody | .table => true
    | .switchStatement => label = .caseClause || label = .defaultClause
    | _ => false

def units : Tree → List Tree
  | .leaf _ => []
  | .node label children => children.filter (isUnitOf label)

mutual

/-- Whether there is an error node outside the units inside the tree. -/
def hasLocalError : Tree → Bool
  | .leaf _ => false
  | .node label children => label = .error || anyLocalError label children

def anyLocalError (parent : Label) : List Tree → Bool
  | [] => false
  | tree :: trees => (!isUnitOf parent tree && tree.hasLocalError) || anyLocalError parent trees

end

/-- The name that an identifier or a reference to a name stands for. -/
def identifier? : Tree → Option String
  | .leaf token => if token.kind = .identifier then some token.text else none
  | .node .reference (.leaf token :: _) => some token.text
  | .node _ _ => none

mutual

def nodes : Tree → List Tree
  | .leaf _ => []
  | .node label children => .node label children :: nodesOf children

def nodesOf : List Tree → List Tree
  | [] => []
  | tree :: trees => tree.nodes ++ nodesOf trees

end

def indentation (level : Nat) : String := String.join (List.replicate level "  ")

mutual

/-- One line for each node and token, two spaces deeper at each level; a token that is an only
child stands behind the label. -/
def outlineLines (level : Nat) : Tree → List String
  | .leaf token => [indentation level ++ token.text]
  | .node label [.leaf token] => [indentation level ++ label.name ++ "\t" ++ token.text]
  | .node label children => (indentation level ++ label.name) :: outlineLinesOf (level + 1) children

def outlineLinesOf (level : Nat) : List Tree → List String
  | [] => []
  | tree :: trees => outlineLines level tree ++ outlineLinesOf level trees

end

def outline (tree : Tree) : String := String.join ((outlineLines 0 tree).map (· ++ "\n"))

end Tree

end Squirrel
