import Squirrel.Layout.Arrange
import Squirrel.Tree.Shape

/-! From trees to documents. -/

namespace Squirrel.Layout

/-- Whether the comments before the first token of a tree, and those after its last one, have a
place already. -/
structure Placed where
  leading : Bool
  trailing : Bool
  deriving DecidableEq, Repr

def tokenDoc (placed : Placed) (token : Token) : Doc :=
  .concat ((if placed.leading then [] else inlineComments false token.leading) ++
    [.text token.text] ++ if placed.trailing then [] else trailingComments token)

/-- The text of a malformed tree, as it stands in the source. -/
def verbatim (source : List Char) (tree : Tree) : Doc :=
  .concat [.text (String.ofList (tree.sourceText source)), .breakParent]

/-- Whether a child has its comments placed by the list that it stands in. -/
def standsAlone (parent : Label) (child : Tree) : Bool :=
  child.isUnitOf parent || (parent = .array && child.isNode)

/-- Whether the last child of a node has the comments before it placed by the brackets. -/
def endsDangling (label : Label) (children : List Tree) : Bool :=
  match label with
  | .program | .block | .switchStatement | .table | .array => true
  | .arguments | .parameters => !children.any (·.isNode)
  | _ => false

/-- The document of a unit with the comments after it, unless they have a place already. -/
def unitDoc (placed : Placed) (unit : Tree) (doc : Doc) : Doc :=
  if placed.trailing then doc
  else .concat [doc, .concat (unit.lastToken?.toList.flatMap trailingComments)]

/-- A node from its children. One that is not made of what its label asks for has no layout. -/
def nodePart (source : List Char) (label : Label) (children : List Tree) (parts : List Part) :
    Part :=
  let tree := .node label children
  if Tree.admits label children then
    match label with
    | .error => ⟨tree, verbatim source tree, none⟩
    | .logical => logical tree parts
    | _ => ⟨tree, arrange label parts, none⟩
  else ⟨tree, Doc.misfit, none⟩

mutual

def part (source : List Char) (placed : Placed) : Tree → Part
  | .leaf token => ⟨.leaf token, tokenDoc placed token, none⟩
  | .node label children =>
    nodePart source label children
      (partsOf source placed label (endsDangling label children) true children)

/-- The children of a `parent` node. `atStart` says that no token of the node stands before them. -/
def partsOf (source : List Char) (placed : Placed) (parent : Label) (dangles atStart : Bool) :
    List Tree → List Part
  | [] => []
  | tree :: trees =>
    let here : Placed := ⟨atStart && placed.leading, placed.trailing && trees.all (·.isEmpty)⟩
    let laid :=
      if standsAlone parent tree then
        let inner :=
          if tree.hasLocalError then verbatim source tree else (part source ⟨true, true⟩ tree).doc
        ⟨tree, unitDoc here tree inner, none⟩
      else if tree.isLeaf && trees.isEmpty && dangles then
        part source { here with leading := true } tree
      else part source here tree
    laid :: partsOf source placed parent dangles (atStart && tree.isEmpty) trees

end

/-- The document of a program. Malformed units are echoed from the source. -/
def document (source : List Char) (tree : Tree) : Doc := (part source ⟨false, false⟩ tree).doc

end Squirrel.Layout
