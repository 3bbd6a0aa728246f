import Squirrel.Layout.Basic

/-! What laying out a tree comes across: malformed units, and nesting beyond a limit. -/

namespace Squirrel.Layout

/-- The labels of the units that are echoed, up to where the nesting gets too deep. -/
structure Survey where
  echoed : List Label
  complete : Bool
  deriving DecidableEq, Repr

namespace Survey

def done : Survey := ⟨[], true⟩

def cut : Survey := ⟨[], false⟩

def andThen (first second : Survey) : Survey :=
  if first.complete then ⟨first.echoed ++ second.echoed, second.complete⟩ else first

def all (surveys : List Survey) : Survey := surveys.foldr andThen done

end Survey

/-- Searches children for an error node, units left out; `none` if the search goes too deep. -/
def errorAmong? (search : Tree → Option Bool) (parent : Label) : List Tree → Option Bool
  | [] => some false
  | tree :: trees =>
    if tree.isLeaf || tree.isUnitOf parent then errorAmong? search parent trees
    else match search tree with
      | some false => errorAmong? search parent trees
      | answer => answer

/-- Whether a unit has an error node of its own, looked for within a number of levels. -/
def localError? : Nat → Tree → Option Bool
  | _, .leaf _ => some false
  | 0, .node _ _ => none
  | levels + 1, .node label children =>
    if label = .error then some true else errorAmong? (localError? levels) label children

/-- The first operand of a chain with this operator, and the other ones. -/
def operands (operator : Kind) : Tree → Tree × List Tree
  | .node .logical [left, .leaf token, right] =>
    if token.kind = operator then
      let (head, others) := operands operator left
      (head, others ++ [right])
    else (.node .logical [left, .leaf token, right], [])
  | tree => (tree, [])

/-- The children of a node in the order in which they are laid out: a chain ends with its first
operand. -/
def layoutOrder : Tree → List Tree
  | .node .logical [left, .leaf token, right] =>
    let (head, others) := operands token.kind left
    others ++ [right, head]
  | tree => tree.children

def surveyChild (visit : Tree → Survey) (search : Tree → Option Bool) (parent : Label)
    (child : Tree) : Survey :=
  if standsAlone parent child then
    match search child with
    | none => .cut
    | some true => ⟨child.label?.toList, true⟩
    | some false => visit child
  else visit child

def survey : Nat → Tree → Survey
  | _, .leaf _ => .done
  | 0, .node _ _ => .cut
  | levels + 1, .node label children =>
    .all ((layoutOrder (.node label children)).map
      (surveyChild (survey levels) (localError? levels) label))

end Squirrel.Layout
