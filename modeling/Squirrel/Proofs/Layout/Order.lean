import Squirrel.Proofs.Grammar.Soundness
import Squirrel.Proofs.Layout.Slots
import Squirrel.Proofs.Tree.Everywhere

/-! In every tree that is read from a text, commas stand where the layout looks for them. -/

namespace Squirrel

namespace Grammar

open Layout (ordered alternates listed within?_between)
open Squirrel.Tree (everywhereOf)

variable {levels : Nat} {category : Category} {trees : List Tree} {next : Token}

def Category.alternate : Category → Bool
  | .separated item => item.isNodes
  | .parameterList => true
  | _ => false

theorem Derives.alternates (derived : Derives levels category trees next)
    (alternate : category.alternate) : alternates trees := by
  induction derived with
  | lastSeparated last _ =>
    have isNode := last.isNode alternate
    simpa [Layout.alternates] using isNode
  | moreSeparated first _ _ _ ih =>
    have isNode := first.isNode alternate
    simpa [Layout.alternates, isNode, Tree.isLeaf] using ih alternate
  | noParameter => rfl
  | lastParameter last _ => simpa [Layout.alternates] using last.isNode rfl
  | moreParameters first _ _ _ ih =>
    have isNode := first.isNode rfl
    simpa [Layout.alternates, isNode, Tree.isLeaf] using ih rfl
  | _ => cases alternate

def Category.isList : Category → Bool
  | .items | .entries => true
  | _ => false

theorem listed_cons {tree : Tree} (isNode : tree.isNode)
    (others : listed trees) : listed (tree :: trees) := by
  cases trees with
  | nil => simpa [listed] using isNode
  | cons next rest =>
    have nextIsNode : next.isNode := by cases rest <;> simp_all [listed]
    simp [listed, isNode, nextIsNode, others]

theorem listed_comma {tree : Tree} (isNode : tree.isNode) (comma : Token)
    (others : listed trees) : listed (tree :: .leaf comma :: trees) := by
  have isToken : (Tree.leaf comma).isNode = false := rfl
  simp [listed, isNode, isToken, others]

theorem Derives.listed (derived : Derives levels category trees next)
    (isList : category.isList) : listed trees := by
  induction derived with
  | noItem | noEntry => rfl
  | item _ first _ _ _ ih | oneEntry _ first _ _ _ ih =>
    exact listed_cons (first.isNode rfl) (ih rfl)
  | itemComma _ first _ _ _ ih | entryComma _ first _ _ _ ih =>
    exact listed_comma (first.isNode rfl) _ (ih rfl)
  | _ => cases isList

theorem ordered_makeCall {callee list : Tree} (called : callee.everywhere ordered)
    (given : list.everywhere ordered) : (makeCall callee list).everywhere ordered := by
  unfold makeCall
  split
  · split <;> simp [ordered, called, given]
  · simp [ordered, called, given]

theorem ordered_lambda (list body : Tree) (children : List Tree) :
    ordered (lambdaLabel list body) children := by
  unfold lambdaLabel
  split <;> rfl

theorem ordered_operator (kind : Kind) (children : List Tree) :
    ordered (operatorLabel kind) children := by
  unfold operatorLabel
  split <;> rfl

theorem ordered_assignment (kind : Kind) (children : List Tree) :
    ordered (assignmentLabel kind) children := by
  unfold assignmentLabel
  split <;> rfl

theorem ordered_loopNames {names : List Tree} (named : LoopNames names) :
    everywhereOf ordered names := by
  rcases named with ⟨_, _, rfl⟩ | ⟨_, _, _, _, _, _, rfl⟩ <;> simp

theorem Derives.ordered (derived : Derives levels category trees next) :
    everywhereOf ordered trees := by
  induction derived with
  | array _ between _ ih =>
    simpa [Layout.ordered, within?_between, between.listed rfl] using ih
  | table _ between _ ih =>
    simpa [Layout.ordered, within?_between, between.listed rfl] using ih
  | noArguments => simp [Layout.ordered, Layout.within?, Layout.alternates]
  | arguments _ _ between _ ih =>
    simpa [Layout.ordered, within?_between, between.alternates rfl] using ih
  | parameters _ between _ ih =>
    simpa [Layout.ordered, within?_between, between.alternates rfl] using ih
  | lambda _ _ _ _ headIh insideIh => simp_all [ordered_lambda]
  | call _ _ calledIh givenIh =>
    simpa using ordered_makeCall (by simpa using calledIh) (by simpa using givenIh)
  | infixOperator _ _ _ _ startIh appliedIh => simp_all [ordered_operator]
  | assignment _ _ _ assignedIh givenIh => simp_all [ordered_assignment]
  | foreachStatement _ _ named _ _ _ _ iteratedIh governedIh =>
    simp_all [Layout.ordered, ordered_loopNames named]
  | skippedEntry | skippedUnit => simp [errorNode, Layout.ordered]
  | _ => simp_all [Layout.ordered]

end Grammar

end Squirrel
