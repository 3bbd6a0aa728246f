import Squirrel.Proofs.Tree.Composed

/-! Commas stand only in lists. -/

namespace Squirrel

def Label.isListing : Label → Bool
  | .localDeclaration | .foreachVariables | .arguments | .parameters | .array | .table
  | .error => true
  | _ => false

namespace Tree

def unparted (trees : List Tree) : List Tree := trees.filter (!·.isToken .comma)

def isUnparted (trees : List Tree) : Bool := trees.all (!·.isToken .comma)

def partsLists (label : Label) (children : List Tree) : Bool := label.isListing || isUnparted children

@[simp] theorem isUnparted_nil : isUnparted [] := rfl

@[simp] theorem isUnparted_cons (tree : Tree) (trees : List Tree) :
    isUnparted (tree :: trees) = (!tree.isToken .comma && isUnparted trees) := by simp [isUnparted]

@[simp] theorem isComma_leaf (token : Token) :
    (leaf token).isToken .comma = decide (token.kind = .comma) := rfl

@[simp] theorem isComma_node (label : Label) (children : List Tree) :
    (node label children).isToken .comma = false := rfl

@[simp] theorem isUnparted_append (first second : List Tree) :
    isUnparted (first ++ second) = (isUnparted first && isUnparted second) := List.all_append

end Tree

namespace Grammar

open Squirrel.Tree (everywhereOf isUnparted partsLists)

def Category.isParted : Category → Bool
  | .deeper category => category.isParted
  | .separated _ | .parameterList | .items | .entries => true
  | _ => false

variable {levels : Nat} {category : Category} {trees : List Tree} {tree : Tree} {next : Token}

theorem kind_ne_comma {kind : Kind} (check : Kind → Bool) (passes : check kind)
    (fails : check .comma = false) : kind ≠ .comma := by
  rintro rfl
  rw [fails] at passes
  cases passes

theorem Derives.parted (derived : Derives levels category trees next) :
    everywhereOf partsLists trees ∧ (category.isParted = false → isUnparted trees) := by
  induction derived with
  | literal isLiteral =>
    have noComma := kind_ne_comma Kind.isLiteral isLiteral rfl
    simp [partsLists, noComma]
  | @call _ _ operand list _ _ calledIh givenIh =>
    rcases label_makeCall operand list with same | same <;> rw [same] <;>
      simp_all [Category.isParted, partsLists]
  | postUpdate _ isUpdate _ ih =>
    have noComma : _ ≠ Kind.comma := kind_ne_comma (fun kind => kind = .increment || kind = .decrement)
      (by simpa using isUpdate) rfl
    simp_all [Category.isParted, partsLists]
  | unaryOperator isOperator _ ih =>
    have noComma := kind_ne_comma Kind.isUnary isOperator rfl
    simp_all [Category.isParted, partsLists]
  | @infixOperator _ _ _ _ _ _ operator _ binds _ _ startIh appliedIh =>
    have noComma := kind_ne_comma (·.precedence?.isSome) (by rw [binds]; rfl) rfl
    rcases label_operator operator.kind with same | same <;> rw [same] <;>
      simp_all [Category.isParted, partsLists]
  | @assignment _ _ _ _ operator _ isOperator _ assignedIh givenIh =>
    have noComma := kind_ne_comma Kind.isAssignment isOperator rfl
    rcases label_assignment operator.kind with same | same <;> rw [same] <;>
      simp_all [Category.isParted, partsLists]
  | skippedEntry | skippedUnit => simp [errorNode, partsLists, Label.isListing]
  | foreachStatement _ _ named _ _ _ _ iteratedIh governedIh =>
    rcases named with ⟨_, _, rfl⟩ | ⟨_, _, _, _, _, _, rfl⟩ <;>
      simp_all [Category.isParted, partsLists, Label.isListing]
  | pathStep separates _ _ ih =>
    have noComma := kind_ne_comma _ separates rfl
    simp_all [Category.isParted]
  | functionDeclaration placed _ _ _ _ ends namedIh headIh insideIh =>
    rcases placed with rfl | ⟨word, isLocal, rfl⟩ <;>
      rcases ends with ⟨rfl, -⟩ | ⟨semicolon, closes, rfl⟩ <;>
        simp_all [Category.isParted, partsLists, closesFunction]
  | _ => simp_all [Category.isParted, partsLists, Label.isListing]

end Grammar

theorem parted_parse [NestingLimit] (source : String) :
    (parse source).tree.everywhere Tree.partsLists := by
  obtain ⟨trees, last, tree, isProgram⟩ := parse_isProgram source
  obtain ⟨below, unparted⟩ := isProgram.derived.parted
  have ends : last.kind = .endOfInput := (closed_tokenize source).last isProgram.split
  rw [tree]
  simp [Tree.partsLists, below, unparted rfl, ends]

end Squirrel
