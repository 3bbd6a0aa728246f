import Squirrel.Proofs.Grammar.Lossless
import Squirrel.Proofs.Tree.Everywhere

/-! Every tree that is read respects the precedence and the associativity of operators. -/

namespace Squirrel

namespace Tree

/-- The rank of a choice between two values; only assignments rank lower. -/
def choiceRank : Nat := 1

/-- Infix operators rank by their precedence, above choices and below prefix operators. -/
def infixRank (precedence : Nat) : Nat := precedence + 1

def prefixRank : Nat := 12

def operandRank : Nat := 13

def precedenceOf : List Tree → Nat
  | [_, .leaf operator, _] => operator.kind.precedence?.getD 0
  | _ => 0

def rank : Tree → Nat
  | .node .assign _ | .node .newSlot _ => 0
  | .node .ternary _ => choiceRank
  | .node .binary children | .node .logical children => infixRank (precedenceOf children)
  | .node .unary _ => prefixRank
  | _ => operandRank

/-- Whether the operands of an infix operator rank as it asks: those on its left not below it, and
those on its right above it. -/
def ranksInfix : List Tree → Bool
  | [left, .leaf operator, right] => operator.kind.precedence?.any fun precedence =>
    infixRank precedence ≤ left.rank && infixRank precedence < right.rank
  | _ => false

/-- Whether the parts of a node rank as its label asks. The default of a parameter is no assignment;
a condition or the target of an assignment is no choice either; what a prefix operator stands before
is no infix operation either; and what a member, an index, arguments or an update are attached to
has no prefix operator either. -/
def ranksParts : Label → List Tree → Bool
  | .binary, children | .logical, children => ranksInfix children
  | .unary, children => children.getLast?.any (prefixRank ≤ ·.rank)
  | .member, children | .index, children | .call, children | .inheritCall, children
  | .postUpdate, children => children.head?.any (operandRank ≤ ·.rank)
  | .ternary, children | .assign, children | .newSlot, children =>
    children.head?.any (choiceRank < ·.rank)
  | .parameter, [_, _, value] => choiceRank ≤ value.rank
  | _, _ => true

end Tree

namespace Grammar

open Squirrel.Tree (rank choiceRank infixRank prefixRank operandRank ranksParts everywhereOf)

variable {levels : Nat} {category : Category} {trees : List Tree} {tree : Tree} {next : Token}

variable {precedence : Nat}

theorem precedence_bounds {kind : Kind} (binds : kind.precedence? = some precedence) :
    1 ≤ precedence ∧ precedence ≤ 10 := by
  cases kind <;> simp [Kind.precedence?] at binds <;> omega

theorem rank_operator (operator : Token) (left right : Tree)
    (binds : operator.kind.precedence? = some precedence) :
    (Tree.node (operatorLabel operator.kind) [left, .leaf operator, right]).rank =
      infixRank precedence := by
  unfold operatorLabel
  split <;> simp [rank, Tree.precedenceOf, binds]

theorem rank_makeCall (callee list : Tree) : (makeCall callee list).rank = operandRank := by
  rcases label_makeCall callee list with shape | shape <;> rw [shape] <;> rfl

theorem rank_lambda (list body : Tree) (children : List Tree) :
    (Tree.node (lambdaLabel list body) children).rank = operandRank := by
  unfold lambdaLabel
  split <;> rfl

def Category.leastRank : Category → Nat
  | .deeper category => category.leastRank
  | .ternary => choiceRank
  | .binary least | .infixes least => min (infixRank least) prefixRank
  | .unary => prefixRank
  | .operand | .suffixes | .primary => operandRank
  | _ => 0

theorem Derives.leastRank_le (derived : Derives levels category trees next) :
    ∀ tree ∈ trees, category.leastRank ≤ tree.rank := by
  induction derived with
  | deeper _ ih => exact ih
  | lambda => simp [rank_lambda, Category.leastRank]
  | call => simp [rank_makeCall, Category.leastRank]
  | infixOperator _ binds tight _ _ _ =>
    have bounds := precedence_bounds binds
    simp only [List.mem_singleton, forall_eq, rank_operator _ _ _ binds, Category.leastRank,
      infixRank, prefixRank]
    omega
  | firstOperand _ ih =>
    simp only [List.mem_singleton, forall_eq, Category.leastRank] at ih ⊢
    omega
  | noChoice _ _ ih =>
    simp only [List.mem_singleton, forall_eq, Category.leastRank, infixRank, prefixRank, choiceRank]
      at ih ⊢
    omega
  | unaryOperand _ _ ih =>
    simp only [List.mem_singleton, forall_eq, Category.leastRank, operandRank, prefixRank] at ih ⊢
    omega
  | binary _ _ ih => exact ih
  | operand _ _ ih => exact ih
  | plainOperand _ ih => exact ih
  | _ => simp [Category.leastRank, rank, errorNode]

theorem Derives.leastRank_le_one (derived : Derives levels category [tree] next) :
    category.leastRank ≤ tree.rank :=
  derived.leastRank_le tree (List.mem_singleton_self tree)

variable {operator : Token}

/-- The second operand of an operator has taken every operator that binds tighter. So an operator
that comes after both does not bind tighter than the one between them. -/
theorem Derives.rank_left {least precedence : Nat}
    (derived : Derives levels (.infixes least) [tree] operator)
    (binds : operator.kind.precedence? = some precedence) : infixRank precedence ≤ tree.rank := by
  have bounds := precedence_bounds binds
  cases derived with
  | firstOperand start =>
    have high := start.leastRank_le_one
    simp only [Category.leastRank, prefixRank, infixRank] at high ⊢
    omega
  | infixOperator _ earlier _ applied =>
    cases applied with
    | deeper inner =>
      cases inner with
      | binary _ ends =>
        simp only [extendsInfix, binds, Option.any_some, decide_eq_false_iff_not] at ends
        rw [rank_operator _ _ _ earlier]
        simp only [infixRank]
        omega

theorem Derives.rank_right
    (derived : Derives levels (.deeper (.binary (precedence + 1))) [tree] next)
    (binds : operator.kind.precedence? = some precedence) : infixRank precedence < tree.rank := by
  have bounds := precedence_bounds binds
  have high := derived.leastRank_le_one
  simp only [Category.leastRank, prefixRank, infixRank] at high ⊢
  omega

theorem Derives.expression_ends (derived : Derives levels category trees next)
    (whole : category = .expression ∨ category = .deeper .expression) :
    next.kind.isAssignment = false := by
  induction derived with
  | deeper _ ih => exact ih (.inl (by simpa using whole))
  | noAssignment _ ends => exact ends
  | assignment _ _ _ _ givenIh => exact givenIh (.inr rfl)
  | _ => simp at whole

theorem Derives.rank_condition (derived : Derives levels (.binary 1) [tree] next) :
    choiceRank < tree.rank := by
  have high := derived.leastRank_le_one
  simp only [Category.leastRank, prefixRank, infixRank, choiceRank] at high ⊢
  omega

theorem Derives.rank_target (derived : Derives levels .ternary [tree] operator)
    (isOperator : operator.kind.isAssignment) : choiceRank < tree.rank := by
  cases derived with
  | noChoice condition => exact condition.rank_condition
  | choice _ _ _ _ other =>
    rw [other.expression_ends (.inr rfl)] at isOperator
    cases isOperator

theorem ranksParts_lambda (list body : Tree) (children : List Tree) :
    ranksParts (lambdaLabel list body) children := by
  unfold lambdaLabel
  split <;> rfl

theorem ranksParts_operator {left right : Tree}
    (binds : operator.kind.precedence? = some precedence)
    (leftRank : infixRank precedence ≤ left.rank) (rightRank : infixRank precedence < right.rank) :
    ranksParts (operatorLabel operator.kind) [left, .leaf operator, right] := by
  have ranked : Tree.ranksInfix [left, .leaf operator, right] := by
    simp [Tree.ranksInfix, binds, leftRank, rightRank]
  unfold operatorLabel
  split
  · exact ranked
  · exact ranked

theorem ranksParts_assignment {operator : Kind} {target : Tree} {others : List Tree}
    (targetRank : choiceRank < target.rank) :
    ranksParts (assignmentLabel operator) (target :: others) := by
  have ranked : (List.head? (target :: others)).any (choiceRank < ·.rank) := by
    simp [targetRank]
  unfold assignmentLabel
  split
  · exact ranked
  · exact ranked

theorem everywhere_makeCall {callee list : Tree} (called : callee.everywhere ranksParts)
    (given : list.everywhere ranksParts) (calleeRank : operandRank ≤ callee.rank) :
    (makeCall callee list).everywhere ranksParts := by
  rcases label_makeCall callee list with shape | shape <;>
    simp [shape, ranksParts, called, given, calleeRank]

theorem everywhere_loopNames {names : List Tree} (named : LoopNames names) :
    everywhereOf ranksParts names := by
  rcases named with ⟨_, _, rfl⟩ | ⟨_, _, _, _, _, _, rfl⟩ <;> simp

theorem Derives.ranked (derived : Derives levels category trees next) :
    everywhereOf ranksParts trees := by
  induction derived with
  | lambda _ _ _ _ headIh insideIh => simp_all [ranksParts_lambda]
  | member object _ _ ih =>
    have base := object.leastRank_le_one
    simp_all [ranksParts, Category.leastRank]
  | index object _ _ _ _ objectIh keyIh =>
    have base := object.leastRank_le_one
    simp_all [ranksParts, Category.leastRank]
  | postUpdate object _ _ ih =>
    have base := object.leastRank_le_one
    simp_all [ranksParts, Category.leastRank]
  | call called _ calledIh givenIh =>
    have base := called.leastRank_le_one
    simpa using everywhere_makeCall (by simpa using calledIh) (by simpa using givenIh) base
  | unaryOperator _ applied ih =>
    have operand := applied.leastRank_le_one
    simp_all [ranksParts, Category.leastRank]
  | infixOperator start binds _ applied startIh appliedIh =>
    simp_all [ranksParts_operator binds (start.rank_left binds) (applied.rank_right binds)]
  | choice tested _ _ _ _ testedIh eitherIh otherIh =>
    have condition := tested.rank_condition
    simp_all [ranksParts]
  | assignment assigned isOperator _ assignedIh givenIh =>
    simp_all [ranksParts_assignment (assigned.rank_target isOperator)]
  | parameterDefault _ _ given ih =>
    have default := given.leastRank_le_one
    simp_all [ranksParts, Category.leastRank]
  | foreachStatement _ _ named _ _ _ _ iteratedIh governedIh =>
    simp_all [ranksParts, everywhere_loopNames named]
  | skippedEntry | skippedUnit => simp [errorNode, ranksParts]
  | _ => simp_all [ranksParts]

end Grammar

/-- In every tree that is read from a text, malformed or not, operators are nested by their
precedence, and those of one precedence to the left. -/
theorem parse_ranked [NestingLimit] (source : String) :
    (parse source).tree.everywhere Tree.ranksParts = true := by
  obtain ⟨trees, last, shape, isProgram⟩ := parse_isProgram source
  rw [shape]
  simp [Tree.ranksParts, isProgram.derived.ranked]

end Squirrel
