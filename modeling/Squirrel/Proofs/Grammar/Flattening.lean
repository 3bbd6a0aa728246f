import Squirrel.Proofs.Grammar.Completeness
import Squirrel.Proofs.Grammar.Precedence

/-! Reading the tokens of an expression gives the expression back. -/

namespace Squirrel

namespace Tree

/-- Values, and the same with a comma between each two of them. -/
inductive Separated : List Tree → List Tree → Prop where
  | one (value : Tree) : Separated [value] [value]
  | more {values listed : List Tree} {comma : Token} (value : Tree) (isComma : comma.kind = .comma)
      (others : Separated values listed) : Separated (value :: values) (value :: .leaf comma :: listed)

def Listed (values listed : List Tree) : Prop := values = [] ∧ listed = [] ∨ Separated values listed

/-- Expressions without functions and tables, nested as precedence and associativity ask. -/
inductive IsExpression : Tree → Prop where
  | reference {name : Token} (isName : name.kind = .identifier) :
      IsExpression (.node .reference [.leaf name])
  | literal {word : Token} (isLiteral : word.kind.isLiteral) :
      IsExpression (.node .literal [.leaf word])
  | thisObject {word : Token} (isWord : word.kind = .kwThis) :
      IsExpression (.node .thisObject [.leaf word])
  | baseObject {word : Token} (isWord : word.kind = .kwBase) :
      IsExpression (.node .baseObject [.leaf word])
  | rootReference {colons name : Token} (areColons : colons.kind = .doubleColon)
      (isName : name.kind = .identifier) :
      IsExpression (.node .rootReference [.leaf colons, .leaf name])
  | parenthesized {opener closer : Token} {inner : Tree} (opens : opener.kind = .leftParen)
      (inside : IsExpression inner) (closes : closer.kind = .rightParen) :
      IsExpression (.node .parenthesized [.leaf opener, inner, .leaf closer])
  | array {opener closer : Token} {values listed : List Tree} (opens : opener.kind = .leftBracket)
      (lists : Listed values listed) (each : ∀ value ∈ values, IsExpression value)
      (closes : closer.kind = .rightBracket) :
      IsExpression (.node .array (.leaf opener :: listed ++ [.leaf closer]))
  | member {object : Tree} {dot name : Token} (inside : IsExpression object)
      (ranked : operandRank ≤ object.rank) (isDot : dot.kind = .dot)
      (isName : name.kind = .identifier) :
      IsExpression (.node .member [object, .leaf dot, .leaf name])
  | index {object key : Tree} {opener closer : Token} (inside : IsExpression object)
      (ranked : operandRank ≤ object.rank) (opens : opener.kind = .leftBracket)
      (keyed : IsExpression key) (closes : closer.kind = .rightBracket) :
      IsExpression (.node .index [object, .leaf opener, key, .leaf closer])
  | call {callee : Tree} {opener closer : Token} {values listed : List Tree}
      (inside : IsExpression callee) (ranked : operandRank ≤ callee.rank)
      (opens : opener.kind = .leftParen) (lists : Listed values listed)
      (each : ∀ value ∈ values, IsExpression value) (closes : closer.kind = .rightParen) :
      IsExpression
        (.node .call [callee, .node .arguments (.leaf opener :: listed ++ [.leaf closer])])
  | postUpdate {operand : Tree} {operator : Token} (inside : IsExpression operand)
      (ranked : operandRank ≤ operand.rank)
      (isUpdate : operator.kind = .increment ∨ operator.kind = .decrement) :
      IsExpression (.node .postUpdate [operand, .leaf operator])
  | unary {operator : Token} {operand : Tree} (isUnary : operator.kind.isUnary)
      (inside : IsExpression operand) (ranked : prefixRank ≤ operand.rank) :
      IsExpression (.node .unary [.leaf operator, operand])
  | logical {left right : Tree} {operator : Token} {precedence : Nat}
      (isLogical : operator.kind = .logicalAnd ∨ operator.kind = .logicalOr)
      (binds : operator.kind.precedence? = some precedence)
      (first : IsExpression left) (leftRanked : infixRank precedence ≤ left.rank)
      (second : IsExpression right) (rightRanked : infixRank precedence < right.rank) :
      IsExpression (.node .logical [left, .leaf operator, right])
  | binary {left right : Tree} {operator : Token} {precedence : Nat}
      (noLogical : operator.kind ≠ .logicalAnd ∧ operator.kind ≠ .logicalOr)
      (binds : operator.kind.precedence? = some precedence)
      (first : IsExpression left) (leftRanked : infixRank precedence ≤ left.rank)
      (second : IsExpression right) (rightRanked : infixRank precedence < right.rank) :
      IsExpression (.node .binary [left, .leaf operator, right])
  | ternary {condition first second : Tree} {question colon : Token}
      (tested : IsExpression condition) (ranked : choiceRank < condition.rank)
      (asks : question.kind = .question) (either : IsExpression first)
      (parts : colon.kind = .colon) (other : IsExpression second) :
      IsExpression (.node .ternary [condition, .leaf question, first, .leaf colon, second])
  | assign {target value : Tree} {operator : Token} (assigned : IsExpression target)
      (ranked : choiceRank < target.rank) (isOperator : operator.kind.isAssignment)
      (noSlot : operator.kind ≠ .newSlot) (given : IsExpression value) :
      IsExpression (.node .assign [target, .leaf operator, value])
  | newSlot {target value : Tree} {operator : Token} (assigned : IsExpression target)
      (ranked : choiceRank < target.rank) (isOperator : operator.kind = .newSlot)
      (given : IsExpression value) :
      IsExpression (.node .newSlot [target, .leaf operator, value])

mutual

/-- How many levels of nesting an expression has. What comes first is on the level of the
expression itself, so chains of operators and of members count for one. -/
def nesting : Tree → Nat
  | .leaf _ => 0
  | .node .call [callee, .node _ values] => max callee.nesting (nestingBelow values)
  | .node _ [] => 0
  | .node _ (first :: others) => max first.nesting (nestingBelow others)

/-- How many levels there are in some trees if each of them is one level deeper. -/
def nestingBelow : List Tree → Nat
  | [] => 0
  | .leaf _ :: trees => nestingBelow trees
  | tree :: trees => max (tree.nesting + 1) (nestingBelow trees)

end

theorem nesting_node {label : Label} (other : label ≠ .call) (first : Tree) (others : List Tree) :
    (node label (first :: others)).nesting = max first.nesting (nestingBelow others) := by
  rw [nesting]
  intro inner values isCall
  exact absurd isCall other

@[simp] theorem nesting_leaf (token : Token) : (leaf token).nesting = 0 := by rw [nesting]

@[simp] theorem nestingBelow_nil : nestingBelow [] = 0 := by rw [nestingBelow]

@[simp] theorem nestingBelow_leaf (token : Token) (trees : List Tree) :
    nestingBelow (.leaf token :: trees) = nestingBelow trees := by rw [nestingBelow]

theorem nestingBelow_node {tree : Tree} (isNode : tree.isNode) (trees : List Tree) :
    nestingBelow (tree :: trees) = max (tree.nesting + 1) (nestingBelow trees) := by
  cases tree with
  | leaf token => cases isNode
  | node label children => rw [nestingBelow]; simp

theorem IsExpression.isNode {tree : Tree} (expression : IsExpression tree) : tree.isNode := by
  cases expression <;> rfl

end Tree

namespace Grammar

open Squirrel.Tree (IsExpression Separated Listed choiceRank infixRank prefixRank operandRank nesting
  nestingBelow tokensOf nextOf)

section Starts

def startsOperand : Kind → Bool
  | .identifier | .kwThis | .kwBase | .doubleColon | .leftParen | .leftBrace | .leftBracket
  | .kwFunction | .atSign | .error => true
  | kind => kind.isLiteral

def Category.starts : Category → Kind → Bool
  | .deeper category, kind => category.starts kind
  | .primary, kind | .suffixes, kind | .operand, kind => startsOperand kind
  | .unary, kind | .infixes _, kind | .binary _, kind | .ternary, kind | .expression, kind =>
    startsOperand kind || kind.isUnary
  | _, _ => true

theorem startsOperand_literal {kind : Kind} (isLiteral : kind.isLiteral) : startsOperand kind := by
  cases kind <;> first | rfl | cases isLiteral

theorem isUnary_of_startsOperand {kind : Kind} (starts : startsOperand kind) :
    kind.isUnary = false := by
  cases kind <;> first | rfl | cases starts

variable {levels : Nat} {category : Category} {trees : List Tree} {next : Token}

theorem Derives.starts (derived : Derives levels category trees next) (after : Token) :
    category.starts (nextOf trees after).kind := by
  induction derived generalizing after with
  | deeper _ ih => exact ih after
  | reference isName | thisObject isName | baseObject isName | malformed isName =>
    simp [Category.starts, startsOperand, isName]
  | literal isLiteral => simpa [Category.starts] using startsOperand_literal isLiteral
  | rootReference areColons => simp [Category.starts, startsOperand, areColons]
  | parenthesized inside =>
    cases inside with
    | parentheses opens => simp [Category.starts, startsOperand, opens]
  | array opens | table opens | functionLiteral opens | lambdaBlock opens | lambda opens =>
    simp [Category.starts, startsOperand, opens]
  | plainOperand _ ih | operand _ _ ih | firstOperand _ ih | binary _ _ ih | noChoice _ _ ih
  | noAssignment _ _ ih => exact ih after
  | member _ _ _ ih | index _ _ _ _ _ ih | postUpdate _ _ _ ih =>
    simpa [nextOf] using ih _
  | call _ _ ih => simpa [nextOf, tokens_makeCall] using ih _
  | unaryOperator isOperator => simp [Category.starts, isOperator]
  | unaryOperand _ _ ih =>
    have starts := ih after
    simp only [Category.starts] at starts ⊢
    simp [starts]
  | infixOperator _ _ _ _ ih | choice _ _ _ _ _ ih | assignment _ _ _ ih =>
    simpa [nextOf, Category.starts] using ih _
  | _ => rfl

end Starts

variable {operator : Token}

section Endings

structure Ends (next : Token) : Prop where
  operand : extendsOperand next = false
  operator : next.kind.precedence? = none
  choice : next.kind ≠ .question
  assignment : next.kind.isAssignment = false

/-- Kinds of the tokens that close an expression or part it from the next one. -/
def isBoundary (kind : Kind) : Bool :=
  [Kind.comma, .colon, .rightParen, .rightBracket, .endOfInput].contains kind

theorem ends_of_isBoundary {next : Token} (boundary : isBoundary next.kind) : Ends next := by
  refine ⟨?_, ?_, ?_, ?_⟩
  · unfold extendsOperand
    cases kind : next.kind <;> simp_all [isBoundary]
  all_goals cases kind : next.kind <;> simp_all [isBoundary, Kind.precedence?, Kind.isAssignment]

theorem extendsOperand_of_precedence {precedence : Nat}
    (binds : operator.kind.precedence? = some precedence) : extendsOperand operator = false := by
  unfold extendsOperand
  split <;> simp_all [Kind.precedence?]

theorem extendsOperand_of_assignment (isOperator : operator.kind.isAssignment) :
    extendsOperand operator = false := by
  unfold extendsOperand
  split <;> simp_all [Kind.isAssignment]

theorem precedence_of_assignment {kind : Kind} (isOperator : kind.isAssignment) :
    kind.precedence? = none ∧ kind ≠ .question := by
  cases kind <;> simp_all [Kind.isAssignment, Kind.precedence?]

end Endings

section Ranks

variable {tree : Tree} {levels least : Nat} {next : Token}

/-- An expression is derived in each category that its rank and the token after it allow. -/
structure Derivable (tree : Tree) : Prop where
  suffixes : operandRank ≤ tree.rank → ∀ levels next, tree.nesting ≤ levels →
    Derives levels .suffixes [tree] next
  unary : prefixRank ≤ tree.rank → ∀ levels next, tree.nesting ≤ levels →
    extendsOperand next = false → Derives levels .unary [tree] next
  infixes : choiceRank < tree.rank → ∀ levels least next, tree.nesting ≤ levels →
    infixRank least ≤ tree.rank → extendsOperand next = false →
    (∀ precedence ∈ next.kind.precedence?, infixRank precedence ≤ tree.rank) →
    Derives levels (.infixes least) [tree] next
  expression : ∀ levels next, tree.nesting ≤ levels → Ends next →
    Derives levels .expression [tree] next

theorem Ends.of_infixes (ends : Ends next) (chain : Derives levels (.infixes 1) [tree] next) :
    Derives levels .expression [tree] next := by
  refine .noAssignment (.noChoice (.binary chain ?_) ends.choice) ends.assignment
  simp [extendsInfix, ends.operator]

theorem derivable_unary (ranked : tree.rank = prefixRank)
    (derived : ∀ levels next, tree.nesting ≤ levels → extendsOperand next = false →
      Derives levels .unary [tree] next) : Derivable tree where
  suffixes high := by
    rw [ranked] at high
    cases Nat.not_succ_le_self _ high
  unary _ := derived
  infixes _ levels least next enough _ ends _ := .firstOperand (derived levels next enough ends)
  expression levels next enough ends :=
    ends.of_infixes (.firstOperand (derived levels next enough ends.operand))

theorem derivable_suffixes
    (derived : ∀ levels next, tree.nesting ≤ levels → Derives levels .suffixes [tree] next) :
    Derivable tree := by
  have asUnary : ∀ levels next, tree.nesting ≤ levels → extendsOperand next = false →
      Derives levels .unary [tree] next := by
    intro levels next enough ends
    have chain := derived levels next enough
    exact .unaryOperand (isUnary_of_startsOperand (chain.starts next)) (.operand chain ends)
  exact {
    suffixes := fun _ => derived
    unary := fun _ => asUnary
    infixes := fun _ levels _ next enough _ ends _ => .firstOperand (asUnary levels next enough ends)
    expression := fun levels next enough ends =>
      ends.of_infixes (.firstOperand (asUnary levels next enough ends.operand)) }

theorem derivable_primary
    (derived : ∀ levels next, tree.nesting ≤ levels → Derives levels .primary [tree] next) :
    Derivable tree :=
  derivable_suffixes fun levels next enough => .plainOperand (derived levels next enough)

theorem derives_deeper {category : Category}
    (derived : ∀ levels, tree.nesting ≤ levels → Derives levels category [tree] next)
    (enough : tree.nesting + 1 ≤ levels) : Derives levels (.deeper category) [tree] next := by
  obtain ⟨inner, rfl⟩ := Nat.exists_eq_add_of_le' (Nat.le_trans (Nat.le_add_left 1 _) enough)
  exact .deeper (derived inner (Nat.le_of_succ_le_succ enough))

theorem Derivable.deeper (derivable : Derivable tree) (enough : tree.nesting + 1 ≤ levels)
    (ends : Ends next) : Derives levels (.deeper .expression) [tree] next :=
  derives_deeper (fun inner within => derivable.expression inner next within ends) enough

theorem derivable_infix {left right : Tree} {precedence : Nat}
    (binds : operator.kind.precedence? = some precedence) (first : Derivable left)
    (leftRanked : infixRank precedence ≤ left.rank) (second : Derivable right)
    (rightNode : right.isNode) (rightRanked : infixRank precedence < right.rank) :
    Derivable (.node (operatorLabel operator.kind) [left, .leaf operator, right]) := by
  have bounds := precedence_bounds binds
  have ranked := rank_operator operator left right binds
  have other : operatorLabel operator.kind ≠ .call := by unfold operatorLabel; split <;> simp
  have derived : ∀ levels least next,
      (Tree.node (operatorLabel operator.kind) [left, .leaf operator, right]).nesting ≤ levels →
      least ≤ precedence → extendsOperand next = false →
      (∀ later ∈ next.kind.precedence?, later ≤ precedence) →
      Derives levels (.infixes least)
        [.node (operatorLabel operator.kind) [left, .leaf operator, right]] next := by
    intro levels least next enough tight ends others
    rw [Tree.nesting_node other, Tree.nestingBelow_leaf, Tree.nestingBelow_node rightNode] at enough
    simp only [infixRank] at *
    have before : Derives levels (.infixes least) [left] operator := by
      refine first.infixes (by simp only [choiceRank]; omega) levels least operator (by omega)
        (by simp only [infixRank]; omega) (extendsOperand_of_precedence binds) ?_
      simpa [binds, infixRank] using leftRanked
    have after : Derives levels (.deeper (.binary (precedence + 1))) [right] next := by
      refine derives_deeper (fun inner within => .binary ?_ ?_) (by omega)
      · refine second.infixes (by simp only [choiceRank]; omega) inner _ next within
          (by simp only [infixRank]; omega) ends fun later isLater => ?_
        have low := others later isLater
        simp only [infixRank]
        omega
      · cases later : next.kind.precedence? with
        | none => simp [extendsInfix, later]
        | some tighter =>
          have low := others tighter later
          simp only [extendsInfix, later, Option.any_some, decide_eq_false_iff_not]
          omega
    exact .infixOperator before binds tight after
  refine ⟨fun high => ?_, fun high => ?_, ?_, ?_⟩
  · simp only [ranked, infixRank, operandRank] at high
    omega
  · simp only [ranked, infixRank, prefixRank] at high
    omega
  · intro _ levels least next enough tight ends others
    rw [ranked] at tight others
    exact derived levels least next enough (Nat.le_of_succ_le_succ tight) ends
      fun later isLater => Nat.le_of_succ_le_succ (others later isLater)
  · intro levels next enough ends
    exact ends.of_infixes (derived levels 1 next enough bounds.1 ends.operand
      (by simp [ends.operator]))

theorem derivable_ternary {condition first second : Tree} {question colon : Token}
    (tested : Derivable condition) (ranked : choiceRank < condition.rank)
    (asks : question.kind = .question) (either : Derivable first) (firstNode : first.isNode)
    (parts : colon.kind = .colon) (other : Derivable second) (secondNode : second.isNode) :
    Derivable (.node .ternary [condition, .leaf question, first, .leaf colon, second]) := by
  refine ⟨fun high => ?_, fun high => ?_, fun high => ?_, ?_⟩
  · exact absurd high (by simp [Tree.rank, operandRank, choiceRank])
  · exact absurd high (by simp [Tree.rank, prefixRank, choiceRank])
  · exact absurd high (by simp [Tree.rank])
  · intro levels next enough ends
    simp only [Tree.nesting_node (show Label.ternary ≠ .call by decide), Tree.nestingBelow_leaf,
      Tree.nestingBelow_node firstNode, Tree.nestingBelow_node secondNode] at enough
    have before : Derives levels (.binary 1) [condition] question := by
      refine .binary (tested.infixes ranked levels 1 question (by omega) ranked ?_ ?_) ?_
      · simp [extendsOperand, asks]
      · simp [asks, Kind.precedence?]
      · simp [extendsInfix, asks, Kind.precedence?]
    have middle : Derives levels (.deeper .expression) [first] colon :=
      either.deeper (by omega) (ends_of_isBoundary (by rw [parts]; rfl))
    have after : Derives levels (.deeper .expression) [second] next := other.deeper (by omega) ends
    exact .noAssignment (.choice before asks middle parts after) ends.assignment

theorem derivable_assignment {target value : Tree} (assigned : Derivable target)
    (ranked : choiceRank < target.rank) (isOperator : operator.kind.isAssignment)
    (given : Derivable value) (valueNode : value.isNode) :
    Derivable (.node (assignmentLabel operator.kind) [target, .leaf operator, value]) := by
  have zero : (Tree.node (assignmentLabel operator.kind) [target, .leaf operator, value]).rank = 0 := by
    unfold assignmentLabel
    split <;> rfl
  have noCall : assignmentLabel operator.kind ≠ .call := by unfold assignmentLabel; split <;> simp
  refine ⟨fun high => ?_, fun high => ?_, fun high => ?_, ?_⟩
  · exact absurd high (by simp [zero, operandRank])
  · exact absurd high (by simp [zero, prefixRank])
  · exact absurd high (by simp [zero])
  · intro levels next enough ends
    rw [Tree.nesting_node noCall, Tree.nestingBelow_leaf, Tree.nestingBelow_node valueNode] at enough
    obtain ⟨noInfix, noChoice⟩ := precedence_of_assignment isOperator
    have before : Derives levels .ternary [target] operator := by
      refine .noChoice (.binary (assigned.infixes ranked levels 1 operator (by omega) ranked
        (extendsOperand_of_assignment isOperator) ?_) ?_) noChoice
      · simp [noInfix]
      · simp [extendsInfix, noInfix]
    exact .assignment before isOperator (given.deeper (by omega) ends)

end Ranks

section Lists

variable {levels : Nat} {tree : Tree} {values listed : List Tree} {closer : Token}

theorem Derivable.starts (derivable : Derivable tree) (trees : List Tree) (ends : Ends closer) :
    [Kind.rightParen, .rightBracket, .endOfInput].contains
      (nextOf (tree :: trees) closer).kind = false := by
  have starts : Category.starts .expression (nextOf (tree :: trees) closer).kind := by
    simpa [nextOf] using (derivable.expression tree.nesting closer (Nat.le_refl _) ends).starts
      (nextOf trees closer)
  generalize (nextOf (tree :: trees) closer).kind = kind at starts
  cases kind <;> first | rfl | cases starts

theorem derives_items (separated : Separated values listed)
    (each : ∀ value ∈ values, Derivable value ∧ value.isNode)
    (enough : nestingBelow listed ≤ levels) (closes : closer.kind = .rightBracket) :
    Derives levels .items listed closer := by
  have ends : Ends closer := ends_of_isBoundary (by rw [closes]; rfl)
  induction separated with
  | one value =>
    obtain ⟨derivable, isNode⟩ := each value (List.mem_singleton_self _)
    rw [Tree.nestingBelow_node isNode] at enough
    have starts := derivable.starts [] ends
    refine .item (by simp_all) (derivable.deeper (by omega) ends) (by simp [closes])
      (.noItem (by simp [closes]))
  | @more values listed comma value isComma others ih =>
    obtain ⟨derivable, isNode⟩ := each value (List.mem_cons_self ..)
    rw [Tree.nestingBelow_node isNode, Tree.nestingBelow_leaf] at enough
    have starts := derivable.starts (.leaf comma :: listed) ends
    exact .itemComma (by simp_all)
      (derivable.deeper (by omega) (ends_of_isBoundary (by rw [isComma]; rfl))) isComma
      (ih (fun other member => each other (List.mem_cons_of_mem _ member)) (by omega))

theorem derives_separated (separated : Separated values listed)
    (each : ∀ value ∈ values, Derivable value ∧ value.isNode)
    (enough : nestingBelow listed ≤ levels) (ends : Ends closer) (noComma : closer.kind ≠ .comma) :
    Derives levels (.separated (.deeper .expression)) listed closer := by
  induction separated with
  | one value =>
    obtain ⟨derivable, isNode⟩ := each value (List.mem_singleton_self _)
    rw [Tree.nestingBelow_node isNode] at enough
    exact .lastSeparated (derivable.deeper (by omega) ends) noComma
  | @more values listed comma value isComma others ih =>
    obtain ⟨derivable, isNode⟩ := each value (List.mem_cons_self ..)
    rw [Tree.nestingBelow_node isNode, Tree.nestingBelow_leaf] at enough
    exact .moreSeparated
      (derivable.deeper (by omega) (ends_of_isBoundary (by rw [isComma]; rfl))) isComma
      (ih (fun other member => each other (List.mem_cons_of_mem _ member)) (by omega))

theorem nestingBelow_closed (trees : List Tree) (closer : Token) :
    nestingBelow (trees ++ [.leaf closer]) = nestingBelow trees := by
  induction trees with
  | nil => simp
  | cons tree trees ih =>
    cases tree with
    | leaf token => simpa using ih
    | node label children =>
      rw [List.cons_append, Tree.nestingBelow_node rfl, Tree.nestingBelow_node rfl, ih]

theorem derivable_array {opener : Token} (opens : opener.kind = .leftBracket)
    (lists : Listed values listed) (each : ∀ value ∈ values, Derivable value ∧ value.isNode)
    (closes : closer.kind = .rightBracket) :
    Derivable (.node .array (.leaf opener :: listed ++ [.leaf closer])) := by
  refine derivable_primary fun levels next enough => .array opens ?_ closes
  rw [List.cons_append, Tree.nesting_node (by decide), nestingBelow_closed] at enough
  rcases lists with ⟨_, rfl⟩ | separated
  · exact .noItem (by simp [closes])
  · exact derives_items separated each (by omega) closes

theorem derives_arguments {opener next : Token} (opens : opener.kind = .leftParen)
    (lists : Listed values listed) (each : ∀ value ∈ values, Derivable value ∧ value.isNode)
    (enough : nestingBelow listed ≤ levels) (closes : closer.kind = .rightParen) :
    Derives levels .arguments [.node .arguments (.leaf opener :: listed ++ [.leaf closer])] next := by
  have ends : Ends closer := ends_of_isBoundary (by rw [closes]; rfl)
  rcases lists with ⟨_, rfl⟩ | separated
  · exact .noArguments opens closes
  · refine .arguments opens ?_ (derives_separated separated each enough ends (by simp [closes]))
      closes
    cases separated with
    | one value =>
      have starts := (each value (List.mem_singleton_self _)).1.starts [] ends
      simp_all
    | @more _ listed comma value =>
      have starts := (each value (List.mem_cons_self ..)).1.starts (.leaf comma :: listed) ends
      simp_all

end Lists

section Flattening

variable {tree : Tree} {values listed : List Tree}

theorem mem_of_separated (separated : Separated values listed) (member : tree ∈ listed)
    (isNode : tree.isNode) : tree ∈ values := by
  induction separated with
  | one value => exact member
  | more value _ _ ih =>
    rcases List.mem_cons.1 member with rfl | member
    · exact List.mem_cons_self ..
    · rcases List.mem_cons.1 member with rfl | member
      · cases isNode
      · exact List.mem_cons_of_mem _ (ih member)

theorem subset_of_separated (separated : Separated values listed) : values ⊆ listed := by
  induction separated with
  | one value => exact List.Subset.refl _
  | more value _ _ ih =>
    exact List.cons_subset_cons _ (fun _ member => List.mem_cons_of_mem _ (ih member))

theorem mem_tokensOf_listed {token : Token} (lists : Listed values listed) (member : tree ∈ values)
    (inside : token ∈ tree.tokens) : token ∈ tokensOf listed := by
  rcases lists with ⟨rfl, _⟩ | separated
  · cases member
  · exact Tree.mem_tokensOf (subset_of_separated separated member) inside

theorem makeCall_of_expressions (callee : Tree) (opener closer : Token)
    (lists : Listed values listed) (each : ∀ value ∈ values, IsExpression value) :
    makeCall callee (.node .arguments (.leaf opener :: listed ++ [.leaf closer])) =
      .node .call [callee, .node .arguments (.leaf opener :: listed ++ [.leaf closer])] := by
  have noTable : ∀ body ∈ (Tree.node .arguments (.leaf opener :: listed ++ [.leaf closer])).subtrees,
      body.hasLabel .table = false := by
    intro body member
    obtain ⟨inside, isNode⟩ := List.mem_filter.1 member
    have isListed : body ∈ listed := by
      simp only [Tree.children, List.cons_append, List.mem_cons, List.mem_append,
        List.not_mem_nil, or_false] at inside
      rcases inside with rfl | inside | rfl
      · cases isNode
      · exact inside
      · cases isNode
    rcases lists with ⟨_, rfl⟩ | separated
    · cases isListed
    · cases each body (mem_of_separated separated isListed isNode) <;> rfl
  unfold makeCall
  split
  case h_1 first body shape =>
    have other := noTable body (by rw [shape]; simp)
    rw [if_neg]
    simp [other]
  case h_2 => rfl

theorem derivable_of_isExpression (expression : IsExpression tree)
    (oneLine : ∀ token ∈ tree.tokens, token.startsLine = false) : Derivable tree := by
  induction expression with
  | reference isName => exact derivable_primary fun _ _ _ => .reference isName
  | literal isLiteral => exact derivable_primary fun _ _ _ => .literal isLiteral
  | thisObject isWord => exact derivable_primary fun _ _ _ => .thisObject isWord
  | baseObject isWord => exact derivable_primary fun _ _ _ => .baseObject isWord
  | rootReference areColons isName =>
    exact derivable_primary fun _ _ _ => .rootReference areColons isName
  | parenthesized opens inside closes ih =>
    have inner := ih (by simp_all)
    refine derivable_primary fun levels next enough => .parenthesized (.parentheses opens ?_ closes)
    rw [Tree.nesting_node (by decide), Tree.nestingBelow_node inside.isNode] at enough
    exact inner.deeper (by omega) (ends_of_isBoundary (by rw [closes]; rfl))
  | array opens lists each closes ih =>
    refine derivable_array opens lists (fun value member => ⟨ih value member ?_, ?_⟩) closes
    · intro token inside
      exact oneLine token (by simp [mem_tokensOf_listed lists member inside])
    · exact (each value member).isNode
  | member inside ranked isDot isName ih =>
    have object := ih (by simp_all)
    refine derivable_suffixes fun levels next enough => .member ?_ isDot isName
    rw [Tree.nesting_node (by decide)] at enough
    exact object.suffixes ranked _ _ (by omega)
  | index inside ranked opens keyed closes objectIh keyIh =>
    have object := objectIh (by simp_all)
    have key := keyIh (by simp_all)
    refine derivable_suffixes fun levels next enough => .index ?_ opens ?_ ?_ closes
    all_goals rw [Tree.nesting_node (by decide), Tree.nestingBelow_leaf,
      Tree.nestingBelow_node keyed.isNode] at enough
    · exact object.suffixes ranked _ _ (by omega)
    · exact oneLine _ (by simp)
    · exact key.deeper (by omega) (ends_of_isBoundary (by rw [closes]; rfl))
  | @call callee opener closer values listed inside ranked opens lists each closes calleeIh eachIh =>
    have called := calleeIh (by simp_all)
    refine derivable_suffixes fun levels next enough => ?_
    rw [Tree.nesting, List.cons_append, Tree.nestingBelow_leaf, nestingBelow_closed] at enough
    rw [← makeCall_of_expressions callee opener closer lists each]
    refine .call (called.suffixes ranked levels _ (by omega))
      (derives_arguments opens lists (fun value member => ⟨eachIh value member ?_, ?_⟩) (by omega)
        closes)
    · intro token within
      exact oneLine token (by simp [mem_tokensOf_listed lists member within])
    · exact (each value member).isNode
  | postUpdate inside ranked isUpdate ih =>
    have operand := ih (by simp_all)
    refine derivable_suffixes fun levels next enough => .postUpdate ?_ isUpdate ?_
    all_goals rw [Tree.nesting_node (by decide)] at enough
    · exact operand.suffixes ranked _ _ (by omega)
    · exact oneLine _ (by simp)
  | unary isUnary inside ranked ih =>
    have operand := ih (by simp_all)
    refine derivable_unary rfl fun levels next enough ends => .unaryOperator isUnary ?_
    rw [Tree.nesting_node (by decide), Tree.nestingBelow_node inside.isNode] at enough
    exact derives_deeper (fun inner within => operand.unary ranked inner next within ends) (by omega)
  | logical isLogical binds first leftRanked second rightRanked leftIh rightIh =>
    have derivable := derivable_infix binds (leftIh (by simp_all)) leftRanked (rightIh (by simp_all))
      second.isNode rightRanked
    rwa [show operatorLabel _ = Label.logical by simp [operatorLabel, isLogical]] at derivable
  | binary noLogical binds first leftRanked second rightRanked leftIh rightIh =>
    have derivable := derivable_infix binds (leftIh (by simp_all)) leftRanked (rightIh (by simp_all))
      second.isNode rightRanked
    rwa [show operatorLabel _ = Label.binary by simp [operatorLabel, noLogical]] at derivable
  | ternary tested ranked asks either parts other testedIh eitherIh otherIh =>
    exact derivable_ternary (testedIh (by simp_all)) ranked asks (eitherIh (by simp_all))
      either.isNode parts (otherIh (by simp_all)) other.isNode
  | assign assigned ranked isOperator noSlot given targetIh valueIh =>
    have derivable := derivable_assignment (targetIh (by simp_all)) ranked isOperator
      (valueIh (by simp_all)) given.isNode
    rwa [show assignmentLabel _ = Label.assign by simp [assignmentLabel, noSlot]] at derivable
  | newSlot assigned ranked isOperator given targetIh valueIh =>
    have derivable := derivable_assignment (targetIh (by simp_all)) ranked
      (by rw [isOperator]; rfl) (valueIh (by simp_all)) given.isNode
    rwa [show assignmentLabel _ = Label.newSlot by simp [assignmentLabel, isOperator]] at derivable

theorem errorsOf_listed (lists : Listed values listed)
    (each : ∀ value ∈ values, value.errors = 0) : Tree.errorsOf listed = 0 := by
  rcases lists with ⟨_, rfl⟩ | separated
  · simp
  · induction separated with
    | one value => simpa using each
    | more value _ _ ih => simp_all

theorem errors_of_isExpression (expression : IsExpression tree) : tree.errors = 0 := by
  induction expression with
  | array opens lists each closes ih => simp [Tree.errors_node, errorsOf_listed lists ih]
  | call inside ranked opens lists each closes calleeIh eachIh =>
    simp [Tree.errors_node, errorsOf_listed lists eachIh, calleeIh]
  | _ => simp_all [Tree.errors_node]

end Flattening

/-- The tokens of an expression on one line are read as that expression, to the end. -/
theorem expression_tokens [NestingLimit] {tree : Tree} (expression : IsExpression tree)
    (oneLine : ∀ token ∈ tree.tokens, token.startsLine = false)
    (shallow : tree.nesting < nestingLimit) {last : Token} (atEnd : last.kind = .endOfInput)
    (diagnostics : List Diagnostic) :
    allRules.expression ⟨tree.tokens ++ [last], diagnostics⟩ = .ok tree ⟨[last], diagnostics⟩ := by
  have derived : Derives nestingLimit (.deeper .expression) [tree] last :=
    (derivable_of_isExpression expression oneLine).deeper shallow
      (ends_of_isBoundary (by rw [atEnd]; rfl))
  have parses := derived.parses (by simp [errors_of_isExpression expression])
  have accepts : AcceptsTree allRules.expression tree last := parses.accepts rfl
  simpa [AcceptsTree, Accepts] using accepts [] diagnostics

def inlineToken (kind : Kind) (text : String) : Token := ⟨⟨kind, text⟩, default, [], []⟩

def climbingTree : Tree :=
  .node .binary
    [.node .binary
      [.node .reference [.leaf (inlineToken .identifier "a")], .leaf (inlineToken .minus "-"),
        .node .reference [.leaf (inlineToken .identifier "b")]],
      .leaf (inlineToken .minus "-"),
      .node .binary
        [.node .reference [.leaf (inlineToken .identifier "c")], .leaf (inlineToken .star "*"),
          .node .unary
            [.leaf (inlineToken .minus "-"),
              .node .index
                [.node .reference [.leaf (inlineToken .identifier "d")],
                  .leaf (inlineToken .leftBracket "["),
                  .node .literal [.leaf (inlineToken .integer "0")],
                  .leaf (inlineToken .rightBracket "]")]]]]

theorem expression_tokens_climbing :
    climbingTree.nesting < nestingLimit ∧
      allRules.expression ⟨climbingTree.tokens ++ [inlineToken .endOfInput ""], []⟩ =
        .ok climbingTree ⟨[inlineToken .endOfInput ""], []⟩ := by
  have shallow : climbingTree.nesting < nestingLimit := by
    simp [climbingTree, Tree.nesting, Tree.nestingBelow, nestingLimit]
  have expression : IsExpression climbingTree :=
    .binary (by decide) rfl
      (.binary (by decide) rfl (.reference rfl) (by decide) (.reference rfl) (by decide))
      (by decide)
      (.binary (by decide) rfl (.reference rfl) (by decide)
        (.unary rfl (.index (.reference rfl) (by decide) rfl (.literal rfl) rfl) (by decide))
        (by decide))
      (by decide)
  exact ⟨shallow, expression_tokens expression (by decide) shallow rfl []⟩

end Grammar

end Squirrel
