import Squirrel.Proofs.Grammar.Lossless
import Squirrel.Proofs.Tree.Everywhere
import Squirrel.Proofs.Tree.Shape

/-! Expressions, statements and their parts stand where they belong in every tree that is read. -/

namespace Squirrel

def expressionLabels : List Label :=
  [.reference, .literal, .thisObject, .baseObject, .rootReference, .parenthesized, .array, .table,
   .functionLiteral, .lambdaLiteral, .hookWrapper, .member, .index, .call, .inheritCall,
   .postUpdate, .unary, .binary, .logical, .ternary, .assign, .newSlot, .error]

def statementLabels : List Label :=
  [.block, .emptyStatement, .ifStatement, .whileStatement, .doWhileStatement, .forStatement,
   .foreachStatement, .switchStatement, .tryStatement, .localDeclaration, .constDeclaration,
   .functionDeclaration, .returnStatement, .breakStatement, .continueStatement, .throwStatement,
   .expressionStatement, .error]

namespace Label

def parts : Label → List Label
  | .program | .block | .caseBody | .tryStatement => statementLabels
  | .ifStatement | .whileStatement | .doWhileStatement => expressionLabels ++ statementLabels
  | .forStatement => [.forInit, .forCondition, .forStep] ++ statementLabels
  | .forInit => .localDeclaration :: expressionLabels
  | .foreachStatement => .foreachVariables :: expressionLabels ++ statementLabels
  | .switchStatement => [.caseClause, .defaultClause] ++ expressionLabels
  | .caseClause => .caseBody :: expressionLabels
  | .defaultClause => [.caseBody]
  | .localDeclaration => [.declarator]
  | .functionDeclaration => [.functionName, .parameters, .block]
  | .functionLiteral | .tableMethod => [.parameters, .block]
  | .lambdaLiteral | .hookWrapper => [.parameters, .block] ++ expressionLabels
  | .parameters => [.parameter]
  | .call | .inheritCall => .arguments :: expressionLabels
  | .table => Tree.entryLabels
  | .forCondition | .forStep | .declarator | .constDeclaration | .returnStatement
  | .throwStatement | .expressionStatement | .parameter | .arguments | .array | .member | .index
  | .postUpdate | .unary | .binary | .logical | .ternary | .assign | .newSlot | .parenthesized
  | .tableSlot | .tableQuoted | .tableComputed => expressionLabels
  | .error | .emptyStatement | .breakStatement | .continueStatement | .foreachVariables
  | .functionName | .reference | .literal | .thisObject | .baseObject | .rootReference => []

end Label

namespace Tree

/-- Where a part can be told from the others only by its place: the head of a loop, the body of a
clause, the arguments of a call and the parameters of a hook. -/
def areOrdered : Label → List Tree → Bool
  | .forStatement, [_, _, init, _, condition, _, step, _, _] =>
    init.hasLabel .forInit && (condition.hasLabel .forCondition && step.hasLabel .forStep)
  | .foreachStatement, [_, _, names, _, _, _, _] => names.hasLabel .foreachVariables
  | .caseClause, [_, _, _, body] => body.hasLabel .caseBody
  | .call, [_, list] | .inheritCall, [_, list] => list.hasLabel .arguments
  | .hookWrapper, [_, list, _] => list.hasLabel .parameters
  | _, _ => true

def isComposed (label : Label) (children : List Tree) : Bool :=
  nodesAre label.parts children && areOrdered label children

end Tree

namespace Grammar

open Squirrel.Tree (nodesAre isComposed everywhereOf)

variable {levels : Nat} {category : Category} {trees : List Tree} {tree : Tree} {next : Token}
  {labels : List Label}

def Category.parts : Category → List Label
  | .deeper category => category.parts
  | .separated item => item.parts
  | .statement | .unit | .statements _ => statementLabels
  | .block => [.block]
  | .ending | .namePath => []
  | .clauses | .clause => [.caseClause, .defaultClause]
  | .caseBody => [.caseBody]
  | .forInit => .localDeclaration :: expressionLabels
  | .declarator => [.declarator]
  | .functionName => [.functionName]
  | .arguments => [.arguments]
  | .parameters => [.parameters]
  | .parameterList | .parameter => [.parameter]
  | .entries | .entry => Tree.entryLabels
  | .optionalExpression _ | .expression | .ternary | .binary _ | .infixes _ | .unary | .operand
  | .suffixes | .primary | .parentheses | .items => expressionLabels

theorem nodes_cons (first : nodesAre labels [tree]) (others : nodesAre labels trees) :
    nodesAre labels (tree :: trees) := by
  rw [nodesAre_cons, first, others]
  rfl

theorem nodes_leaf {token : Token} (others : nodesAre labels trees) :
    nodesAre labels (.leaf token :: trees) := by
  rwa [nodesAre_leaf]

theorem nodes_append {first second : List Tree} (one : nodesAre labels first)
    (other : nodesAre labels second) : nodesAre labels (first ++ second) := by
  rw [nodesAre_append, one, other]
  rfl

theorem nodes_leaves (labels : List Label) (tokens : List Token) :
    nodesAre labels (tokens.map .leaf) := by
  induction tokens with
  | nil => rfl
  | cons token tokens ih => exact nodes_leaf ih

theorem nodesAre_mono {others : List Label} (nodes : nodesAre labels trees)
    (more : labels.all others.contains) : nodesAre others trees := by
  refine List.all_eq_true.mpr fun tree member => ?_
  have one := List.all_eq_true.mp nodes tree member
  cases tree with
  | leaf token => rfl
  | node label children =>
    have listed : label ∈ labels := by simpa [Tree.isLeaf, Tree.label?] using one
    simpa [Tree.isLeaf, Tree.label?] using List.all_eq_true.mp more label listed

theorem label_lambda (list body : Tree) :
    lambdaLabel list body = .lambdaLiteral ∨ lambdaLabel list body = .hookWrapper := by
  unfold lambdaLabel
  split
  · exact .inr rfl
  · exact .inl rfl

theorem label_operator (kind : Kind) :
    operatorLabel kind = .logical ∨ operatorLabel kind = .binary := by
  unfold operatorLabel
  split
  · exact .inl rfl
  · exact .inr rfl

theorem label_assignment (kind : Kind) :
    assignmentLabel kind = .newSlot ∨ assignmentLabel kind = .assign := by
  unfold assignmentLabel
  split
  · exact .inl rfl
  · exact .inr rfl

theorem Derives.parts (derived : Derives levels category trees next) :
    Tree.nodesAre category.parts trees := by
  induction derived with
  | deeper _ ih | plainOperand _ ih | operand _ _ ih | unaryOperand _ _ ih | firstOperand _ ih
  | binary _ _ ih | noChoice _ _ ih | noAssignment _ _ ih | lastSeparated _ _ ih
  | lastParameter _ _ ih | unit _ ih | someExpression _ _ ih => exact ih
  | blockStatement _ ih | forExpression _ _ _ ih => exact nodesAre_mono ih rfl
  | parentheses _ _ _ ih => exact nodes_leaf (nodes_cons ih rfl)
  | moreSeparated _ _ _ first others | moreParameters _ _ _ first others
  | itemComma _ _ _ _ first others | entryComma _ _ _ _ first others =>
    exact nodes_cons first (nodes_leaf others)
  | item _ _ _ _ first others | oneEntry _ _ _ _ first others | statements _ _ _ _ first others
  | clauses _ _ _ first others => exact nodes_cons first others
  | pathStep _ _ _ ih => exact nodes_leaf (nodes_leaf ih)
  | @lambda _ _ list body => rcases label_lambda list body with same | same <;> rw [same] <;> rfl
  | @call _ _ operand list =>
    rcases label_makeCall operand list with same | same <;> rw [same] <;> rfl
  | @infixOperator _ _ _ _ _ _ operator =>
    rcases label_operator operator.kind with same | same <;> rw [same] <;> rfl
  | @assignment _ _ _ _ operator =>
    rcases label_assignment operator.kind with same | same <;> rw [same] <;> rfl
  | _ => rfl

theorem Derives.within (derived : Derives levels category trees next)
    (more : category.parts.all labels.contains := by rfl) : Tree.nodesAre labels trees :=
  nodesAre_mono derived.parts more

theorem composed_node {label : Label} (made : nodesAre label.parts trees)
    (below : everywhereOf isComposed trees := by simp_all)
    (ordered : Tree.areOrdered label trees := by rfl) :
    everywhereOf isComposed [.node label trees] := by
  simp [isComposed, ordered, made, below]

theorem composed_loopNames {names : List Tree} (named : LoopNames names) :
    everywhereOf isComposed [.node .foreachVariables names] := by
  rcases named with ⟨_, _, rfl⟩ | ⟨_, _, _, _, _, _, rfl⟩ <;> rfl

theorem Derives.composed (derived : Derives levels category trees next) :
    everywhereOf isComposed trees := by
  induction derived with
  | deeper _ ih | plainOperand _ ih | operand _ _ ih | unaryOperand _ _ ih | firstOperand _ ih
  | binary _ _ ih | noChoice _ _ ih | noAssignment _ _ ih | lastSeparated _ _ ih
  | lastParameter _ _ ih | unit _ ih | someExpression _ _ ih | blockStatement _ ih
  | forExpression _ _ _ ih => exact ih
  | reference | thisObject | baseObject | literal | malformed | rootReference | variadic | parameter
  | emptyStatement | declarator | noArguments => rfl
  | noParameter | noItem | noEntry | noStatement | noSemicolon | forNothing | noExpression
  | noClause | pathEnd => rfl
  | skippedEntry | skippedUnit => exact composed_node (nodes_leaves _ _) (by simp)
  | semicolon => simp
  | parentheses _ _ _ ih => simpa using ih
  | parenthesized inside ih => exact composed_node inside.within ih
  | array _ between _ ih | arguments _ _ between _ ih | parameters _ between _ ih
  | table _ between _ ih | block _ between _ ih =>
    exact composed_node (nodes_leaf (nodes_append between.within rfl))
  | functionLiteral _ head inside headIh insideIh | lambdaBlock _ head inside headIh insideIh =>
    exact composed_node (nodes_leaf (nodes_cons head.within inside.within))
  | @lambda _ _ list body _ _ head _ inside headIh insideIh =>
    have listed : list.hasLabel .parameters := by
      simp [Tree.hasLabel, head.parameters_label]
    rcases label_lambda list body with same | same <;> rw [same] <;>
      exact composed_node (nodes_leaf (nodes_cons head.within inside.within)) (by simp_all)
        (by first | rfl | exact listed)
  | member object _ _ ih =>
    exact composed_node (nodes_cons object.within rfl)
  | @call _ _ operand list called given calledIh givenIh =>
    have listed : list.hasLabel .arguments := by
      cases given <;> rfl
    rcases label_makeCall operand list with same | same <;> rw [same] <;>
      exact composed_node (nodes_cons called.within given.within) (by simp_all) listed
  | index object _ _ between _ objectIh betweenIh =>
    exact composed_node (nodes_cons object.within (nodes_leaf (nodes_cons
      between.within rfl)))
  | postUpdate updated _ _ ih =>
    exact composed_node (nodes_cons updated.within rfl)
  | unaryOperator _ applied ih =>
    exact composed_node (nodes_leaf applied.within)
  | @infixOperator _ _ _ _ left right operator start _ _ applied startIh appliedIh =>
    rcases label_operator operator.kind with same | same <;> rw [same] <;>
      exact composed_node (nodes_cons start.within (nodes_leaf applied.within))
  | choice tested _ either _ other testedIh eitherIh otherIh =>
    exact composed_node (nodes_cons tested.within (nodes_leaf (nodes_cons
      either.within (nodes_leaf other.within))))
  | @assignment _ _ target value operator assigned _ given assignedIh givenIh =>
    rcases label_assignment operator.kind with same | same <;> rw [same] <;>
      exact composed_node (nodes_cons assigned.within (nodes_leaf given.within))
  | moreSeparated _ _ _ firstIh othersIh | moreParameters _ _ _ firstIh othersIh
  | itemComma _ _ _ _ firstIh othersIh | entryComma _ _ _ _ firstIh othersIh
  | item _ _ _ _ firstIh othersIh | oneEntry _ _ _ _ firstIh othersIh
  | statements _ _ _ _ firstIh othersIh | clauses _ _ _ firstIh othersIh =>
    simp only [Tree.everywhereOf_cons, Tree.everywhereOf_nil, Bool.and_true] at firstIh
    simp [firstIh, othersIh]
  | pathStep _ _ _ ih => simpa using ih
  | parameterDefault _ _ given ih | slot _ _ given ih | quotedSlot _ _ given ih
  | declaratorValue _ _ given ih =>
    exact composed_node (nodes_leaf (nodes_leaf given.within))
  | computedSlot _ named _ _ given namedIh givenIh =>
    exact composed_node (nodes_leaf (nodes_cons named.within (nodes_leaf (nodes_leaf
      given.within))))
  | method _ _ head inside headIh insideIh =>
    exact composed_node (nodes_leaf (nodes_leaf (nodes_cons head.within
      inside.within)))
  | ifStatement _ tested governed _ testedIh governedIh
  | whileStatement _ tested governed testedIh governedIh =>
    exact composed_node (nodes_leaf (nodes_append tested.within governed.within))
  | ifElseStatement _ tested governed _ alternative testedIh governedIh alternativeIh =>
    exact composed_node (nodes_leaf (nodes_append tested.within (nodes_cons
      governed.within (nodes_leaf alternative.within))))
  | doWhileStatement _ governed _ tested ends governedIh testedIh endsIh =>
    exact composed_node (nodes_append (nodes_append (nodes_leaf (nodes_cons
      governed.within rfl)) tested.within) ends.within)
  | localDeclaration _ declared ends declaredIh endsIh =>
    exact composed_node (nodes_leaf (nodes_append declared.within ends.within))
  | constDeclaration _ _ _ given ends givenIh endsIh =>
    exact composed_node (nodes_append (nodes_leaf (nodes_leaf (nodes_leaf
      given.within))) ends.within)
  | forLocal _ declared ih =>
    exact composed_node (nodes_leaf declared.within)
  | forStatement _ _ starts _ tested _ stepped _ governed startsIh testedIh steppedIh governedIh =>
    refine composed_node (nodes_leaf (nodes_leaf (nodes_cons rfl (nodes_leaf (nodes_cons
      rfl (nodes_leaf (nodes_cons rfl (nodes_leaf governed.within)))))))) ?_
    have init : everywhereOf isComposed [.node .forInit _] :=
      composed_node starts.within startsIh
    have condition : everywhereOf isComposed [.node .forCondition _] :=
      composed_node tested.within testedIh
    have step : everywhereOf isComposed [.node .forStep _] :=
      composed_node stepped.within steppedIh
    simp_all
  | foreachStatement _ _ named _ iterated _ governed iteratedIh governedIh =>
    refine composed_node (nodes_leaf (nodes_leaf (nodes_cons rfl (nodes_leaf (nodes_cons
      iterated.within (nodes_leaf governed.within)))))) ?_
    have names := composed_loopNames named
    simp_all
  | caseBody inside ih => exact composed_node inside.within ih
  | caseClause _ compared _ inside comparedIh insideIh =>
    exact composed_node (nodes_leaf (nodes_cons compared.within (nodes_leaf inside.within)))
      (by simp_all) (by cases inside; rfl)
  | defaultClause _ _ inside ih =>
    exact composed_node (nodes_leaf (nodes_leaf inside.within))
  | switchStatement _ tested _ between _ testedIh betweenIh =>
    exact composed_node (nodes_append (nodes_append (nodes_append (nodes_leaf
      tested.within) rfl) between.within) rfl)
  | tryStatement _ governed _ _ _ _ handled governedIh handledIh =>
    exact composed_node (nodes_leaf (nodes_cons governed.within (nodes_leaf
      (nodes_leaf (nodes_leaf (nodes_leaf handled.within))))))
  | plainName _ goesOn ih =>
    exact composed_node (nodes_leaf goesOn.within)
  | rootedName _ _ goesOn ih =>
    exact composed_node (nodes_leaf (nodes_leaf goesOn.within))
  | functionDeclaration _ _ named head inside _ namedIh headIh insideIh =>
    exact composed_node (nodes_append (nodes_append (nodes_leaves _ _) (nodes_leaf (nodes_cons
      named.within (nodes_cons head.within inside.within)))) (nodes_leaves _ _))
  | returnNothing _ _ ends ih | breakStatement _ ends ih | continueStatement _ ends ih =>
    exact composed_node (nodes_leaf ends.within)
  | returnValue _ _ given ends givenIh endsIh | throwStatement _ given ends givenIh endsIh =>
    exact composed_node (nodes_leaf (nodes_cons given.within ends.within))
  | expressionStatement _ evaluated ends evaluatedIh endsIh =>
    exact composed_node (nodes_cons evaluated.within ends.within)

end Grammar

/-- In every tree that is read from a text, malformed or not, each node is made of what may stand
there. -/
theorem composed_parse [NestingLimit] (source : String) :
    (parse source).tree.everywhere Tree.isComposed := by
  obtain ⟨trees, last, tree, isProgram⟩ := parse_isProgram source
  have program : Tree.everywhereOf Tree.isComposed [.node .program (trees ++ [.leaf last])] =
      true :=
    Grammar.composed_node (Grammar.nodes_append isProgram.derived.within rfl)
      (by simp [isProgram.derived.composed])
  rw [tree]
  simpa using program

end Squirrel
