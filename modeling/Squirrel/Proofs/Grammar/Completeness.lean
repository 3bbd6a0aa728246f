import Squirrel.Proofs.Grammar.Acceptance

/-! What the grammar derives is what the rules read. -/

namespace Squirrel.Grammar

open Squirrel.Tree (tokensOf nextOf)

variable {tokens : List Token}

section Starts

variable {levels : Nat} {tree : Tree} {next : Token}

theorem Derives.block_shape (derived : Derives levels .block [tree] next) :
    ∃ opener more, tokensOf [tree] = opener :: more ∧ opener.kind = .leftBrace := by
  cases derived with
  | block opens => exact ⟨_, _, by simp; rfl, opens⟩

theorem Derives.block_opens (derived : Derives levels .block [tree] next) (after : Token) :
    (nextOf [tree] after).kind = .leftBrace := by
  obtain ⟨opener, more, split, opens⟩ := derived.block_shape
  rw [nextOf, split]
  exact opens

theorem Derives.arguments_open (derived : Derives levels .arguments [tree] next) (after : Token) :
    (nextOf [tree] after).kind = .leftParen := by
  cases derived with
  | noArguments opens => simpa [nextOf] using opens
  | arguments opens => simpa [nextOf] using opens

theorem Derives.parameters_open (derived : Derives levels .parameters [tree] next) :
    ∃ opener more, tokensOf [tree] = opener :: more ∧ opener.kind = .leftParen := by
  cases derived with
  | parameters opens => exact ⟨_, _, by simp; rfl, opens⟩

theorem Derives.parameter_starts (derived : Derives levels .parameter [tree] next)
    (after : Token) : (nextOf [tree] after).kind ≠ .rightParen := by
  cases derived with
  | variadic areDots => simp [nextOf, areDots]
  | parameter isName => simp [nextOf, isName]
  | parameterDefault isName => simp [nextOf, isName]

theorem Derives.declarator_starts (derived : Derives levels .declarator [tree] next)
    (after : Token) : (nextOf [tree] after).kind = .identifier := by
  cases derived with
  | declarator isName => simpa using isName
  | declaratorValue isName => simpa using isName

theorem Derives.declarators_start {trees : List Tree}
    (derived : Derives levels (.separated .declarator) trees next) (after : Token) :
    (nextOf trees after).kind = .identifier := by
  cases derived with
  | lastSeparated last => exact last.declarator_starts after
  | moreSeparated first => simpa [nextOf] using first.declarator_starts _

theorem Derives.functionName_starts (derived : Derives levels .functionName [tree] next)
    (after : Token) : (nextOf [tree] after).kind ≠ .leftParen := by
  cases derived with
  | plainName isName => simp [isName]
  | rootedName areColons => simp [areColons]

/-- Categories whose trees are expressions, or parts of one that start with an operand. -/
def Category.isExpression : Category → Bool
  | .deeper category => category.isExpression
  | .expression | .ternary | .binary _ | .infixes _ | .unary | .operand | .suffixes | .primary =>
    true
  | _ => false

def OpensFunction (trees : List Tree) : Prop :=
  ∃ keyword opener more, tokensOf trees = keyword :: opener :: more ∧ opener.kind = .leftParen

theorem OpensFunction.append {front trees : List Tree} (opens : OpensFunction front)
    (starts : tokensOf front <+: tokensOf trees) : OpensFunction trees := by
  obtain ⟨keyword, opener, more, split, isOpener⟩ := opens
  obtain ⟨tokens, whole⟩ := starts
  exact ⟨keyword, opener, more ++ tokens, by rw [← whole, split]; rfl, isOpener⟩

theorem Derives.opensFunction {category : Category} {trees : List Tree}
    (derived : Derives levels category trees next) (isExpression : category.isExpression)
    (starts : (nextOf trees next).kind = .kwFunction) : OpensFunction trees := by
  induction derived with
  | deeper _ ih => exact ih isExpression starts
  | reference isName => simp [nextOf, isName] at starts
  | thisObject isWord => simp [nextOf, isWord] at starts
  | baseObject isWord => simp [nextOf, isWord] at starts
  | literal isLiteral =>
    rw [Tree.nextOf_node, Tree.nextOf_leaf] at starts
    rw [starts] at isLiteral
    exact absurd isLiteral (by decide)
  | malformed isError => simp [nextOf, isError] at starts
  | rootReference areColons => simp [nextOf, areColons] at starts
  | parenthesized inside =>
    cases inside with
    | parentheses opens => simp [nextOf, opens] at starts
  | array opens => simp [nextOf, opens] at starts
  | table opens => simp [nextOf, opens] at starts
  | @functionLiteral _ _ list body keyword _ head =>
    obtain ⟨opener, more, split, opens⟩ := head.parameters_open
    refine ⟨keyword, opener, more ++ tokensOf [body], ?_, opens⟩
    have whole : tokensOf [.node .functionLiteral [.leaf keyword, list, body]] =
        keyword :: (tokensOf [list] ++ tokensOf [body]) := by simp
    rw [whole, split, List.cons_append]
  | lambdaBlock isSign => simp [nextOf, isSign] at starts
  | lambda isSign => simp [nextOf, isSign] at starts
  | plainOperand _ ih => exact ih rfl starts
  | member _ _ _ ih => exact (ih rfl (by simpa [nextOf] using starts)).append (by simp)
  | call _ _ ih =>
    exact (ih rfl (by simpa [nextOf, tokens_makeCall] using starts)).append
      (by simp [tokens_makeCall])
  | index _ _ _ _ _ ih => exact (ih rfl (by simpa [nextOf] using starts)).append (by simp)
  | postUpdate _ _ _ ih => exact (ih rfl (by simpa [nextOf] using starts)).append (by simp)
  | operand _ _ ih => exact ih rfl starts
  | unaryOperator isOperator =>
    rw [Tree.nextOf_node, Tree.nextOf_leaf] at starts
    rw [starts] at isOperator
    exact absurd isOperator (by decide)
  | unaryOperand _ _ ih => exact ih rfl starts
  | firstOperand _ ih => exact ih rfl starts
  | infixOperator _ _ _ _ ih =>
    exact (ih rfl (by simpa [nextOf] using starts)).append (by simp)
  | binary _ _ ih => exact ih rfl starts
  | noChoice _ _ ih => exact ih rfl starts
  | choice _ _ _ _ _ ih => exact (ih rfl (by simpa [nextOf] using starts)).append (by simp)
  | noAssignment _ _ ih => exact ih rfl starts
  | assignment _ _ _ ih => exact (ih rfl (by simpa [nextOf] using starts)).append (by simp)
  | _ => simp [Category.isExpression] at isExpression

variable {rules : Rules}

theorem accepts_localStatement {declarators ending : List Tree} {keyword : Token}
    (isWord : keyword.kind = .kwLocal)
    (starts : ∀ after, (nextOf declarators after).kind = .identifier)
    (read : Accepts (localDeclaration rules)
      (keyword :: (tokensOf declarators ++ tokensOf ending)) tree next) :
    Accepts (statement rules) (keyword :: (tokensOf declarators ++ tokensOf ending)) tree next := by
  refine accepts_statement read ?_
  have isName : ((tokensOf declarators ++ tokensOf ending).headD next).kind = .identifier := by
    rw [headD_append]
    exact starts _
  simp only [statementFrom, isWord, isName]
  exact if_neg (by decide)

theorem accepts_functionStatement {name : Tree} {scope tokens : List Token} {keyword : Token}
    (placed : scope = [] ∨ ∃ word : Token, word.kind = .kwLocal ∧ scope = [word])
    (isWord : keyword.kind = .kwFunction)
    (starts : ∀ after, (nextOf [name] after).kind ≠ .leftParen)
    (read : Accepts (functionDeclaration rules) (scope ++ keyword :: (tokensOf [name] ++ tokens))
      tree next) :
    Accepts (statement rules) (scope ++ keyword :: (tokensOf [name] ++ tokens)) tree next := by
  rcases placed with rfl | ⟨word, isLocal, rfl⟩
  · refine accepts_statement read ?_
    have named : ((tokensOf [name] ++ tokens).headD next).kind ≠ .leftParen := by
      rw [headD_append]
      exact starts _
    simp only [statementFrom, isWord]
    exact if_neg (by simpa using named)
  · refine accepts_statement read ?_
    simp only [statementFrom, isLocal]
    exact if_pos (congrArg some isWord)

theorem accepts_plainStatement {value : Tree} {after : Token} (present : tokensOf [value] ≠ [])
    (plain : leadsStatement (nextOf [value] after).kind = false)
    (unnamed : (nextOf [value] after).kind = .kwFunction → OpensFunction [value])
    (read : Accepts (expressionStatement rules) (tokensOf [value] ++ tokens) tree next) :
    Accepts (statement rules) (tokensOf [value] ++ tokens) tree next := by
  obtain ⟨first, more, split⟩ := List.exists_cons_of_ne_nil present
  have starts : nextOf [value] after = first := by rw [nextOf, split]; rfl
  rw [starts] at plain unnamed
  rw [split] at read ⊢
  refine accepts_statement read (statementFrom_expression plain fun isWord => ?_)
  obtain ⟨keyword, opener, others, shape, opens⟩ := unnamed isWord
  rw [split, List.cons.injEq] at shape
  rw [shape.2]
  exact congrArg some opens

end Starts

section Rules

def ruleOf? (levels : Nat) : Category → Option (Rule Tree)
  | .deeper .statement => some (rules levels).statement
  | .deeper .expression => some (rules levels).expression
  | .deeper .ternary => some (rules levels).ternary
  | .deeper (.binary least) => some ((rules levels).binary least)
  | .deeper .unary => some (rules levels).unary
  | .statement => some (statement (rules levels))
  | .unit => some (recovering (rules levels).statement skipFailedStatement)
  | .block => some (block (rules levels))
  | .clause => some (switchClause (rules levels))
  | .caseBody => some (caseBody (rules levels))
  | .declarator => some (declarator (rules levels))
  | .functionName => some functionName
  | .expression => some (expression (rules levels))
  | .ternary => some (ternary (rules levels))
  | .binary least => some (binary (rules levels) least)
  | .unary => some (unary (rules levels))
  | .operand => some (suffixed (rules levels))
  | .primary => some (primary (rules levels))
  | .arguments => some (arguments (rules levels))
  | .parameters => some (parameters (rules levels))
  | .parameter => some (parameter (rules levels))
  | .entry => some (recovering (tableEntry (rules levels)) skipFailedEntry)
  | _ => none

/-- What the rule for a category does in front of the tokens of these trees. -/
def Parses (levels : Nat) (trees : List Tree) (next : Token) : Category → Prop
  | .suffixes => ∀ tree, trees = [tree] →
      Arrives (suffixed (rules levels)) (suffixStep (rules levels)) tree next
  | .infixes least => ∀ tree, trees = [tree] →
      Arrives (binary (rules levels) least) (binaryStep (rules levels) least) tree next
  | .separated item => ∀ rule ∈ ruleOf? levels item, Lists rule trees next
  | .parameterList => ListsParameters (rules levels) trees next
  | .items =>
      Repeats (elementRound (rules levels).expression [.rightBracket, .endOfInput]) trees next
  | .entries =>
      Repeats (elementRound (recovering (tableEntry (rules levels)) skipFailedEntry)
        [.rightBrace, .endOfInput]) trees next
  | .statements closers => Repeats (statementRound (rules levels) closers) trees next
  | .clauses => Repeats (clauseRound (rules levels)) trees next
  | .namePath => Repeats pathRound trees next
  | .parentheses => AcceptsRun (parentheses (rules levels)) trees next
  | .ending => AcceptsRun endStatement trees next
  | .forInit => AcceptsRun (forInit (rules levels)) trees next
  | .optionalExpression closer => AcceptsRun (optionalExpression (rules levels) closer) trees next
  | category => ∀ rule ∈ ruleOf? levels category, ∀ tree, trees = [tree] → AcceptsTree rule tree next

variable {levels : Nat} {category : Category} {trees : List Tree} {tree : Tree} {next : Token}
  {rule : Rule Tree}

theorem Parses.accepts (parses : Parses levels [tree] next category)
    (isRule : ruleOf? levels category = some rule := by rfl) : AcceptsTree rule tree next := by
  cases category <;> first | cases isRule; done | exact parses rule isRule tree rfl

theorem ruleOf?_deeper (isRule : ruleOf? (levels + 1) category.deeper = some rule) :
    ruleOf? levels category = some rule := by
  cases category <;> first | cases isRule; done | exact isRule

theorem Parses.intro (isRule : ruleOf? levels category = some rule)
    (read : Accepts rule tokens tree next) (shape : tokensOf [tree] = tokens := by simp) :
    Parses levels [tree] next category := by
  subst shape
  have whole : ∀ other ∈ ruleOf? levels category, ∀ same, [tree] = [same] →
      AcceptsTree other same next := by
    intro other isOther same equal
    cases isRule.symm.trans isOther
    cases equal
    exact read
  cases category <;> first | cases isRule; done | exact whole

theorem errors_makeCall (callee list : Tree) :
    (makeCall callee list).errors = callee.errors + list.errors := by
  rcases label_makeCall callee list with shape | shape <;> simp [shape, Tree.errors_node]

theorem errors_child {label : Label} {children : List Tree}
    (clean : Tree.errorsOf [.node label children] = 0) : Tree.errorsOf children = 0 := by
  rw [Tree.errorsOf_cons, Tree.errors_node] at clean
  omega

theorem AcceptsRun.intro {run : Rule (List Tree)} (read : Accepts run tokens trees next)
    (shape : tokensOf trees = tokens := by simp) :
    AcceptsRun run trees next := by
  subst shape
  exact read

attribute [local simp] Tree.errors_node

theorem Derives.parses (derived : Derives levels category trees next)
    (clean : Tree.errorsOf trees = 0) : Parses levels trees next category := by
  induction derived with
  | deeper inner ih =>
    intro rule isRule tree same
    subst same
    exact (ih clean).accepts (ruleOf?_deeper isRule)
  | reference isName =>
    exact .intro rfl (accepts_primary accepts_single)
  | thisObject isWord =>
    exact .intro rfl (accepts_primary accepts_single)
  | baseObject isWord =>
    exact .intro rfl (accepts_primary accepts_single)
  | literal isLiteral =>
    exact .intro rfl (accepts_primary accepts_single (primaryFrom_literal isLiteral))
  | malformed isError =>
    exact .intro rfl (accepts_primary accepts_single)
  | rootReference areColons isName =>
    exact .intro rfl (accepts_primary (accepts_rootReference isName))
  | parentheses opens between closes ih =>
    have inner := (ih (by simpa using clean)).accepts
    exact AcceptsRun.intro (accepts_parentheses opens inner closes)
  | parenthesized inside ih =>
    have read : AcceptsRun _ _ _ := ih (errors_child clean)
    cases inside with
    | parentheses opens => exact .intro rfl (accepts_parenthesized opens read)
  | array opens between closes ih =>
    have items := ih (by simpa using clean)
    exact .intro rfl (accepts_primary (accepts_array opens items closes))
  | table opens between closes ih =>
    have entries := ih (by simpa using clean)
    exact .intro rfl (accepts_primary (accepts_table opens entries closes))
  | functionLiteral isWord head inside headIh insideIh =>
    have list := (headIh (by simp_all)).accepts
    have body := (insideIh (by simp_all)).accepts
    exact .intro rfl (accepts_primary (accepts_functionLiteral list body))
  | lambdaBlock isSign head inside headIh insideIh =>
    have list := (headIh (by simp_all)).accepts
    have body := (insideIh (by simp_all)).accepts
    exact .intro rfl (accepts_primary
      (accepts_lambdaBlock isSign list inside.block_label (inside.block_opens _) body))
  | lambda isSign head noBlock inside headIh insideIh =>
    have children := errors_child clean
    have list := (headIh (by simp_all)).accepts
    have body := (insideIh (by simp_all)).accepts
    exact .intro rfl (accepts_primary (accepts_lambda isSign list noBlock body))
  | plainOperand start ih =>
    rintro tree ⟨⟩
    exact arrives_start (ih clean).accepts
  | member object isDot isName ih =>
    rintro tree ⟨⟩
    have arrives := ih (by simpa using clean) _ rfl
    exact arrives.grow (accepts_member isDot isName) (by simp) (by simp)
  | call called given calledIh givenIh =>
    rintro tree ⟨⟩
    have arrives := calledIh (by simp_all [errors_makeCall]) _ rfl
    have list := (givenIh (by simp_all [errors_makeCall])).accepts
    exact arrives.grow (accepts_call (given.arguments_open _) list) given.full
      (by simp [tokens_makeCall])
  | index object opens sameLine between closes objectIh ih =>
    rintro tree ⟨⟩
    have arrives := objectIh (by simp_all) _ rfl
    have key := (ih (by simp_all)).accepts
    exact arrives.grow (accepts_index opens sameLine key closes) (by simp) (by simp)
  | postUpdate updated isUpdate sameLine ih =>
    rintro tree ⟨⟩
    have arrives := ih (by simpa using clean) _ rfl
    exact arrives.grow (accepts_postUpdate isUpdate sameLine) (by simp) (by simp)
  | operand chain ends ih =>
    exact .intro rfl ((ih clean _ rfl).stop (accepts_noSuffix ends)) rfl
  | unaryOperator isOperator applied ih =>
    have operand := (ih (by simpa using clean)).accepts
    exact .intro rfl (accepts_unaryOperator isOperator operand)
  | unaryOperand plain operand ih =>
    exact .intro rfl (accepts_unaryOperand plain (ih clean).accepts) rfl
  | firstOperand start ih =>
    rintro tree ⟨⟩
    exact arrives_start (ih clean).accepts
  | infixOperator start binds tight applied startIh ih =>
    rintro tree ⟨⟩
    have children := errors_child clean
    have arrives := startIh (by simp_all) _ rfl
    have right := (ih (by simp_all)).accepts
    exact arrives.grow (accepts_infixOperator binds tight right) (by simp) (by simp)
  | binary chain ends ih =>
    exact .intro rfl ((ih clean _ rfl).stop (accepts_noInfix ends)) rfl
  | noChoice condition ends ih =>
    exact .intro rfl (accepts_noChoice (ih clean).accepts ends) rfl
  | choice tested asks either parts other testedIh eitherIh otherIh =>
    have condition := (testedIh (by simp_all)).accepts
    have first := (eitherIh (by simp_all)).accepts
    have second := (otherIh (by simp_all)).accepts
    exact .intro rfl (accepts_choice condition asks first parts second)
  | noAssignment value ends ih =>
    exact .intro rfl (accepts_noAssignment (ih clean).accepts ends) rfl
  | assignment assigned isOperator given assignedIh givenIh =>
    have children := errors_child clean
    have target := (assignedIh (by simp_all)).accepts
    have value := (givenIh (by simp_all)).accepts
    exact .intro rfl (accepts_assignment target isOperator value)
  | lastSeparated last ends ih =>
    intro rule isRule
    exact lists_one ((ih clean).accepts isRule) ends
  | moreSeparated first isComma others firstIh othersIh =>
    intro rule isRule
    have item := (firstIh (by simp_all)).accepts isRule
    exact lists_cons item isComma (othersIh (by simp_all) rule isRule)
  | noArguments opens closes => exact .intro rfl (accepts_noArguments opens closes)
  | arguments opens present between closes ih =>
    have values := ih (by simpa using clean) _ rfl
    exact .intro rfl (accepts_arguments opens present values closes)
  | variadic areDots => exact .intro rfl (accepts_variadic areDots)
  | parameter isName ends => exact .intro rfl (accepts_parameter isName ends)
  | parameterDefault isName isAssign given ih =>
    have value := (ih (by simpa using clean)).accepts
    exact .intro rfl (accepts_parameterDefault isName isAssign value)
  | noParameter ends => exact listsParameters_nil ends
  | lastParameter last ends ih =>
    exact listsParameters_one (last.parameter_starts _) last.full (ih clean).accepts
      ends
  | moreParameters first isComma others firstIh othersIh =>
    have one := (firstIh (by simp_all)).accepts
    exact listsParameters_cons (first.parameter_starts _) one isComma (othersIh (by simp_all))
  | parameters opens between closes ih =>
    have list := ih (by simpa using clean)
    exact .intro rfl (accepts_parameters opens list closes)
  | noItem ends => exact repeats_noElement ends
  | item goesOn first noComma others firstIh othersIh =>
    have one := (firstIh (by simp_all)).accepts
    exact repeats_element goesOn first.full one noComma (othersIh (by simp_all))
  | itemComma goesOn first isComma others firstIh othersIh =>
    have one := (firstIh (by simp_all)).accepts
    exact repeats_elementComma goesOn one isComma (othersIh (by simp_all))
  | noEntry ends => exact repeats_noElement ends
  | oneEntry goesOn first noComma others firstIh othersIh =>
    have one := (firstIh (by simp_all)).accepts
    exact repeats_element goesOn first.full one noComma (othersIh (by simp_all))
  | entryComma goesOn first isComma others firstIh othersIh =>
    have one := (firstIh (by simp_all)).accepts
    exact repeats_elementComma goesOn one isComma (othersIh (by simp_all))
  | slot isName isAssign given ih =>
    have value := (ih (by simpa using clean)).accepts
    exact .intro rfl (accepts_recovering (accepts_slot isName isAssign value))
  | quotedSlot isString isColon given ih =>
    have value := (ih (by simpa using clean)).accepts
    exact .intro rfl (accepts_recovering (accepts_quotedSlot isString isColon value))
  | computedSlot opens named closes isAssign given namedIh givenIh =>
    have key := (namedIh (by simp_all)).accepts
    have value := (givenIh (by simp_all)).accepts
    exact .intro rfl (accepts_recovering (accepts_computedSlot opens key closes isAssign value))
  | method isWord isName head inside headIh insideIh =>
    have list := (headIh (by simp_all)).accepts
    have body := (insideIh (by simp_all)).accepts
    exact .intro rfl (accepts_recovering (accepts_method isWord isName list body))
  | skippedEntry present => simp [errorNode] at clean
  | noStatement ends => exact repeats_noStatement ends
  | statements goesOn isOpen first others firstIh othersIh =>
    have one := (firstIh (by simp_all)).accepts
    exact repeats_statement goesOn isOpen first.full one (othersIh (by simp_all))
  | unit sound ih => exact .intro rfl (accepts_recovering (ih clean).accepts) rfl
  | skippedUnit present => simp [errorNode] at clean
  | block opens between closes ih =>
    have body := ih (by simpa using clean)
    exact .intro rfl (accepts_block opens body closes)
  | semicolon isSemicolon => exact AcceptsRun.intro (accepts_semicolon isSemicolon)
  | noSemicolon missing ends => exact AcceptsRun.intro (accepts_noSemicolon missing ends)
  | blockStatement inside ih =>
    obtain ⟨opener, more, split, opens⟩ := inside.block_shape
    have read := (ih clean).accepts
    rw [AcceptsTree, split] at read
    exact .intro rfl (accepts_statement read) split
  | emptyStatement isSemicolon =>
    exact .intro rfl (accepts_statement accepts_single)
  | ifStatement isWord tested governed ends testedIh governedIh =>
    have condition := testedIh (by simp_all)
    have body := (governedIh (by simp_all)).accepts
    exact .intro rfl (accepts_statement (accepts_ifStatement isWord condition body ends))
  | ifElseStatement isWord tested governed isElse alternative testedIh governedIh otherIh =>
    have condition := testedIh (by simp_all)
    have first := (governedIh (by simp_all)).accepts
    have second := (otherIh (by simp_all)).accepts
    exact .intro rfl (accepts_statement
      (accepts_ifElseStatement isWord condition first isElse second))
  | whileStatement isWord tested governed testedIh governedIh =>
    have condition := testedIh (by simp_all)
    have body := (governedIh (by simp_all)).accepts
    exact .intro rfl (accepts_statement (accepts_whileStatement isWord condition body))
  | doWhileStatement isWord governed isWhile tested ends governedIh testedIh endsIh =>
    have body := (governedIh (by simp_all)).accepts
    have condition := testedIh (by simp_all)
    have ending := endsIh (by simp_all)
    exact .intro rfl (accepts_statement
      (accepts_doWhileStatement isWord body isWhile condition ending))
  | declarator isName ends => exact .intro rfl (accepts_declarator isName ends)
  | declaratorValue isName isAssign given ih =>
    have value := (ih (by simpa using clean)).accepts
    exact .intro rfl (accepts_declaratorValue isName isAssign value)
  | localDeclaration isWord declared ends declaredIh endsIh =>
    have declarators := declaredIh (by simp_all) _ rfl
    have ending := endsIh (by simp_all)
    exact .intro rfl (accepts_localStatement isWord declared.declarators_start
      (accepts_localDeclaration isWord declarators ending))
  | constDeclaration isWord isName isAssign given ends givenIh endsIh =>
    have value := (givenIh (by simp_all)).accepts
    have ending := endsIh (by simp_all)
    exact .intro rfl (accepts_statement
      (accepts_constDeclaration isWord isName isAssign value ending))
  | forLocal isWord declared ih =>
    have declarators := ih (by simpa using clean) _ rfl
    exact AcceptsRun.intro (accepts_forLocal isWord declarators)
  | forNothing ends => exact AcceptsRun.intro (accepts_forNothing ends)
  | forExpression noLocal present value ih =>
    exact accepts_forExpression noLocal present (ih clean).accepts
  | noExpression ends => exact AcceptsRun.intro (accepts_noExpression ends)
  | someExpression present value ih =>
    exact accepts_someExpression present (ih clean).accepts
  | forStatement isWord opens starts firstIs tested secondIs stepped closes governed
      startsIh testedIh steppedIh governedIh =>
    have init := startsIh (by simp_all)
    have condition := testedIh (by simp_all)
    have step := steppedIh (by simp_all)
    have body := (governedIh (by simp_all)).accepts
    exact .intro rfl (accepts_statement
      (accepts_forStatement isWord opens init firstIs condition secondIs step closes body))
  | foreachStatement isWord opens named isIn iterated closes governed iteratedIh governedIh =>
    have container := (iteratedIh (by simp_all)).accepts
    have body := (governedIh (by simp_all)).accepts
    exact .intro rfl (accepts_statement
      (accepts_foreachStatement isWord opens named isIn container closes body))
  | caseBody inside ih => exact .intro rfl (accepts_caseBody (ih (errors_child clean)))
  | caseClause isWord compared isColon inside comparedIh insideIh =>
    have value := (comparedIh (by simp_all)).accepts
    have body := (insideIh (by simp_all)).accepts
    exact .intro rfl (accepts_caseClause isWord value isColon body)
  | defaultClause isWord isColon inside ih =>
    have body := (ih (by simpa using clean)).accepts
    exact .intro rfl (accepts_defaultClause isWord isColon body)
  | noClause ends => exact repeats_noClause ends
  | clauses goesOn first others firstIh othersIh =>
    have one := (firstIh (by simp_all)).accepts
    exact repeats_clause goesOn first.full one (othersIh (by simp_all))
  | switchStatement isWord tested opens between closes testedIh ih =>
    have subject := testedIh (by simp_all)
    have clauses := ih (by simp_all)
    exact .intro rfl (accepts_statement
      (accepts_switchStatement isWord subject opens clauses closes))
  | tryStatement isWord governed isCatch opens isName closes handled governedIh handledIh =>
    have body := (governedIh (by simp_all)).accepts
    have handler := (handledIh (by simp_all)).accepts
    exact .intro rfl (accepts_statement
      (accepts_tryStatement isWord body isCatch opens isName closes handler))
  | pathEnd ends => exact repeats_pathEnd ends
  | pathStep separates isName others ih =>
    exact repeats_pathStep separates isName (ih (by simpa using clean))
  | plainName isName goesOn ih =>
    have path := ih (by simpa using clean)
    exact .intro rfl (accepts_plainName isName path)
  | rootedName areColons isName goesOn ih =>
    have path := ih (by simpa using clean)
    exact .intro rfl (accepts_rootedName areColons isName path)
  | functionDeclaration placed isWord named head inside ends namedIh headIh insideIh =>
    have name := (namedIh (by simp_all)).accepts
    have list := (headIh (by simp_all)).accepts
    have body := (insideIh (by simp_all)).accepts
    exact .intro rfl (accepts_functionStatement placed isWord named.functionName_starts
      (accepts_functionDeclaration placed isWord name list body ends))
  | @returnNothing levels _ _ _ isWord nothing ends ih =>
    have ending := ih (by simpa using clean)
    exact .intro rfl (accepts_statement
      (@accepts_returnNothing (rules levels) _ _ _ isWord nothing ending))
  | returnValue isWord present given ends givenIh endsIh =>
    have value := (givenIh (by simp_all)).accepts
    have ending := endsIh (by simp_all)
    exact .intro rfl (accepts_statement (accepts_returnValue isWord present value ending))
  | breakStatement isWord ends ih =>
    have ending := ih (by simpa using clean)
    exact .intro rfl (accepts_statement (accepts_jump ending))
  | continueStatement isWord ends ih =>
    have ending := ih (by simpa using clean)
    exact .intro rfl (accepts_statement (accepts_jump ending))
  | throwStatement isWord thrown ends thrownIh endsIh =>
    have value := (thrownIh (by simp_all)).accepts
    have ending := endsIh (by simp_all)
    exact .intro rfl (accepts_statement (accepts_throwStatement value ending))
  | expressionStatement plain evaluated ends evaluatedIh endsIh =>
    have value := (evaluatedIh (by simp_all)).accepts
    have ending := endsIh (by simp_all)
    exact .intro rfl (accepts_plainStatement evaluated.full plain
      (evaluated.opensFunction rfl) (accepts_expressionStatement value ending))

end Rules

/-- A run of statements that the grammar derives without an error is what its tokens are read
as. -/
theorem parseTokens_of_derives [NestingLimit] {trees : List Tree} {last : Token}
    (derived : Derives nestingLimit (.statements []) trees last) (clean : Tree.errorsOf trees = 0) :
    parseTokens (tokensOf trees ++ [last]) = ⟨.node .program (trees ++ [.leaf last]), []⟩ := by
  have repeats : Repeats (statementRound allRules []) trees last := derived.parses clean
  have read : statements allRules [] (.ofTokens (tokensOf trees ++ [last])) =
      .ok trees ⟨[last], []⟩ := repeats.many [] []
  simp [parseTokens, program, read]

end Squirrel.Grammar
