import Squirrel.Grammar.Program

/-! The grammar as a relation between runs of trees and the token after them. -/

namespace Squirrel

namespace Tree

def nextOf (trees : List Tree) (next : Token) : Token := (tokensOf trees).headD next

mutual

def errors : Tree → Nat
  | .leaf _ => 0
  | .node label children => (if label = .error then 1 else 0) + errorsOf children

def errorsOf : List Tree → Nat
  | [] => 0
  | tree :: trees => tree.errors + errorsOf trees

end

@[simp] theorem tokensOf_nil : tokensOf [] = [] := by rw [tokensOf]

@[simp] theorem tokensOf_cons (tree : Tree) (trees : List Tree) :
    tokensOf (tree :: trees) = tree.tokens ++ tokensOf trees := by rw [tokensOf]

@[simp] theorem tokens_leaf (token : Token) : (leaf token).tokens = [token] := by rw [tokens]

@[simp] theorem tokens_node (label : Label) (children : List Tree) :
    (node label children).tokens = tokensOf children := by rw [tokens]

@[simp] theorem tokensOf_append (first second : List Tree) :
    tokensOf (first ++ second) = tokensOf first ++ tokensOf second := by
  induction first with
  | nil => rfl
  | cons tree first ih => simp [ih]

theorem mem_tokensOf {tree : Tree} {trees : List Tree} {token : Token} (member : tree ∈ trees)
    (inside : token ∈ tree.tokens) : token ∈ tokensOf trees := by
  induction trees with
  | nil => cases member
  | cons other trees ih =>
    rw [tokensOf_cons, List.mem_append]
    rcases List.mem_cons.1 member with rfl | member
    · exact .inl inside
    · exact .inr (ih member)

@[simp] theorem tokensOf_leaves (tokens : List Token) : tokensOf (tokens.map .leaf) = tokens := by
  induction tokens with
  | nil => rfl
  | cons token tokens ih => simp [ih]

@[simp] theorem errorsOf_nil : errorsOf [] = 0 := by rw [errorsOf]

@[simp] theorem errorsOf_cons (tree : Tree) (trees : List Tree) :
    errorsOf (tree :: trees) = tree.errors + errorsOf trees := by rw [errorsOf]

@[simp] theorem errors_leaf (token : Token) : (leaf token).errors = 0 := by rw [errors]

theorem errors_node (label : Label) (children : List Tree) :
    (node label children).errors = (if label = .error then 1 else 0) + errorsOf children := by
  rw [errors]

@[simp] theorem errorsOf_append (first second : List Tree) :
    errorsOf (first ++ second) = errorsOf first + errorsOf second := by
  induction first with
  | nil => simp
  | cons tree first ih => simp [ih, Nat.add_assoc]

@[simp] theorem errorsOf_leaves (tokens : List Token) : errorsOf (tokens.map .leaf) = 0 := by
  induction tokens with
  | nil => rfl
  | cons token tokens ih => simp [ih]

theorem errorsOf_eq_zero (trees : List Tree) :
    errorsOf trees = 0 ↔ ∀ tree ∈ trees, tree.errors = 0 := by
  induction trees with
  | nil => simp
  | cons tree trees ih => simp [ih]

@[simp] theorem nextOf_nil (next : Token) : nextOf [] next = next := by simp [nextOf]

@[simp] theorem nextOf_leaf (token : Token) (trees : List Tree) (next : Token) :
    nextOf (.leaf token :: trees) next = token := by simp [nextOf]

@[simp] theorem nextOf_node (label : Label) (children : List Tree) (next : Token) :
    nextOf [.node label children] next = nextOf children next := by simp [nextOf]

end Tree

namespace Grammar

/-- What a run of trees is read as. `deeper` is one level of nesting deeper. -/
inductive Category where
  | deeper (category : Category)
  | statement | unit | statements (closers : List Kind) | block | ending
  | clauses | clause | caseBody | forInit | optionalExpression (closer : Kind)
  | declarator | separated (item : Category) | functionName | namePath
  | expression | ternary | binary (least : Nat) | infixes (least : Nat) | unary | operand
  | suffixes | primary | parentheses | arguments | parameters | parameterList | parameter
  | items | entries | entry

/-- Kinds of the tokens that a statement other than an expression starts with. -/
def leadsStatement : Kind → Bool
  | .leftBrace | .semicolon | .kwIf | .kwWhile | .kwDo | .kwFor | .kwForeach | .kwSwitch | .kwTry
  | .kwLocal | .kwConst | .kwReturn | .kwBreak | .kwContinue | .kwThrow => true
  | _ => false

def extendsOperand (token : Token) : Bool :=
  match token.kind with
  | .dot | .leftParen => true
  | .leftBracket | .increment | .decrement => !token.startsLine
  | _ => false

/-- Whether a token is an infix operator that binds at least as tightly as `least`. -/
def extendsInfix (least : Nat) (token : Token) : Bool := token.kind.precedence?.any (least ≤ ·)

def endsStatement (token : Token) : Bool :=
  [Kind.rightBrace, .endOfInput].contains token.kind || token.startsLine

def endsReturn (token : Token) : Bool :=
  [Kind.semicolon, .rightBrace, .endOfInput].contains token.kind || token.startsLine

def closesFunction (token : Token) : Bool := token.kind = .semicolon && !token.startsLine

def lambdaLabel (list body : Tree) : Label :=
  if parameterNames list = [some hookParameter] ∧ body.hasLabel .functionLiteral then .hookWrapper
  else .lambdaLiteral

def assignmentLabel (operator : Kind) : Label :=
  if operator = .newSlot then .newSlot else .assign

def LoopNames (names : List Tree) : Prop :=
  (∃ name : Token, name.kind = .identifier ∧ names = [.leaf name]) ∨
    ∃ key comma value : Token, key.kind = .identifier ∧ comma.kind = .comma ∧
      value.kind = .identifier ∧ names = [.leaf key, .leaf comma, .leaf value]

open Squirrel.Tree (nextOf)

/-- `Derives levels category trees next`: within a number of levels of nesting, `trees` are read as
`category` in front of the token `next`. -/
inductive Derives : Nat → Category → List Tree → Token → Prop where
  | deeper {levels category trees next}
      (inner : Derives levels category trees next) :
      Derives (levels + 1) (.deeper category) trees next

  -- expressions
  | reference {levels next} {name : Token} (isName : name.kind = .identifier) :
      Derives levels .primary [.node .reference [.leaf name]] next
  | thisObject {levels next} {word : Token} (isWord : word.kind = .kwThis) :
      Derives levels .primary [.node .thisObject [.leaf word]] next
  | baseObject {levels next} {word : Token} (isWord : word.kind = .kwBase) :
      Derives levels .primary [.node .baseObject [.leaf word]] next
  | literal {levels next} {word : Token} (isLiteral : word.kind.isLiteral) :
      Derives levels .primary [.node .literal [.leaf word]] next
  | malformed {levels next} {word : Token} (isError : word.kind = .error) :
      Derives levels .primary [.node .error [.leaf word]] next
  | rootReference {levels next} {colons name : Token} (areColons : colons.kind = .doubleColon)
      (isName : name.kind = .identifier) :
      Derives levels .primary [.node .rootReference [.leaf colons, .leaf name]] next
  | parentheses {levels next inner} {opener closer : Token} (opens : opener.kind = .leftParen)
      (between : Derives levels (.deeper .expression) [inner] closer)
      (closes : closer.kind = .rightParen) :
      Derives levels .parentheses [.leaf opener, inner, .leaf closer] next
  | parenthesized {levels next trees} (inside : Derives levels .parentheses trees next) :
      Derives levels .primary [.node .parenthesized trees] next
  | array {levels next items} {opener closer : Token} (opens : opener.kind = .leftBracket)
      (between : Derives levels .items items closer) (closes : closer.kind = .rightBracket) :
      Derives levels .primary [.node .array (.leaf opener :: items ++ [.leaf closer])] next
  | table {levels next entries} {opener closer : Token} (opens : opener.kind = .leftBrace)
      (between : Derives levels .entries entries closer) (closes : closer.kind = .rightBrace) :
      Derives levels .primary [.node .table (.leaf opener :: entries ++ [.leaf closer])] next
  | functionLiteral {levels next list body} {keyword : Token} (isWord : keyword.kind = .kwFunction)
      (head : Derives levels .parameters [list] (nextOf [body] next))
      (inside : Derives levels .block [body] next) :
      Derives levels .primary [.node .functionLiteral [.leaf keyword, list, body]] next
  | lambdaBlock {levels next list body} {sign : Token} (isSign : sign.kind = .atSign)
      (head : Derives levels .parameters [list] (nextOf [body] next))
      (inside : Derives levels .block [body] next) :
      Derives levels .primary [.node .lambdaLiteral [.leaf sign, list, body]] next
  | lambda {levels next list body} {sign : Token} (isSign : sign.kind = .atSign)
      (head : Derives levels .parameters [list] (nextOf [body] next))
      (noBlock : (nextOf [body] next).kind ≠ .leftBrace)
      (inside : Derives levels (.deeper .expression) [body] next) :
      Derives levels .primary [.node (lambdaLabel list body) [.leaf sign, list, body]] next
  | plainOperand {levels next tree} (start : Derives levels .primary [tree] next) :
      Derives levels .suffixes [tree] next
  | member {levels next operand} {dot name : Token}
      (object : Derives levels .suffixes [operand] dot) (isDot : dot.kind = .dot)
      (isName : name.kind = .identifier) :
      Derives levels .suffixes [.node .member [operand, .leaf dot, .leaf name]] next
  | call {levels next operand list}
      (called : Derives levels .suffixes [operand] (nextOf [list] next))
      (given : Derives levels .arguments [list] next) :
      Derives levels .suffixes [makeCall operand list] next
  | index {levels next operand key} {opener closer : Token}
      (object : Derives levels .suffixes [operand] opener) (opens : opener.kind = .leftBracket)
      (sameLine : opener.startsLine = false)
      (between : Derives levels (.deeper .expression) [key] closer)
      (closes : closer.kind = .rightBracket) :
      Derives levels .suffixes [.node .index [operand, .leaf opener, key, .leaf closer]] next
  | postUpdate {levels next operand} {operator : Token}
      (updated : Derives levels .suffixes [operand] operator)
      (isUpdate : operator.kind = .increment ∨ operator.kind = .decrement)
      (sameLine : operator.startsLine = false) :
      Derives levels .suffixes [.node .postUpdate [operand, .leaf operator]] next
  | operand {levels next tree} (chain : Derives levels .suffixes [tree] next)
      (ends : extendsOperand next = false) :
      Derives levels .operand [tree] next
  | unaryOperator {levels next operand} {operator : Token}
      (isOperator : operator.kind.isUnary)
      (applied : Derives levels (.deeper .unary) [operand] next) :
      Derives levels .unary [.node .unary [.leaf operator, operand]] next
  | unaryOperand {levels next tree} (plain : (nextOf [tree] next).kind.isUnary = false)
      (operand : Derives levels .operand [tree] next) :
      Derives levels .unary [tree] next
  | firstOperand {levels least next tree} (start : Derives levels .unary [tree] next) :
      Derives levels (.infixes least) [tree] next
  | infixOperator {levels least precedence next left right} {operator : Token}
      (start : Derives levels (.infixes least) [left] operator)
      (binds : operator.kind.precedence? = some precedence) (tight : least ≤ precedence)
      (applied : Derives levels (.deeper (.binary (precedence + 1))) [right] next) :
      Derives levels (.infixes least)
        [.node (operatorLabel operator.kind) [left, .leaf operator, right]] next
  | binary {levels least next tree} (chain : Derives levels (.infixes least) [tree] next)
      (ends : extendsInfix least next = false) :
      Derives levels (.binary least) [tree] next
  | noChoice {levels next tree} (condition : Derives levels (.binary 1) [tree] next)
      (ends : next.kind ≠ .question) :
      Derives levels .ternary [tree] next
  | choice {levels next condition first second} {question colon : Token}
      (tested : Derives levels (.binary 1) [condition] question) (asks : question.kind = .question)
      (either : Derives levels (.deeper .expression) [first] colon) (parts : colon.kind = .colon)
      (other : Derives levels (.deeper .expression) [second] next) :
      Derives levels .ternary
        [.node .ternary [condition, .leaf question, first, .leaf colon, second]] next
  | noAssignment {levels next tree} (value : Derives levels .ternary [tree] next)
      (ends : next.kind.isAssignment = false) :
      Derives levels .expression [tree] next
  | assignment {levels next target value} {operator : Token}
      (assigned : Derives levels .ternary [target] operator)
      (isOperator : operator.kind.isAssignment)
      (given : Derives levels (.deeper .expression) [value] next) :
      Derives levels .expression
        [.node (assignmentLabel operator.kind) [target, .leaf operator, value]] next

  -- lists inside expressions
  | lastSeparated {levels next item tree} (last : Derives levels item [tree] next)
      (ends : next.kind ≠ .comma) :
      Derives levels (.separated item) [tree] next
  | moreSeparated {levels next item tree trees} {comma : Token}
      (first : Derives levels item [tree] comma) (isComma : comma.kind = .comma)
      (others : Derives levels (.separated item) trees next) :
      Derives levels (.separated item) (tree :: .leaf comma :: trees) next
  | noArguments {levels next} {opener closer : Token} (opens : opener.kind = .leftParen)
      (closes : closer.kind = .rightParen) :
      Derives levels .arguments [.node .arguments [.leaf opener, .leaf closer]] next
  | arguments {levels next values} {opener closer : Token} (opens : opener.kind = .leftParen)
      (present : (nextOf values closer).kind ≠ .rightParen)
      (between : Derives levels (.separated (.deeper .expression)) values closer)
      (closes : closer.kind = .rightParen) :
      Derives levels .arguments
        [.node .arguments (.leaf opener :: values ++ [.leaf closer])] next
  | variadic {levels next} {dots : Token} (areDots : dots.kind = .ellipsis) :
      Derives levels .parameter [.node .parameter [.leaf dots]] next
  | parameter {levels next} {name : Token} (isName : name.kind = .identifier)
      (ends : next.kind ≠ .assign) :
      Derives levels .parameter [.node .parameter [.leaf name]] next
  | parameterDefault {levels next value} {name assign : Token} (isName : name.kind = .identifier)
      (isAssign : assign.kind = .assign) (given : Derives levels (.deeper .ternary) [value] next) :
      Derives levels .parameter [.node .parameter [.leaf name, .leaf assign, value]] next
  | noParameter {levels next} (ends : next.kind = .rightParen) :
      Derives levels .parameterList [] next
  | lastParameter {levels next tree} (last : Derives levels .parameter [tree] next)
      (ends : next.kind ≠ .comma) :
      Derives levels .parameterList [tree] next
  | moreParameters {levels next tree trees} {comma : Token}
      (first : Derives levels .parameter [tree] comma) (isComma : comma.kind = .comma)
      (others : Derives levels .parameterList trees next) :
      Derives levels .parameterList (tree :: .leaf comma :: trees) next
  | parameters {levels next list} {opener closer : Token} (opens : opener.kind = .leftParen)
      (between : Derives levels .parameterList list closer) (closes : closer.kind = .rightParen) :
      Derives levels .parameters [.node .parameters (.leaf opener :: list ++ [.leaf closer])] next
  | noItem {levels next} (ends : [Kind.rightBracket, .endOfInput].contains next.kind) :
      Derives levels .items [] next
  | item {levels next tree trees}
      (goesOn : [Kind.rightBracket, .endOfInput].contains
        (nextOf (tree :: trees) next).kind = false)
      (first : Derives levels (.deeper .expression) [tree] (nextOf trees next))
      (noComma : (nextOf trees next).kind ≠ .comma) (others : Derives levels .items trees next) :
      Derives levels .items (tree :: trees) next
  | itemComma {levels next tree trees} {comma : Token}
      (goesOn : [Kind.rightBracket, .endOfInput].contains
        (nextOf (tree :: .leaf comma :: trees) next).kind = false)
      (first : Derives levels (.deeper .expression) [tree] comma) (isComma : comma.kind = .comma)
      (others : Derives levels .items trees next) :
      Derives levels .items (tree :: .leaf comma :: trees) next
  | noEntry {levels next} (ends : [Kind.rightBrace, .endOfInput].contains next.kind) :
      Derives levels .entries [] next
  | oneEntry {levels next tree trees}
      (goesOn : [Kind.rightBrace, .endOfInput].contains
        (nextOf (tree :: trees) next).kind = false)
      (first : Derives levels .entry [tree] (nextOf trees next))
      (noComma : (nextOf trees next).kind ≠ .comma) (others : Derives levels .entries trees next) :
      Derives levels .entries (tree :: trees) next
  | entryComma {levels next tree trees} {comma : Token}
      (goesOn : [Kind.rightBrace, .endOfInput].contains
        (nextOf (tree :: .leaf comma :: trees) next).kind = false)
      (first : Derives levels .entry [tree] comma) (isComma : comma.kind = .comma)
      (others : Derives levels .entries trees next) :
      Derives levels .entries (tree :: .leaf comma :: trees) next
  | slot {levels next value} {key assign : Token} (isName : key.kind = .identifier)
      (isAssign : assign.kind = .assign)
      (given : Derives levels (.deeper .expression) [value] next) :
      Derives levels .entry [.node .tableSlot [.leaf key, .leaf assign, value]] next
  | quotedSlot {levels next value} {key colon : Token} (isString : key.kind = .string)
      (isColon : colon.kind = .colon)
      (given : Derives levels (.deeper .expression) [value] next) :
      Derives levels .entry [.node .tableQuoted [.leaf key, .leaf colon, value]] next
  | computedSlot {levels next key value} {opener closer assign : Token}
      (opens : opener.kind = .leftBracket)
      (named : Derives levels (.deeper .expression) [key] closer)
      (closes : closer.kind = .rightBracket) (isAssign : assign.kind = .assign)
      (given : Derives levels (.deeper .expression) [value] next) :
      Derives levels .entry
        [.node .tableComputed [.leaf opener, key, .leaf closer, .leaf assign, value]] next
  | method {levels next list body} {keyword name : Token} (isWord : keyword.kind = .kwFunction)
      (isName : name.kind = .identifier)
      (head : Derives levels .parameters [list] (nextOf [body] next))
      (inside : Derives levels .block [body] next) :
      Derives levels .entry [.node .tableMethod [.leaf keyword, .leaf name, list, body]] next
  | skippedEntry {levels next} {tokens : List Token} (present : tokens ≠ []) :
      Derives levels .entry [errorNode tokens] next

  -- statements
  | noStatement {levels closers next}
      (ends : next.kind = .endOfInput ∨ closers.contains next.kind) :
      Derives levels (.statements closers) [] next
  | statements {levels closers next tree trees}
      (goesOn : (nextOf (tree :: trees) next).kind ≠ .endOfInput)
      (isOpen : closers.contains (nextOf (tree :: trees) next).kind = false)
      (first : Derives levels .unit [tree] (nextOf trees next))
      (others : Derives levels (.statements closers) trees next) :
      Derives levels (.statements closers) (tree :: trees) next
  | unit {levels next tree} (sound : Derives levels (.deeper .statement) [tree] next) :
      Derives levels .unit [tree] next
  | skippedUnit {levels next} {tokens : List Token} (present : tokens ≠ []) :
      Derives levels .unit [errorNode tokens] next
  | block {levels next body} {opener closer : Token} (opens : opener.kind = .leftBrace)
      (between : Derives levels (.statements [.rightBrace]) body closer)
      (closes : closer.kind = .rightBrace) :
      Derives levels .block [.node .block (.leaf opener :: body ++ [.leaf closer])] next
  | semicolon {levels next} {semicolon : Token} (isSemicolon : semicolon.kind = .semicolon) :
      Derives levels .ending [.leaf semicolon] next
  | noSemicolon {levels next} (missing : next.kind ≠ .semicolon)
      (ends : endsStatement next) :
      Derives levels .ending [] next
  | blockStatement {levels next tree} (inside : Derives levels .block [tree] next) :
      Derives levels .statement [tree] next
  | emptyStatement {levels next} {semicolon : Token} (isSemicolon : semicolon.kind = .semicolon) :
      Derives levels .statement [.node .emptyStatement [.leaf semicolon]] next
  | ifStatement {levels next condition body} {keyword : Token} (isWord : keyword.kind = .kwIf)
      (tested : Derives levels .parentheses condition (nextOf [body] next))
      (governed : Derives levels (.deeper .statement) [body] next) (ends : next.kind ≠ .kwElse) :
      Derives levels .statement
        [.node .ifStatement (.leaf keyword :: condition ++ [body])] next
  | ifElseStatement {levels next condition first second} {keyword otherwise : Token}
      (isWord : keyword.kind = .kwIf)
      (tested : Derives levels .parentheses condition (nextOf [first] otherwise))
      (governed : Derives levels (.deeper .statement) [first] otherwise)
      (isElse : otherwise.kind = .kwElse)
      (alternative : Derives levels (.deeper .statement) [second] next) :
      Derives levels .statement
        [.node .ifStatement (.leaf keyword :: condition ++ [first, .leaf otherwise, second])] next
  | whileStatement {levels next condition body} {keyword : Token}
      (isWord : keyword.kind = .kwWhile)
      (tested : Derives levels .parentheses condition (nextOf [body] next))
      (governed : Derives levels (.deeper .statement) [body] next) :
      Derives levels .statement
        [.node .whileStatement (.leaf keyword :: condition ++ [body])] next
  | doWhileStatement {levels next condition body ending} {keyword whileWord : Token}
      (isWord : keyword.kind = .kwDo)
      (governed : Derives levels (.deeper .statement) [body] whileWord)
      (isWhile : whileWord.kind = .kwWhile)
      (tested : Derives levels .parentheses condition (nextOf ending next))
      (ends : Derives levels .ending ending next) :
      Derives levels .statement
        [.node .doWhileStatement ([.leaf keyword, body, .leaf whileWord] ++ condition ++ ending)]
        next
  | declarator {levels next} {name : Token} (isName : name.kind = .identifier)
      (ends : next.kind ≠ .assign) :
      Derives levels .declarator [.node .declarator [.leaf name]] next
  | declaratorValue {levels next value} {name assign : Token} (isName : name.kind = .identifier)
      (isAssign : assign.kind = .assign)
      (given : Derives levels (.deeper .expression) [value] next) :
      Derives levels .declarator [.node .declarator [.leaf name, .leaf assign, value]] next
  | localDeclaration {levels next declarators ending} {keyword : Token}
      (isWord : keyword.kind = .kwLocal)
      (declared : Derives levels (.separated .declarator) declarators (nextOf ending next))
      (ends : Derives levels .ending ending next) :
      Derives levels .statement
        [.node .localDeclaration (.leaf keyword :: declarators ++ ending)] next
  | constDeclaration {levels next value ending} {keyword name assign : Token}
      (isWord : keyword.kind = .kwConst) (isName : name.kind = .identifier)
      (isAssign : assign.kind = .assign)
      (given : Derives levels (.deeper .expression) [value] (nextOf ending next))
      (ends : Derives levels .ending ending next) :
      Derives levels .statement
        [.node .constDeclaration ([.leaf keyword, .leaf name, .leaf assign, value] ++ ending)] next
  | forLocal {levels next declarators} {keyword : Token} (isWord : keyword.kind = .kwLocal)
      (declared : Derives levels (.separated .declarator) declarators next) :
      Derives levels .forInit [.node .localDeclaration (.leaf keyword :: declarators)] next
  | forNothing {levels next} (ends : next.kind = .semicolon) : Derives levels .forInit [] next
  | forExpression {levels next tree} (noLocal : (nextOf [tree] next).kind ≠ .kwLocal)
      (present : (nextOf [tree] next).kind ≠ .semicolon)
      (value : Derives levels (.deeper .expression) [tree] next) :
      Derives levels .forInit [tree] next
  | noExpression {levels closer next} (ends : next.kind = closer) :
      Derives levels (.optionalExpression closer) [] next
  | someExpression {levels closer next tree} (present : (nextOf [tree] next).kind ≠ closer)
      (value : Derives levels (.deeper .expression) [tree] next) :
      Derives levels (.optionalExpression closer) [tree] next
  | forStatement {levels next init condition step body}
      {keyword opener firstMark secondMark closer : Token} (isWord : keyword.kind = .kwFor)
      (opens : opener.kind = .leftParen) (starts : Derives levels .forInit init firstMark)
      (firstIs : firstMark.kind = .semicolon)
      (tested : Derives levels (.optionalExpression .semicolon) condition secondMark)
      (secondIs : secondMark.kind = .semicolon)
      (stepped : Derives levels (.optionalExpression .rightParen) step closer)
      (closes : closer.kind = .rightParen)
      (governed : Derives levels (.deeper .statement) [body] next) :
      Derives levels .statement
        [.node .forStatement [.leaf keyword, .leaf opener, .node .forInit init, .leaf firstMark,
          .node .forCondition condition, .leaf secondMark, .node .forStep step, .leaf closer,
          body]] next
  | foreachStatement {levels next names container body}
      {keyword opener inWord closer : Token} (isWord : keyword.kind = .kwForeach)
      (opens : opener.kind = .leftParen)
      (named : LoopNames names) (isIn : inWord.kind = .kwIn)
      (iterated : Derives levels (.deeper .expression) [container] closer)
      (closes : closer.kind = .rightParen)
      (governed : Derives levels (.deeper .statement) [body] next) :
      Derives levels .statement
        [.node .foreachStatement [.leaf keyword, .leaf opener, .node .foreachVariables names,
          .leaf inWord, container, .leaf closer, body]] next
  | caseBody {levels next trees}
      (inside : Derives levels (.statements [.kwCase, .kwDefault, .rightBrace]) trees next) :
      Derives levels .caseBody [.node .caseBody trees] next
  | caseClause {levels next value body} {keyword colon : Token} (isWord : keyword.kind = .kwCase)
      (compared : Derives levels (.deeper .expression) [value] colon)
      (isColon : colon.kind = .colon) (inside : Derives levels .caseBody [body] next) :
      Derives levels .clause [.node .caseClause [.leaf keyword, value, .leaf colon, body]] next
  | defaultClause {levels next body} {keyword colon : Token} (isWord : keyword.kind = .kwDefault)
      (isColon : colon.kind = .colon) (inside : Derives levels .caseBody [body] next) :
      Derives levels .clause [.node .defaultClause [.leaf keyword, .leaf colon, body]] next
  | noClause {levels next} (ends : [Kind.rightBrace, .endOfInput].contains next.kind) :
      Derives levels .clauses [] next
  | clauses {levels next tree trees}
      (goesOn : [Kind.rightBrace, .endOfInput].contains
        (nextOf (tree :: trees) next).kind = false)
      (first : Derives levels .clause [tree] (nextOf trees next))
      (others : Derives levels .clauses trees next) :
      Derives levels .clauses (tree :: trees) next
  | switchStatement {levels next subject clauses} {keyword opener closer : Token}
      (isWord : keyword.kind = .kwSwitch) (tested : Derives levels .parentheses subject opener)
      (opens : opener.kind = .leftBrace) (between : Derives levels .clauses clauses closer)
      (closes : closer.kind = .rightBrace) :
      Derives levels .statement
        [.node .switchStatement (.leaf keyword :: subject ++ [.leaf opener] ++ clauses ++
          [.leaf closer])] next
  | tryStatement {levels next body handler} {keyword catchWord opener name closer : Token}
      (isWord : keyword.kind = .kwTry)
      (governed : Derives levels (.deeper .statement) [body] catchWord)
      (isCatch : catchWord.kind = .kwCatch) (opens : opener.kind = .leftParen)
      (isName : name.kind = .identifier) (closes : closer.kind = .rightParen)
      (handled : Derives levels (.deeper .statement) [handler] next) :
      Derives levels .statement
        [.node .tryStatement [.leaf keyword, body, .leaf catchWord, .leaf opener, .leaf name,
          .leaf closer, handler]] next
  | pathEnd {levels next} (ends : [Kind.doubleColon, .dot].contains next.kind = false) :
      Derives levels .namePath [] next
  | pathStep {levels next trees} {separator name : Token}
      (separates : [Kind.doubleColon, .dot].contains separator.kind)
      (isName : name.kind = .identifier) (others : Derives levels .namePath trees next) :
      Derives levels .namePath (.leaf separator :: .leaf name :: trees) next
  | plainName {levels next path} {name : Token} (isName : name.kind = .identifier)
      (goesOn : Derives levels .namePath path next) :
      Derives levels .functionName [.node .functionName (.leaf name :: path)] next
  | rootedName {levels next path} {colons name : Token} (areColons : colons.kind = .doubleColon)
      (isName : name.kind = .identifier) (goesOn : Derives levels .namePath path next) :
      Derives levels .functionName
        [.node .functionName (.leaf colons :: .leaf name :: path)] next
  | functionDeclaration {levels next name list body} {scope ending : List Token} {keyword : Token}
      (placed : scope = [] ∨ ∃ word : Token, word.kind = .kwLocal ∧ scope = [word])
      (isWord : keyword.kind = .kwFunction)
      (named : Derives levels .functionName [name]
        (nextOf [list] (nextOf [body] (ending.headD next))))
      (head : Derives levels .parameters [list] (nextOf [body] (ending.headD next)))
      (inside : Derives levels .block [body] (ending.headD next))
      (ends : (ending = [] ∧ closesFunction next = false) ∨
        ∃ semicolon : Token, closesFunction semicolon ∧ ending = [semicolon]) :
      Derives levels .statement
        [.node .functionDeclaration (scope.map .leaf ++ [.leaf keyword, name, list, body] ++
          ending.map .leaf)] next
  | returnNothing {levels next ending} {keyword : Token} (isWord : keyword.kind = .kwReturn)
      (nothing : endsReturn (nextOf ending next))
      (ends : Derives levels .ending ending next) :
      Derives levels .statement [.node .returnStatement (.leaf keyword :: ending)] next
  | returnValue {levels next value ending} {keyword : Token} (isWord : keyword.kind = .kwReturn)
      (present : endsReturn (nextOf [value] (nextOf ending next)) = false)
      (given : Derives levels (.deeper .expression) [value] (nextOf ending next))
      (ends : Derives levels .ending ending next) :
      Derives levels .statement [.node .returnStatement (.leaf keyword :: value :: ending)] next
  | breakStatement {levels next ending} {keyword : Token} (isWord : keyword.kind = .kwBreak)
      (ends : Derives levels .ending ending next) :
      Derives levels .statement [.node .breakStatement (.leaf keyword :: ending)] next
  | continueStatement {levels next ending} {keyword : Token} (isWord : keyword.kind = .kwContinue)
      (ends : Derives levels .ending ending next) :
      Derives levels .statement [.node .continueStatement (.leaf keyword :: ending)] next
  | throwStatement {levels next value ending} {keyword : Token} (isWord : keyword.kind = .kwThrow)
      (thrown : Derives levels (.deeper .expression) [value] (nextOf ending next))
      (ends : Derives levels .ending ending next) :
      Derives levels .statement [.node .throwStatement (.leaf keyword :: value :: ending)] next
  | expressionStatement {levels next value ending}
      (plain : leadsStatement (nextOf [value] (nextOf ending next)).kind = false)
      (evaluated : Derives levels (.deeper .expression) [value] (nextOf ending next))
      (ends : Derives levels .ending ending next) :
      Derives levels .statement [.node .expressionStatement (value :: ending)] next

theorem Derives.block_label {levels : Nat} {tree : Tree} {next : Token}
    (derived : Derives levels .block [tree] next) : tree.label? = some .block := by
  cases derived
  rfl

def Category.isFull : Category → Bool
  | .deeper category => category.isFull
  | .separated item => item.isFull
  | .statements _ | .ending | .clauses | .caseBody | .forInit | .optionalExpression _ | .namePath
  | .parameterList | .items | .entries => false
  | _ => true

theorem tokens_makeCall (callee list : Tree) :
    (makeCall callee list).tokens = callee.tokens ++ list.tokens := by
  unfold makeCall
  split
  · split <;> simp
  · simp

theorem Derives.full {levels : Nat} {category : Category} {trees : List Tree} {next : Token}
    (derived : Derives levels category trees next) (isFull : category.isFull := by rfl) :
    Tree.tokensOf trees ≠ [] := by
  induction derived <;> simp_all [Category.isFull, tokens_makeCall, errorNode]

end Grammar

end Squirrel
