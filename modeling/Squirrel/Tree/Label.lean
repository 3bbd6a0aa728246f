/-! Labels of the nodes of a tree. -/

namespace Squirrel

inductive Label where
  | program | block | caseBody | error | emptyStatement | breakStatement | continueStatement
  | throwStatement | expressionStatement | ifStatement | whileStatement | doWhileStatement
  | forStatement | forInit | forCondition | forStep | foreachStatement | foreachVariables
  | switchStatement | caseClause | defaultClause | tryStatement | localDeclaration | declarator
  | constDeclaration | functionDeclaration | functionName | returnStatement | assign | newSlot
  | ternary | logical | binary | unary | postUpdate | member | index | call | inheritCall
  | arguments | reference | literal | thisObject | baseObject | rootReference | parenthesized
  | functionLiteral | lambdaLiteral | hookWrapper | parameters | parameter | array | table
  | tableSlot | tableComputed | tableQuoted | tableMethod
  deriving DecidableEq, Repr, Inhabited

namespace Label

def name : Label → String
  | .program => "program"
  | .block => "block"
  | .caseBody => "case_body"
  | .error => "error"
  | .emptyStatement => "empty_stmt"
  | .breakStatement => "break_stmt"
  | .continueStatement => "continue_stmt"
  | .throwStatement => "throw_stmt"
  | .expressionStatement => "expr_stmt"
  | .ifStatement => "if_stmt"
  | .whileStatement => "while_stmt"
  | .doWhileStatement => "do_while_stmt"
  | .forStatement => "for_stmt"
  | .forInit => "for_init"
  | .forCondition => "for_cond"
  | .forStep => "for_step"
  | .foreachStatement => "foreach_stmt"
  | .foreachVariables => "foreach_vars"
  | .switchStatement => "switch_stmt"
  | .caseClause => "case_clause"
  | .defaultClause => "default_clause"
  | .tryStatement => "try_stmt"
  | .localDeclaration => "local_decl"
  | .declarator => "declarator"
  | .constDeclaration => "const_decl"
  | .functionDeclaration => "function_decl"
  | .functionName => "fn_name"
  | .returnStatement => "return_stmt"
  | .assign => "assign"
  | .newSlot => "newslot"
  | .ternary => "ternary"
  | .logical => "logical"
  | .binary => "binary"
  | .unary => "unary"
  | .postUpdate => "postfix"
  | .member => "member"
  | .index => "index"
  | .call => "call"
  | .inheritCall => "inherit_call"
  | .arguments => "args"
  | .reference => "name"
  | .literal => "literal"
  | .thisObject => "this"
  | .baseObject => "base"
  | .rootReference => "root_ref"
  | .parenthesized => "paren"
  | .functionLiteral => "function_expr"
  | .lambdaLiteral => "lambda_expr"
  | .hookWrapper => "hook_wrap"
  | .parameters => "params"
  | .parameter => "param"
  | .array => "array"
  | .table => "table"
  | .tableSlot => "table_slot"
  | .tableComputed => "table_computed"
  | .tableQuoted => "table_json"
  | .tableMethod => "table_method"

end Label

end Squirrel
