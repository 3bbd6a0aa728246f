import Squirrel.Token.Basic

/-! What can be wrong with a source text, and where. -/

namespace Squirrel

/-- Faults in the spelling of tokens. -/
inductive LexFault where
  | unterminatedBlockComment
  | unterminatedString
  | unterminatedVerbatimString
  | unterminatedCharacter
  | unknownEscape (escaped : Char)
  | malformedHexadecimal
  | unexpectedCharacter (found : Char)
  | stated (message : String)
  deriving DecidableEq, Repr

/-- Faults in the order of tokens. -/
inductive SyntaxFault where
  | expected (wanted : Kind) (found : Lexeme)
  | expectedLoopVariable
  | expectedCatchVariable
  | expectedVariable (found : Lexeme)
  | expectedConstant
  | expectedFunctionName
  | expectedMember (found : Lexeme)
  | expectedRootName
  | expectedParameter (found : Lexeme)
  | expectedMethodName
  | expectedTableEntry (found : Lexeme)
  | expectedClause (found : Lexeme)
  | unterminatedStatement (found : Lexeme)
  | unexpected (found : Lexeme)
  | nestingTooDeep
  | stated (message : String)
  deriving DecidableEq, Repr

/-- Faults in the use of names. -/
inductive NameFault where
  | undeclared (name : String)
  | unused (name : String)
  | duplicate (name : String)
  | cyclicInheritance (name : String)
  deriving DecidableEq, Repr

inductive Fault where
  | lexical (fault : LexFault)
  | grammatical (fault : SyntaxFault)
  | semantic (fault : NameFault)
  deriving DecidableEq, Repr

inductive FaultKind where
  | lexError | syntaxError | undeclaredReference | unusedLocal | duplicateDeclaration
  deriving DecidableEq, Repr

namespace FaultKind

def name : FaultKind → String
  | .lexError => "LexError"
  | .syntaxError => "SyntaxError"
  | .undeclaredReference => "UndeclaredReference"
  | .unusedLocal => "UnusedLocal"
  | .duplicateDeclaration => "DuplicateDeclaration"

def code : FaultKind → String
  | .lexError => "lex-error"
  | .syntaxError => "syntax-error"
  | .undeclaredReference => "undeclared-variable"
  | .unusedLocal => "unused-variable"
  | .duplicateDeclaration => "duplicate-declaration"

def isSemantic : FaultKind → Bool
  | .lexError | .syntaxError => false
  | _ => true

end FaultKind

def LexFault.message : LexFault → String
  | .unterminatedBlockComment => "Unterminated block comment"
  | .unterminatedString => "Unterminated string literal"
  | .unterminatedVerbatimString => "Unterminated verbatim string literal"
  | .unterminatedCharacter => "Unterminated character literal"
  | .unknownEscape escaped => "Unrecognised escape sequence '\\" ++ escaped.toString ++ "'"
  | .malformedHexadecimal => "Malformed hexadecimal literal"
  | .unexpectedCharacter found => "Unexpected character '" ++ found.toString ++ "'"
  | .stated message => message

def SyntaxFault.message : SyntaxFault → String
  | .expected wanted found =>
    "Expected '" ++ (wanted.spelling?.getD wanted.name.toLower) ++ "' but found " ++ found.describe
  | .expectedLoopVariable => "Expected loop variable name"
  | .expectedCatchVariable => "Expected catch variable name"
  | .expectedVariable found => "Expected variable name but found " ++ found.describe
  | .expectedConstant => "Expected constant name"
  | .expectedFunctionName => "Expected function name"
  | .expectedMember found => "Expected member name after '.' but found " ++ found.describe
  | .expectedRootName => "Expected name after '::'"
  | .expectedParameter found => "Expected parameter name but found " ++ found.describe
  | .expectedMethodName => "Expected method name"
  | .expectedTableEntry found => "Expected table entry but found " ++ found.describe
  | .expectedClause found => "Expected 'case' or 'default' but found " ++ found.describe
  | .unterminatedStatement found => "Expected ';' or newline before " ++ found.describe
  | .unexpected found => "Unexpected token " ++ found.describe
  | .nestingTooDeep => "Nesting too deep"
  | .stated message => message

def NameFault.message : NameFault → String
  | .undeclared name => "Undeclared variable '" ++ name ++ "'"
  | .unused name => "Unused variable '" ++ name ++ "'"
  | .duplicate name => "Duplicate declaration of '" ++ name ++ "'"
  | .cyclicInheritance name => "Cyclic inheritance involving '" ++ name ++ "'"

namespace Fault

def message : Fault → String
  | .lexical fault => fault.message
  | .grammatical fault => fault.message
  | .semantic fault => fault.message

/-- The family of a fault. A cyclic inheritance counts as a duplicate. -/
def kind : Fault → FaultKind
  | .lexical _ => .lexError
  | .grammatical _ => .syntaxError
  | .semantic (.undeclared _) => .undeclaredReference
  | .semantic (.unused _) => .unusedLocal
  | .semantic (.duplicate _) => .duplicateDeclaration
  | .semantic (.cyclicInheritance _) => .duplicateDeclaration

end Fault

inductive Severity where
  | error | warning | information | hint
  deriving DecidableEq, Repr

namespace Severity

def number : Severity → Nat
  | .error => 1
  | .warning => 2
  | .information => 3
  | .hint => 4

def name : Severity → String
  | .error => "error"
  | .warning => "warning"
  | .information => "information"
  | .hint => "hint"

end Severity

structure Diagnostic where
  fault : Fault
  severity : Severity
  span : Span
  deriving DecidableEq, Repr

namespace Diagnostic

def kind (diagnostic : Diagnostic) : FaultKind := diagnostic.fault.kind

def message (diagnostic : Diagnostic) : String := diagnostic.fault.message

/-- The stage that a diagnostic is attributed to. -/
def origin (diagnostic : Diagnostic) : String :=
  if diagnostic.kind.isSemantic then "squirrel-semantic" else "squirrel-syntax"

def render (diagnostic : Diagnostic) : String :=
  toString diagnostic.span.line ++ ":" ++ toString diagnostic.span.column ++ ": " ++
    diagnostic.severity.name ++ ": " ++ diagnostic.message

/-- Whether `first` may stand before `second` in source order. -/
def notAfter (first second : Diagnostic) : Bool :=
  first.span.start < second.span.start ||
    (first.span.start = second.span.start && first.span.stop ≤ second.span.stop)

/-- Source order; what stands at one place stays in the given order. -/
def inSourceOrder (diagnostics : List Diagnostic) : List Diagnostic :=
  diagnostics.mergeSort notAfter

end Diagnostic

end Squirrel
