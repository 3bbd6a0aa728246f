/-! Kinds of tokens and how they are written. -/

namespace Squirrel

inductive Kind where
  | integer | float | string | verbatimString | character | identifier
  | kwLocal | kwConst | kwFunction | kwIf | kwElse | kwWhile | kwDo | kwFor | kwForeach | kwIn
  | kwSwitch | kwCase | kwDefault | kwReturn | kwBreak | kwContinue | kwTry | kwCatch | kwThrow
  | kwTypeOf | kwClone | kwDelete | kwResume | kwInstanceOf | kwThis | kwBase | kwNull | kwTrue
  | kwFalse
  | shlAssign | shrAssign | ushr | threeWay | ellipsis | doubleColon | newSlot | equal | notEqual
  | lessEqual | greaterEqual | logicalAnd | logicalOr | increment | decrement | plusAssign
  | minusAssign | starAssign | slashAssign | percentAssign | shl | shr | plus | minus | star
  | slash | percent | bitAnd | bitOr | bitXor | bitNot | logicalNot | assign | less | greater
  | question | colon | dot | comma | semicolon | atSign | leftParen | rightParen | leftBracket
  | rightBracket | leftBrace | rightBrace
  | error | endOfInput
  deriving DecidableEq, Repr, Inhabited

namespace Kind

def keywords : List (String × Kind) :=
  [("local", .kwLocal), ("const", .kwConst), ("function", .kwFunction), ("if", .kwIf),
   ("else", .kwElse), ("while", .kwWhile), ("do", .kwDo), ("for", .kwFor), ("foreach", .kwForeach),
   ("in", .kwIn), ("switch", .kwSwitch), ("case", .kwCase), ("default", .kwDefault),
   ("return", .kwReturn), ("break", .kwBreak), ("continue", .kwContinue), ("try", .kwTry),
   ("catch", .kwCatch), ("throw", .kwThrow), ("typeof", .kwTypeOf), ("clone", .kwClone),
   ("delete", .kwDelete), ("resume", .kwResume), ("instanceof", .kwInstanceOf), ("this", .kwThis),
   ("base", .kwBase), ("null", .kwNull), ("true", .kwTrue), ("false", .kwFalse)]

/-- Operators and punctuation, longer ones first. -/
def operators : List (String × Kind) :=
  [("<<=", .shlAssign), (">>=", .shrAssign), (">>>", .ushr), ("<=>", .threeWay), ("...", .ellipsis),
   ("::", .doubleColon), ("<-", .newSlot), ("==", .equal), ("!=", .notEqual), ("<=", .lessEqual),
   (">=", .greaterEqual), ("&&", .logicalAnd), ("||", .logicalOr), ("++", .increment),
   ("--", .decrement), ("+=", .plusAssign), ("-=", .minusAssign), ("*=", .starAssign),
   ("/=", .slashAssign), ("%=", .percentAssign), ("<<", .shl), (">>", .shr), ("+", .plus),
   ("-", .minus), ("*", .star), ("/", .slash), ("%", .percent), ("&", .bitAnd), ("|", .bitOr),
   ("^", .bitXor), ("~", .bitNot), ("!", .logicalNot), ("=", .assign), ("<", .less),
   (">", .greater), ("?", .question), (":", .colon), (".", .dot), (",", .comma), (";", .semicolon),
   ("@", .atSign), ("(", .leftParen), (")", .rightParen), ("[", .leftBracket), ("]", .rightBracket),
   ("\x7b", .leftBrace), ("\x7d", .rightBrace)]

def name : Kind → String
  | .integer => "INTEGER"
  | .float => "FLOAT"
  | .string => "STRING"
  | .verbatimString => "VERBATIM_STRING"
  | .character => "CHAR"
  | .identifier => "IDENT"
  | .kwLocal => "LOCAL"
  | .kwConst => "CONST"
  | .kwFunction => "FUNCTION"
  | .kwIf => "IF"
  | .kwElse => "ELSE"
  | .kwWhile => "WHILE"
  | .kwDo => "DO"
  | .kwFor => "FOR"
  | .kwForeach => "FOREACH"
  | .kwIn => "IN"
  | .kwSwitch => "SWITCH"
  | .kwCase => "CASE"
  | .kwDefault => "DEFAULT"
  | .kwReturn => "RETURN"
  | .kwBreak => "BREAK"
  | .kwContinue => "CONTINUE"
  | .kwTry => "TRY"
  | .kwCatch => "CATCH"
  | .kwThrow => "THROW"
  | .kwTypeOf => "TYPEOF"
  | .kwClone => "CLONE"
  | .kwDelete => "DELETE"
  | .kwResume => "RESUME"
  | .kwInstanceOf => "INSTANCEOF"
  | .kwThis => "THIS"
  | .kwBase => "BASE"
  | .kwNull => "NULL"
  | .kwTrue => "TRUE"
  | .kwFalse => "FALSE"
  | .shlAssign => "SHLEQ"
  | .shrAssign => "SHREQ"
  | .ushr => "USHR"
  | .threeWay => "CMP3"
  | .ellipsis => "ELLIPSIS"
  | .doubleColon => "DOUBLECOLON"
  | .newSlot => "NEWSLOT"
  | .equal => "EQ"
  | .notEqual => "NEQ"
  | .lessEqual => "LTE"
  | .greaterEqual => "GTE"
  | .logicalAnd => "AND"
  | .logicalOr => "OR"
  | .increment => "INCR"
  | .decrement => "DECR"
  | .plusAssign => "PLUSEQ"
  | .minusAssign => "MINUSEQ"
  | .starAssign => "STAREQ"
  | .slashAssign => "SLASHEQ"
  | .percentAssign => "MODEQ"
  | .shl => "SHL"
  | .shr => "SHR"
  | .plus => "PLUS"
  | .minus => "MINUS"
  | .star => "STAR"
  | .slash => "SLASH"
  | .percent => "MOD"
  | .bitAnd => "BITAND"
  | .bitOr => "BITOR"
  | .bitXor => "BITXOR"
  | .bitNot => "BITNOT"
  | .logicalNot => "NOT"
  | .assign => "ASSIGN"
  | .less => "LT"
  | .greater => "GT"
  | .question => "QMARK"
  | .colon => "COLON"
  | .dot => "DOT"
  | .comma => "COMMA"
  | .semicolon => "SEMI"
  | .atSign => "AT"
  | .leftParen => "LPAR"
  | .rightParen => "RPAR"
  | .leftBracket => "LSQB"
  | .rightBracket => "RSQB"
  | .leftBrace => "LBRACE"
  | .rightBrace => "RBRACE"
  | .error => "ERROR"
  | .endOfInput => "EOF"

def all : List Kind :=
  [.integer, .float, .string, .verbatimString, .character, .identifier, .kwLocal, .kwConst,
   .kwFunction, .kwIf, .kwElse, .kwWhile, .kwDo, .kwFor, .kwForeach, .kwIn, .kwSwitch, .kwCase,
   .kwDefault, .kwReturn, .kwBreak, .kwContinue, .kwTry, .kwCatch, .kwThrow, .kwTypeOf, .kwClone,
   .kwDelete, .kwResume, .kwInstanceOf, .kwThis, .kwBase, .kwNull, .kwTrue, .kwFalse, .shlAssign,
   .shrAssign, .ushr, .threeWay, .ellipsis, .doubleColon, .newSlot, .equal, .notEqual, .lessEqual,
   .greaterEqual, .logicalAnd, .logicalOr, .increment, .decrement, .plusAssign, .minusAssign,
   .starAssign, .slashAssign, .percentAssign, .shl, .shr, .plus, .minus, .star, .slash, .percent,
   .bitAnd, .bitOr, .bitXor, .bitNot, .logicalNot, .assign, .less, .greater, .question, .colon,
   .dot, .comma, .semicolon, .atSign, .leftParen, .rightParen, .leftBracket, .rightBracket,
   .leftBrace, .rightBrace, .error, .endOfInput]

def ofName? (name : String) : Option Kind := all.find? (·.name = name)

/-- The fixed spelling of a keyword, operator or punctuation mark. -/
def spelling? (kind : Kind) : Option String :=
  ((operators ++ keywords).find? (·.2 = kind)).map (·.1)

def isKeyword (kind : Kind) : Bool := keywords.any (·.2 = kind)

def isPunctuation : Kind → Bool
  | .leftParen | .rightParen | .leftBracket | .rightBracket | .leftBrace | .rightBrace | .dot
  | .comma | .semicolon | .colon | .atSign | .doubleColon | .ellipsis => true
  | _ => false

def isOperator (kind : Kind) : Bool := operators.any (·.2 = kind) && !kind.isPunctuation

def isOpener : Kind → Bool
  | .leftParen | .leftBracket | .leftBrace => true
  | _ => false

def isCloser : Kind → Bool
  | .rightParen | .rightBracket | .rightBrace => true
  | _ => false

/-- Binding power of an infix operator: a higher one binds tighter. -/
def precedence? : Kind → Option Nat
  | .logicalOr => some 1
  | .logicalAnd => some 2
  | .bitOr => some 3
  | .bitXor => some 4
  | .bitAnd => some 5
  | .equal | .notEqual | .threeWay => some 6
  | .less | .lessEqual | .greater | .greaterEqual | .kwIn | .kwInstanceOf => some 7
  | .shl | .shr | .ushr => some 8
  | .plus | .minus => some 9
  | .star | .slash | .percent => some 10
  | _ => none

def isAssignment : Kind → Bool
  | .assign | .newSlot | .plusAssign | .minusAssign | .starAssign | .slashAssign | .percentAssign
  | .shlAssign | .shrAssign => true
  | _ => false

def isUnary : Kind → Bool
  | .minus | .logicalNot | .bitNot | .kwTypeOf | .kwClone | .kwDelete | .kwResume | .increment
  | .decrement => true
  | _ => false

def isLiteral : Kind → Bool
  | .integer | .float | .string | .verbatimString | .character | .kwNull | .kwTrue
  | .kwFalse => true
  | _ => false

end Kind

end Squirrel
