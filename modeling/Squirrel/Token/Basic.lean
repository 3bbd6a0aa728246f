import Squirrel.Span
import Squirrel.Text.Quoted
import Squirrel.Token.Kind

/-! Tokens and the trivia between them. -/

namespace Squirrel

inductive TriviaKind where
  | whitespace | newline | lineComment | blockComment
  deriving DecidableEq, Repr, Inhabited

namespace TriviaKind

def isComment : TriviaKind → Bool
  | .lineComment | .blockComment => true
  | _ => false

end TriviaKind

/-- Inert text between tokens. -/
structure Trivia where
  kind : TriviaKind
  text : String
  start : Nat
  deriving DecidableEq, Repr, Inhabited

namespace Trivia

def stop (trivia : Trivia) : Nat := trivia.start + trivia.text.length

def isComment (trivia : Trivia) : Bool := trivia.kind.isComment

end Trivia

/-- What a token says, wherever it stands. -/
structure Lexeme where
  kind : Kind
  text : String
  deriving DecidableEq, Repr, Inhabited

def Lexeme.describe (lexeme : Lexeme) : String :=
  if lexeme.kind = .endOfInput then "end of input" else Text.quoted lexeme.text

/-- A token with its place. The trivia after it up to the line break are its trailing ones,
and what follows leads the next token. -/
structure Token extends Lexeme where
  span : Span
  leading : List Trivia
  trailing : List Trivia
  deriving DecidableEq, Repr, Inhabited

namespace Token

def newlinesBefore (token : Token) : Nat :=
  token.leading.countP (·.kind = .newline)

def startsLine (token : Token) : Bool :=
  token.leading.any (·.kind = .newline)

def comments (token : Token) : List Trivia :=
  (token.leading ++ token.trailing).filter (·.isComment)

/-- The token with its trivia, as it stands in the source. -/
def fullText (token : Token) : String :=
  String.join (token.leading.map (·.text)) ++ token.text ++
    String.join (token.trailing.map (·.text))

def describePlace (token : Token) : String :=
  "Tok(" ++ token.kind.name ++ ", " ++ Text.quoted token.text ++ ", " ++
    toString token.span.line ++ ":" ++ toString token.span.column ++ ")"

end Token

end Squirrel
