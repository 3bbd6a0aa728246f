import Squirrel.Diagnostic
import Squirrel.Token.Cursor

/-! From text to tokens. Every character of the text ends up in a token or in its trivia. -/

namespace Squirrel

/-- `mark` is where the piece being read starts. The latest token comes first in `produced`, and
while `collecting` holds it takes the trivia that follow. -/
structure Lexer where
  cursor : Cursor
  mark : Cursor
  produced : List Token
  pending : List Trivia
  collecting : Bool
  diagnostics : List Diagnostic
  deriving DecidableEq, Repr

/-- A request to move back. -/
structure BackwardMove where
  count : Int

def BackwardMove.message (move : BackwardMove) : String :=
  "advance() requires n >= 0, got " ++ toString move.count

namespace Lexer

def isInlineSpace (c : Char) : Bool :=
  c = ' ' || c = '\t' || c = '\x0c' || c = '\x0b'

def isDigit (c : Char) : Bool := '0' ≤ c && c ≤ '9'

def isHexDigit (c : Char) : Bool :=
  isDigit c || ('a' ≤ c && c ≤ 'f') || ('A' ≤ c && c ≤ 'F')

def isWordStart (c : Char) : Bool := Text.isLetter c || c = '_'

def isWordRest (c : Char) : Bool := Text.isLetterOrNumber c || c = '_'

def isEscape (c : Char) : Bool := "tabnrvf0\\\"'xuU".toList.contains c

def digitCount (text : List Char) : Nat := (text.takeWhile isDigit).length

def startsWithDigit (text : List Char) : Bool := text.head?.any isDigit

/-- Length of a decimal point with digits after it. -/
def fractionLength : List Char → Nat
  | '.' :: rest => if startsWithDigit rest then 1 + digitCount rest else 0
  | _ => 0

/-- Length of an exponent with its mark and sign. -/
def exponentLength : List Char → Nat
  | mark :: rest =>
    if mark = 'e' ∨ mark = 'E' then
      if startsWithDigit rest then 1 + digitCount rest
      else match rest with
        | sign :: digits =>
          if (sign = '+' ∨ sign = '-') ∧ startsWithDigit digits then 2 + digitCount digits else 0
        | [] => 0
    else 0
  | [] => 0

/-- Length of a literal's text up to the closing quote, or up to the end of the line. -/
def quotedLength (quote : Char) : List Char → Nat
  | [] => 0
  | ['\\'] => 1
  | '\\' :: c :: rest => if Cursor.isLineBreak c then 1 else quotedLength quote rest + 2
  | c :: rest => if c = quote || Cursor.isLineBreak c then 0 else quotedLength quote rest + 1

/-- The escapes of a literal's text that have no meaning, each with the place of its backslash. -/
def unknownEscapes (place : Nat) : List Char → List (Nat × Char)
  | '\\' :: c :: rest =>
    if isEscape c then unknownEscapes (place + 2) rest
    else (place, c) :: unknownEscapes (place + 2) rest
  | _ :: rest => unknownEscapes (place + 1) rest
  | [] => []

/-- Length of a verbatim literal's text up to the closing quote; a doubled quote stands for one. -/
def verbatimLength? : List Char → Option Nat
  | [] => none
  | '"' :: '"' :: rest => (verbatimLength? rest).map (· + 2)
  | c :: rest => if c = '"' then some 0 else (verbatimLength? rest).map (· + 1)

/-- Length of a comment's text up to its closing mark. -/
def commentLength? : List Char → Option Nat
  | [] => none
  | '*' :: '/' :: _ => some 0
  | _ :: rest => (commentLength? rest).map (· + 1)

def operatorAt? (text : List Char) : Option (String × Kind) :=
  Kind.operators.find? fun entry => entry.1.toList.isPrefixOf text

def ofText (text : List Char) : Lexer :=
  ⟨.ofText text, .ofText text, [], [], false, []⟩

def tokens (lexer : Lexer) : List Token := lexer.produced.reverse

def move (lexer : Lexer) (step : Cursor → Cursor) : Lexer :=
  { lexer with cursor := step lexer.cursor }

def setMark (lexer : Lexer) : Lexer := { lexer with mark := lexer.cursor }

def piece (lexer : Lexer) : List Char :=
  lexer.mark.rest.take (lexer.cursor.offset - lexer.mark.offset)

def pieceSpan (lexer : Lexer) : Span :=
  ⟨lexer.mark.offset, lexer.cursor.offset, lexer.mark.line, lexer.mark.column⟩

def report (lexer : Lexer) (fault : LexFault) (span : Span) : Lexer :=
  { lexer with diagnostics := lexer.diagnostics ++ [⟨.lexical fault, .error, span⟩] }

def addTrivia (lexer : Lexer) (kind : TriviaKind) : Lexer :=
  let trivia : Trivia := ⟨kind, String.ofList lexer.piece, lexer.mark.offset⟩
  match lexer.collecting, lexer.produced with
  | true, last :: earlier =>
    { lexer with produced := { last with trailing := last.trailing ++ [trivia] } :: earlier }
  | _, _ => { lexer with pending := lexer.pending ++ [trivia] }

def emitAs (lexer : Lexer) (kind : Kind) (text : String) : Lexer :=
  { lexer with
    produced := ⟨⟨kind, text⟩, lexer.pieceSpan, lexer.pending, []⟩ :: lexer.produced
    pending := []
    collecting := true }

def emit (lexer : Lexer) (kind : Kind) : Lexer :=
  lexer.emitAs kind (String.ofList lexer.piece)

def emitError (lexer : Lexer) (fault : LexFault) : Lexer :=
  (lexer.report fault lexer.pieceSpan).emit .error

/-- Takes the rest of the line into an error token. -/
def emitErrorLine (lexer : Lexer) (fault : LexFault) : Lexer :=
  (lexer.move .advanceToLineEnd).emitError fault

def scanWhitespace (lexer : Lexer) : Lexer :=
  (lexer.move (·.advanceWhile isInlineSpace)).addTrivia .whitespace

/-- A line break always leads the next token. -/
def scanNewline (lexer : Lexer) : Lexer :=
  let count := if lexer.cursor.peek 0 = '\r' ∧ lexer.cursor.peek 1 = '\n' then 2 else 1
  let past := lexer.cursor.advance count
  let broken := { lexer with
    cursor := { past with line := past.line + 1, column := 1 }
    collecting := false }
  broken.addTrivia .newline

def scanLineComment (lexer : Lexer) : Lexer :=
  (lexer.move .advanceToLineEnd).addTrivia .lineComment

def scanBlockComment (lexer : Lexer) : Lexer :=
  let opened := lexer.move (·.advance 2)
  match commentLength? opened.cursor.rest with
  | some length =>
    (opened.move fun cursor => (cursor.advanceAnyBy length).advance 2).addTrivia .blockComment
  | none =>
    (opened.move fun cursor => cursor.advanceAnyBy cursor.rest.length).emitErrorLine
      .unterminatedBlockComment

/-- A literal on one line, between two `quote`s. -/
def scanQuoted (lexer : Lexer) (quote : Char) (kind : Kind) (unterminated : LexFault) : Lexer :=
  let opened := lexer.move (·.advance 1)
  let start := opened.cursor
  let length := quotedLength quote start.rest
  let reported := (unknownEscapes 0 (start.rest.take length)).foldl
    (fun lexer (place, escaped) => lexer.report (.unknownEscape escaped)
      ⟨start.offset + place, start.offset + place + 2, start.line, start.column + place⟩) opened
  let body := reported.move (·.advance length)
  if body.cursor.rest.head? = some quote then
    (body.move (·.advance 1)).emit kind
  else
    body.emitErrorLine unterminated

def scanString (lexer : Lexer) : Lexer := lexer.scanQuoted '"' .string .unterminatedString

def scanCharacter (lexer : Lexer) : Lexer :=
  lexer.scanQuoted '\'' .character .unterminatedCharacter

def scanVerbatimString (lexer : Lexer) : Lexer :=
  let opened := lexer.move (·.advance 2)
  match verbatimLength? opened.cursor.rest with
  | some length =>
    (opened.move fun cursor => (cursor.advanceAnyBy length).advance 1).emit .verbatimString
  | none =>
    (opened.move fun cursor => cursor.advanceAnyBy cursor.rest.length).emitErrorLine
      .unterminatedVerbatimString

/-- A backslash and what it escapes; a backslash at the end of the line escapes nothing. -/
def scanEscape (lexer : Lexer) : Lexer :=
  let start := lexer.cursor
  let opened := lexer.move (·.advance 1)
  match opened.cursor.rest with
  | [] => opened
  | c :: _ =>
    if Cursor.isLineBreak c then opened
    else
      let closed := opened.move (·.advance 1)
      if isEscape c then closed
      else closed.report (.unknownEscape c)
        ⟨start.offset, start.offset + 2, start.line, start.column⟩

def scanHexadecimal (lexer : Lexer) : Lexer :=
  let opened := lexer.move (·.advance 2)
  if opened.cursor.rest.head?.any isHexDigit then
    (opened.move (·.advanceWhile isHexDigit)).emit .integer
  else
    opened.emitError .malformedHexadecimal

def scanDecimal (lexer : Lexer) : Lexer :=
  let text := lexer.cursor.rest
  let whole := digitCount text
  let fraction := fractionLength (text.drop whole)
  let exponent := exponentLength (text.drop (whole + fraction))
  (lexer.move (·.advance (whole + fraction + exponent))).emit
    (if fraction = 0 ∧ exponent = 0 then .integer else .float)

def scanNumber (lexer : Lexer) : Lexer :=
  if lexer.cursor.peek 0 = '0' ∧ (lexer.cursor.peek 1 = 'x' ∨ lexer.cursor.peek 1 = 'X') then
    lexer.scanHexadecimal
  else
    lexer.scanDecimal

def wordKind (text : String) : Kind :=
  (Kind.keywords.lookup text).getD .identifier

def scanWord (lexer : Lexer) : Lexer :=
  let past := lexer.move (·.advanceWhile isWordRest)
  past.emit (wordKind (String.ofList past.piece))

def scanOperator (lexer : Lexer) : Lexer :=
  match operatorAt? lexer.cursor.rest with
  | some (text, kind) => (lexer.move (·.advance text.length)).emit kind
  | none => (lexer.move (·.advance 1)).emitError (.unexpectedCharacter (lexer.cursor.peek 0))

def scanPiece (lexer : Lexer) : Lexer :=
  let marked := lexer.setMark
  let first := marked.cursor.peek 0
  let second := marked.cursor.peek 1
  if isInlineSpace first then marked.scanWhitespace
  else if Cursor.isLineBreak first then marked.scanNewline
  else if first = '#' ∨ first = '/' ∧ second = '/' then marked.scanLineComment
  else if first = '/' ∧ second = '*' then marked.scanBlockComment
  else if first = '"' then marked.scanString
  else if first = '@' ∧ second = '"' then marked.scanVerbatimString
  else if first = '\'' then marked.scanCharacter
  else if isDigit first then marked.scanNumber
  else if isWordStart first then marked.scanWord
  else marked.scanOperator

/-- Moves over `count` characters of the line and gives their text. -/
def take (lexer : Lexer) (count : Int) : Except BackwardMove (String × Lexer) :=
  if count < 0 then
    .error ⟨count⟩
  else
    .ok (String.ofList (lexer.cursor.rest.take count.toNat), lexer.move (·.advance count.toNat))

end Lexer

end Squirrel
