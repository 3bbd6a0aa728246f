import Squirrel.Doc.Basic
import Squirrel.Tree.Basic

/-! Where comments go. -/

namespace Squirrel.Layout

open Doc (hardLine freshLine space misfit)

/-- What stands after a comment in the middle of a construct. A block comment takes a line break
only if it is the last comment and a break follows it. -/
def gapAfterComment (kind : TriviaKind) (rest : List Trivia) : Doc :=
  if kind = .lineComment then hardLine
  else if !rest.any (·.isComment) && rest.any (·.kind = .newline) then hardLine
  else space

/-- Comments before a token in the middle of a construct. -/
def inlineComments (afterBreak : Bool) : List Trivia → List Doc
  | [] => []
  | trivia :: rest =>
    if trivia.kind = .newline then inlineComments true rest
    else if trivia.isComment then
      (if afterBreak then [freshLine] else []) ++
        [.text trivia.text, gapAfterComment trivia.kind rest] ++ inlineComments false rest
    else inlineComments afterBreak rest

/-- Comments on the line of a token. A line comment waits for the end of the line. -/
def trailingComments (token : Token) : List Doc :=
  token.trailing.flatMap fun trivia =>
    match trivia.kind with
    | .lineComment => [.lineSuffix (.text (" " ++ trivia.text)), .breakParent]
    | .blockComment => [.text (" " ++ trivia.text)]
    | _ => []

/-- What stands after a comment of kind `last` and a number of line breaks. At most one blank line
is kept, and none where nothing was `seen` before. -/
def separator (last : Option TriviaKind) (breaks : Nat) (seen : Bool) : List Doc :=
  (match last with
    | some .lineComment => [hardLine]
    | some .blockComment => if breaks = 0 then [space] else [hardLine]
    | _ => []) ++
  if 2 ≤ breaks ∧ seen then [hardLine] else []

/-- Comments one below the other, the kind of the last one, and the line breaks after it. -/
structure CommentLines where
  docs : List Doc
  last : Option TriviaKind
  breaks : Nat

def commentLinesAfter (seen : Bool) (last : Option TriviaKind) (breaks : Nat) :
    List Trivia → CommentLines
  | [] => ⟨[], last, breaks⟩
  | trivia :: rest =>
    if trivia.kind = .newline then commentLinesAfter seen last (breaks + 1) rest
    else if trivia.isComment then
      let lines := commentLinesAfter true (some trivia.kind) 0 rest
      { lines with docs := separator last breaks seen ++ .text trivia.text :: lines.docs }
    else commentLinesAfter seen last breaks rest

def commentLines (leading : List Trivia) (seen : Bool) : CommentLines :=
  commentLinesAfter seen none 0 leading

/-- Comments, and at most one blank line, before a statement or an entry, which has to have a
token. -/
def unitComments (seen : Bool) (unit : Tree) : List Doc :=
  match unit.firstToken? with
  | some first =>
    let lines := commentLines first.leading seen
    lines.docs ++ separator lines.last lines.breaks (seen || lines.last.isSome)
  | none => [misfit]

/-- Comments before a closing token. Blank lines before it are dropped. -/
def danglingComments (afterUnits : Bool) (closer : Token) : List Doc :=
  let lines := commentLines closer.leading afterUnits
  if afterUnits ∧ ¬ lines.docs.isEmpty then hardLine :: lines.docs else lines.docs

end Squirrel.Layout
