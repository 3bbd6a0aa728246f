import Squirrel.Grammar.Program

/-! Colouring source text by what its tokens are for. -/

namespace Squirrel.Highlight

inductive Group where
  | keyword | string | number | comment | operator | function | parameter | variable | property
  | error
  deriving DecidableEq, Repr

namespace Group

def name : Group → String
  | .keyword => "keyword"
  | .string => "string"
  | .number => "number"
  | .comment => "comment"
  | .operator => "operator"
  | .function => "function"
  | .parameter => "parameter"
  | .variable => "variable"
  | .property => "property"
  | .error => "error"

def style : Group → String
  | .keyword => "bold ansicyan"
  | .string => "ansigreen"
  | .number => "ansimagenta"
  | .comment => "italic ansigray"
  | .operator => ""
  | .function => "bold ansiyellow"
  | .parameter => "italic"
  | .variable => ""
  | .property => "ansiblue"
  | .error => "bold ansired"

end Group

/-- The role of an identifier that is a child of a node. `called` says that the node is what a call
calls, and then the last name in it is that of a function. -/
def roleIn (called : Bool) (label : Label) (index : Nat) (isLast : Bool) : Group :=
  match label with
  | .reference | .rootReference => if called && isLast then .function else .variable
  | .member => if isLast then if called then .function else .property else .variable
  | .functionName => .function
  | .tableMethod => if index = 1 then .function else .variable
  | .tableSlot => if index = 0 then .property else .variable
  | .parameter => if index = 0 then .parameter else .variable
  | .tryStatement => .parameter
  | _ => .variable

def isCall (label : Label) : Bool := label = .call || label = .inheritCall

mutual

/-- The tokens of a tree, each with its role if it is an identifier. -/
def roles (called : Bool) : Tree → List (Token × Group)
  | .leaf token => [(token, .variable)]
  | .node label children => rolesOf called label 0 children

def rolesOf (called : Bool) (label : Label) (index : Nat) : List Tree → List (Token × Group)
  | [] => []
  | .leaf token :: trees =>
    (token, roleIn called label index trees.isEmpty) :: rolesOf called label (index + 1) trees
  | .node inner children :: trees =>
    roles (isCall label && index = 0) (.node inner children) ++
      rolesOf called label (index + 1) trees

end

/-- Punctuation and the end of the text have no group. -/
def groupOf? (token : Token) (role : Group) : Option Group :=
  if token.kind = .identifier then some role
  else if token.kind.isKeyword then some .keyword
  else if token.kind.isOperator then some .operator
  else match token.kind with
    | .integer | .float => some .number
    | .string | .verbatimString | .character => some .string
    | .error => some .error
    | _ => none

/-- A coloured range. Its line and column count from one, and only a line feed ends a line. -/
structure Range where
  start : Nat
  length : Nat
  line : Nat
  column : Nat
  group : Group
  deriving DecidableEq, Repr

/-- Where the lines of a text start, if it begins at `offset`. -/
def lineStartsAfter (offset : Nat) : List Char → List Nat
  | [] => []
  | c :: text =>
    if c = '\n' then (offset + 1) :: lineStartsAfter (offset + 1) text
    else lineStartsAfter (offset + 1) text

def lineStarts (text : List Char) : List Nat := 0 :: lineStartsAfter 0 text

def range (starts : List Nat) (start stop : Nat) (group : Group) : Range :=
  let before := starts.takeWhile (· ≤ start)
  ⟨start, stop - start, before.length, start - before.getLastD 0 + 1, group⟩

def commentRanges (starts : List Nat) (trivia : List Trivia) : List Range :=
  (trivia.filter (·.isComment)).map fun comment =>
    range starts comment.start comment.stop .comment

def tokenRanges (starts : List Nat) (token : Token) (role : Group) : List Range :=
  commentRanges starts token.leading ++
    (match groupOf? token role with
      | some group =>
        if token.span.start < token.span.stop then
          [range starts token.span.start token.span.stop group]
        else []
      | none => []) ++
    commentRanges starts token.trailing

/-- Whether the last child of what is called is a name or should be one. -/
def isNamed (callee : Tree) : Bool :=
  callee.hasLabel .reference || callee.hasLabel .rootReference || callee.hasLabel .member

/-- Whether a node has the child that it gives a role to. -/
def hasMarked : Tree → Bool
  | .node .tableMethod children => 2 ≤ children.length
  | .node .call children | .node .inheritCall children =>
    children.head?.any fun callee => !isNamed callee || !callee.children.isEmpty
  | .node .member children | .node .tableSlot children | .node .parameter children =>
    !children.isEmpty
  | _ => true

/-- The coloured ranges of a tree, unless a node lacks a child that it gives a role to. -/
def treeRanges? (source : String) (tree : Tree) : Except (Option Label) (List Range) :=
  match tree.nodes.find? (!hasMarked ·) with
  | some node => .error node.label?
  | none =>
    let starts := lineStarts source.toList
    .ok ((roles false tree).flatMap fun (token, role) => tokenRanges starts token role)

def ranges? [NestingLimit] (source : String) : Except (Option Label) (List Range) :=
  treeRanges? source (parse source).tree

/-- The coloured ranges of a text, in source order. -/
def ranges [NestingLimit] (source : String) : List Range := (ranges? source).toOption.getD []

/-- A piece of text and the style it is shown in. -/
structure Fragment where
  style : String
  text : List Char
  deriving DecidableEq, Repr

/-- Cuts `text`, which starts at `offset`, along the ranges. Of two ranges that overlap the second
one is left out. -/
def cut (offset : Nat) (text : List Char) : List Range → List Fragment
  | [] => if text.isEmpty then [] else [⟨"", text⟩]
  | range :: ranges =>
    if range.start < offset then cut offset text ranges
    else
      let rest := text.drop (range.start - offset)
      (if offset < range.start then [⟨"", text.take (range.start - offset)⟩] else []) ++
        ⟨range.group.style, rest.take range.length⟩ ::
          cut (range.start + range.length) (rest.drop range.length) ranges

/-- Styled fragments that cover the whole text. -/
def fragments [NestingLimit] (source : String) : List Fragment :=
  cut 0 source.toList (ranges source)

/-- The parts of a text between its line feeds. -/
def splitAtLineFeeds : List Char → List (List Char)
  | [] => [[]]
  | c :: text =>
    match splitAtLineFeeds text with
    | [] => [[c]]
    | first :: others => if c = '\n' then [] :: first :: others else (c :: first) :: others

/-- Puts the parts of a fragment in front of the lines that follow it. -/
def prependParts (style : String) : List (List Char) → List (List Fragment) → List (List Fragment)
  | [], lines => lines
  | [part], [] => [[⟨style, part⟩]]
  | [part], line :: lines => (⟨style, part⟩ :: line) :: lines
  | part :: parts, lines => [⟨style, part⟩] :: prependParts style parts lines

/-- The fragments line by line. There is always at least one line. -/
def splitLines (fragments : List Fragment) : List (List Fragment) :=
  fragments.foldr (fun fragment lines =>
    prependParts fragment.style (splitAtLineFeeds fragment.text) lines) [[]]

/-- The line with this number, counted from zero; past the end it is blank. -/
def lineAt (lines : List (List Fragment)) (number : Nat) : List Fragment :=
  lines.getD number [⟨"", []⟩]

/-- A line of a text, where `split` tells the fragments of its lines apart. -/
def lineOf [NestingLimit] (split : List Fragment → List (List Fragment)) (source : String)
    (number : Nat) : List Fragment :=
  lineAt (split (fragments source)) number

end Squirrel.Highlight
