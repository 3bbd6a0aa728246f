import Squirrel.Doc.Basic

/-! The page that a document is printed on. -/

namespace Squirrel

structure PageStyle where
  width : Int
  indentUnit : String
  tabWidth : Int
  deriving DecidableEq, Repr

namespace PageStyle

def charWidth (style : PageStyle) (c : Char) : Int := if c = '\t' then style.tabWidth else 1

def textWidth (style : PageStyle) (text : List Char) : Int :=
  text.foldr (style.charWidth · + ·) 0

def indentWidth (style : PageStyle) (level : Int) : Int :=
  level * style.textWidth style.indentUnit.toList

/-- The start of a line; there is none below level zero. -/
def indentation (style : PageStyle) (level : Int) : List Char :=
  (List.replicate level.toNat style.indentUnit.toList).flatten

end PageStyle

def isTrailingBlank (c : Char) : Bool := c = ' ' || c = '\t'

/-- Whether a line with this text shows anything. -/
def hasInk (text : List Char) : Bool := text.any (!Text.isBlank ·)

def lastLine (text : List Char) : List Char := (text.reverse.takeWhile (· ≠ '\n')).reverse

def trimEnd (text : List Char) : List Char := (text.reverse.dropWhile isTrailingBlank).reverse

/-- What has been printed, the latest piece first, with the width of the current line and whether
it shows anything. -/
structure Page where
  pieces : List (List Char)
  column : Int
  inked : Bool
  deriving DecidableEq, Repr

namespace Page

def blank : Page := ⟨[], 0, false⟩

def text (page : Page) : List Char := page.pieces.reverse.flatten

def endsInSpace (page : Page) : Bool := page.pieces.head?.any (·.getLast? = some ' ')

/-- A text loses its leading space at the start of a line and after another space. -/
def squeeze (page : Page) : List Char → List Char
  | ' ' :: rest => if !page.inked || page.endsInSpace then rest else ' ' :: rest
  | text => text

def append (style : PageStyle) (page : Page) (text : List Char) : Page :=
  if text.isEmpty then page
  else if text.contains '\n' then
    ⟨text :: page.pieces, style.textWidth (lastLine text), hasInk (lastLine text)⟩
  else
    ⟨text :: page.pieces, page.column + style.textWidth text, page.inked || hasInk text⟩

def write (style : PageStyle) (page : Page) (text : List Char) : Page :=
  page.append style (page.squeeze text)

def trimPieces : List (List Char) → List (List Char)
  | [] => []
  | piece :: pieces =>
    if (trimEnd piece).isEmpty then trimPieces pieces else trimEnd piece :: pieces

/-- Takes back spaces and tabs from the end. -/
def trim (page : Page) : Page := { page with pieces := trimPieces page.pieces }

def newline (style : PageStyle) (page : Page) (level : Int) : Page :=
  ⟨('\n' :: style.indentation level) :: page.trim.pieces, style.indentWidth level, false⟩

end Page

end Squirrel
